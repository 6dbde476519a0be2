import Nhop.Daemon.State

/-!
What serves traffic, and that what the daemon records about its listeners is what
the listeners hold.

The addresses and the forwards are kept twice, in the front ends and in the
state that is reported. `Consistent` says that the two agree and that every
protocol listener came from an attempt already made, which is what makes a
listener opened later a different one. Both moves of the front ends keep it,
whether they are granted what they ask for or refused.
-/

namespace Nhop.Daemon

open Foundation Ipc Rules Proxy Upstream

/-- What serves traffic: the rules, the published upstreams with their handles,
the addresses recorded and the listeners that hold them, and the forwards. -/
@[ext] structure Serving where
  rules : Ruleset
  upstream : Arc UpstreamEntries
  listen : Listen
  frontends : Frontends
  forwards : Forwards

namespace DaemonState

def serving (state : DaemonState) : Serving :=
  ⟨state.rules, state.upstream, state.listen, state.frontends, state.forwards⟩

/-- The addresses and forwards recorded are those the listeners hold, and every
protocol listener was opened by an attempt made. -/
structure Consistent (state : DaemonState) : Prop where
  listen : ∀ bound, state.frontends = .bound bound → state.listen = bound.listen
  forwards : ∀ bound, state.frontends = .bound bound → state.forwards = bound.forwardsHeld
  opened : ∀ bound, state.frontends = .bound bound →
    bound.http.accepting < state.calls ∧ bound.socks.accepting < state.calls

section moves

variable {os : Os} {state : DaemonState} {bound : Bound} {listen : Listen} {forwards : Forwards}

/-- Moving the front ends of a daemon that has listeners, every address granted. -/
theorem rebind_granted (hbound : state.frontends = .bound bound)
    (h : os.grants state.calls (bound.toOpen listen) = true) :
    ∃ moved, state.rebind os listen =
        (.ok (), { state with
          frontends := .bound moved
          calls := state.calls + (bound.toOpen listen).length
          httpListen := moved.http.addr
          socksListen := moved.socks.addr }) ∧
      moved.forwards = bound.forwards ∧
      Moves os state.calls (state.calls + (bound.toOpen listen).length) listen.http bound.http
        moved.http ∧
      Moves os state.calls (state.calls + (bound.toOpen listen).length) listen.socks bound.socks
        moved.socks := by
  obtain ⟨moved, hmoved, hrest⟩ := Bound.rebind_granted h
  refine ⟨moved, ?_, hrest⟩
  simp only [rebind, hbound, Frontends.rebind, hmoved, Bound.listen]

theorem rebind_refused (hbound : state.frontends = .bound bound)
    (h : os.grants state.calls (bound.toOpen listen) = false) :
    ∃ failure calls', state.rebind os listen = (.error failure, { state with calls := calls' }) ∧
      state.calls ≤ calls' := by
  obtain ⟨failure, calls', hrefused, hle⟩ := Bound.rebind_refused h
  refine ⟨failure, calls', ?_, hle⟩
  simp only [rebind, hbound, Frontends.rebind, hrefused]

/-- Replacing the forwards of a daemon that has listeners, every address granted. -/
theorem rebindForwards_granted (hbound : state.frontends = .bound bound)
    (h : os.grants state.calls (bound.toForward forwards) = true) :
    ∃ fresh, state.rebindForwards os forwards =
        (.ok (), { state with
          frontends := .bound { bound with forwards := bound.retained forwards ++ fresh }
          calls := state.calls + (bound.toForward forwards).length
          forwards :=
            { bound with forwards := bound.retained forwards ++ fresh }.forwardsHeld }) ∧
      Opens os state.calls (bound.missing forwards.forwards) fresh := by
  obtain ⟨fresh, hfresh, hopens⟩ := Bound.rebindForwards_granted h
  refine ⟨fresh, ?_, hopens⟩
  simp only [rebindForwards, hbound, Frontends.rebindForwards, hfresh]

theorem rebindForwards_refused (hbound : state.frontends = .bound bound)
    (h : os.grants state.calls (bound.toForward forwards) = false) :
    ∃ failure calls', state.rebindForwards os forwards =
        (.error failure, { state with calls := calls' }) ∧ state.calls ≤ calls' := by
  obtain ⟨failure, calls', hrefused, hle⟩ := Bound.rebindForwards_refused h
  refine ⟨failure, calls', ?_, hle⟩
  simp only [rebindForwards, hbound, Frontends.rebindForwards, hrefused]

theorem rebind_unbound (hunbound : state.frontends = .unbound) :
    state.rebind os listen =
      (.ok (), { state with httpListen := listen.http, socksListen := listen.socks }) := by
  simp only [rebind, hunbound, Frontends.rebind]

theorem rebindForwards_unbound (hunbound : state.frontends = .unbound) :
    state.rebindForwards os forwards = (.ok (), { state with forwards := forwards }) := by
  simp only [rebindForwards, hunbound, Frontends.rebindForwards]

theorem rebind_frame : (state.rebind os listen).2.load = state.load ∧
    (state.rebind os listen).2.loadIds = state.loadIds := by
  unfold rebind
  split <;> exact ⟨rfl, rfl⟩

theorem rebindForwards_frame : (state.rebindForwards os forwards).2.load = state.load ∧
    (state.rebindForwards os forwards).2.loadIds = state.loadIds := by
  unfold rebindForwards
  split <;> exact ⟨rfl, rfl⟩

end moves

section consistent

variable {os : Os} {state : DaemonState} {listen : Listen} {forwards : Forwards} {now : ℤ}

/-- A state with the same listeners and records stays consistent, however often
an address was bound in between. -/
theorem Consistent.frame (h : state.Consistent) {state' : DaemonState}
    (hfrontends : state'.frontends = state.frontends) (hlisten : state'.listen = state.listen)
    (hforwards : state'.forwards = state.forwards) (hcalls : state.calls ≤ state'.calls) :
    state'.Consistent where
  listen bound hbound := by
    rw [hlisten]
    exact h.listen bound (hfrontends ▸ hbound)
  forwards bound hbound := by
    rw [hforwards]
    exact h.forwards bound (hfrontends ▸ hbound)
  opened bound hbound := by
    obtain ⟨hhttp, hsocks⟩ := h.opened bound (hfrontends ▸ hbound)
    exact ⟨hhttp.trans_le hcalls, hsocks.trans_le hcalls⟩

theorem consistent_unbound (hunbound : state.frontends = .unbound) : state.Consistent := by
  refine ⟨?_, ?_, ?_⟩ <;>
    · intro bound hbound
      rw [hunbound] at hbound
      cases hbound

/-- A front end that was opened stays one that was, wherever it moves. -/
theorem Consistent.moves {before after : Accepting} {wanted : SocketAddr} {calls calls' : ℕ}
    (hbefore : before.accepting < calls) (hle : calls ≤ calls')
    (h : Moves os calls calls' wanted before after) : after.accepting < calls' := by
  rcases h with ⟨_, rfl⟩ | ⟨_, call, addr, _, hlast, _, rfl⟩
  · exact hbefore.trans_le hle
  · exact hlast

theorem Consistent.rebind (h : state.Consistent) : (state.rebind os listen).2.Consistent := by
  cases hfrontends : state.frontends with
  | unbound =>
      apply consistent_unbound
      rw [rebind_unbound hfrontends]
      exact hfrontends
  | bound bound =>
      cases hgranted : os.grants state.calls (bound.toOpen listen) with
      | false =>
          obtain ⟨failure, calls', hrefused, hle⟩ := rebind_refused hfrontends hgranted
          rw [hrefused]
          exact h.frame rfl rfl rfl hle
      | true =>
          obtain ⟨moved, hmoved, hsame, hhttp, hsocks⟩ := rebind_granted hfrontends hgranted
          obtain ⟨hopened, hopened'⟩ := h.opened bound hfrontends
          rw [hmoved]
          refine ⟨?_, ?_, ?_⟩
          · rintro _ ⟨⟩
            rfl
          · rintro _ ⟨⟩
            show state.forwards = moved.forwardsHeld
            rw [h.forwards bound hfrontends, Bound.forwardsHeld, Bound.forwardsHeld, hsame]
          · rintro _ ⟨⟩
            have hle : state.calls ≤ state.calls + (bound.toOpen listen).length :=
              Nat.le_add_right _ _
            exact ⟨Consistent.moves hopened hle hhttp, Consistent.moves hopened' hle hsocks⟩

theorem Consistent.rebindForwards (h : state.Consistent) :
    (state.rebindForwards os forwards).2.Consistent := by
  cases hfrontends : state.frontends with
  | unbound =>
      apply consistent_unbound
      rw [rebindForwards_unbound hfrontends]
      exact hfrontends
  | bound bound =>
      cases hgranted : os.grants state.calls (bound.toForward forwards) with
      | false =>
          obtain ⟨failure, calls', hrefused, hle⟩ := rebindForwards_refused hfrontends hgranted
          rw [hrefused]
          exact h.frame rfl rfl rfl hle
      | true =>
          obtain ⟨fresh, hfresh, _⟩ := rebindForwards_granted hfrontends hgranted
          obtain ⟨hopened, hopened'⟩ := h.opened bound hfrontends
          rw [hfresh]
          refine ⟨?_, ?_, ?_⟩
          · rintro _ ⟨⟩
            exact h.listen bound hfrontends
          · rintro _ ⟨⟩
            rfl
          · rintro _ ⟨⟩
            exact ⟨hopened.trans_le (Nat.le_add_right _ _),
              hopened'.trans_le (Nat.le_add_right _ _)⟩

theorem Consistent.adoptUpstream {upstreams : Option Upstreams} (h : state.Consistent) :
    (state.adoptUpstream now upstreams).Consistent := by
  cases upstreams with
  | none => exact h
  | some upstreams => exact h.frame rfl rfl rfl (Nat.le_refl _)

theorem Consistent.publish {rules : Ruleset} {upstreams : Option Upstreams}
    (h : state.Consistent) : (state.publish now rules upstreams).Consistent := by
  apply Consistent.adoptUpstream
  exact h.frame rfl rfl rfl (Nat.le_refl _)

end consistent

end DaemonState

end Nhop.Daemon
