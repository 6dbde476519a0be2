import Nhop.Daemon.Atomicity
import Nhop.Daemon.Opened

/-!
Committing the same run twice.

A commit replaces or keeps: front ends and forwards are held by address, verdicts
by the socket they judge, and the rules are replaced whole. What a commit leaves
is what the same commit keeps, so that a second one has nothing to bind and
nothing to close. Ports left open are the exception, since a listener asked for
on port zero is found nowhere by the address it was asked for on.
-/

namespace Nhop.Daemon

open Foundation Ipc Rules Proxy Upstream

/-- Every address the run names has a port of its own. -/
structure Staging.Ported (staged : Staging) : Prop where
  listen : ∀ listen, staged.listen = some listen → listen.http.port ≠ 0 ∧ listen.socks.port ≠ 0
  forwards : ∀ forward ∈ staged.forwards.forwards, forward.listen.port ≠ 0

/-- The forward listeners are the ones wanted, and none is missing. -/
structure Bound.Serves (bound : Bound) (wanted : Forwards) : Prop where
  named : ∀ forwarding ∈ bound.forwards, forwarding.forward ∈ wanted.forwards
  present : ∀ forward ∈ wanted.forwards, bound.held forward.listen = true

section bound

variable {os : Os} {calls : ℕ} {bound : Bound} {wanted : Forwards}

theorem Bound.held_iff {listen : SocketAddr} :
    bound.held listen = true ↔
      ∃ forwarding ∈ bound.forwards, forwarding.accepting.addr = listen := by
  simp [Bound.held]

theorem Bound.Serves.retained (h : bound.Serves wanted) :
    bound.retained wanted = bound.forwards := by
  have htarget : ∀ forwarding ∈ bound.forwards,
      wanted.targetOf forwarding.accepting.addr = some forwarding.target := by
    intro forwarding hmem
    exact Forwards.targetOf_eq_some.mpr (h.named forwarding hmem)
  unfold Bound.retained
  rw [List.filter_eq_self.mpr]
  · apply (List.map_congr_left _).trans (List.map_id _)
    intro forwarding hmem
    rw [htarget forwarding hmem]
    rfl
  · intro forwarding hmem
    rw [htarget forwarding hmem]
    rfl

theorem Bound.Serves.missing (h : bound.Serves wanted) : bound.missing wanted.forwards = [] := by
  unfold Bound.missing
  rw [List.filter_eq_nil_iff]
  intro forward hmem
  simp [h.present forward hmem]

theorem Bound.Serves.rebindForwards (h : bound.Serves wanted) :
    bound.rebindForwards os calls wanted = (.ok bound.forwardsHeld, bound, calls) := by
  have hnone : bound.toForward wanted = [] := by rw [Bound.toForward_eq, h.missing, List.map_nil]
  have hgranted : os.grants calls (bound.toForward wanted) = true := by
    rw [hnone]
    rfl
  obtain ⟨fresh, hfresh, hopens⟩ := Bound.rebindForwards_granted hgranted
  rw [h.missing] at hopens
  obtain rfl : fresh = [] := hopens
  rw [hfresh, h.retained, hnone, List.append_nil]
  rfl

theorem Bound.rebind_self :
    bound.rebind os calls bound.listen = (.ok bound.listen, bound, calls) := by
  simp [Bound.rebind, Bound.listen, bindUnlessHeld]

theorem Os.Honest.opened (hos : os.Honest) {forwards : List Forward} {fresh : List Forwarding}
    (hopens : Opens os calls forwards fresh)
    (hports : ∀ forward ∈ forwards, forward.listen.port ≠ 0) :
    fresh.map Forwarding.forward = forwards := by
  induction forwards generalizing calls fresh with
  | nil =>
      obtain rfl : fresh = [] := hopens
      rfl
  | cons forward rest ih =>
      obtain ⟨got, more, hbind, rfl, hmore⟩ := hopens
      have hgot : got = forward.listen :=
        hos _ _ _ hbind (hports forward (List.mem_cons_self ..))
      rw [List.map_cons, ih hmore fun later hlater => hports later (List.mem_cons_of_mem _ hlater)]
      rw [Forwarding.forward, hgot]

/-- **A replacement leaves the forwards it was asked for.** -/
theorem Bound.serves (hos : os.Honest) {fresh : List Forwarding}
    (hports : ∀ forward ∈ wanted.forwards, forward.listen.port ≠ 0)
    (hopens : Opens os calls (bound.missing wanted.forwards) fresh) :
    Bound.Serves { bound with forwards := bound.retained wanted ++ fresh } wanted := by
  have hopened : fresh.map Forwarding.forward = bound.missing wanted.forwards := by
    apply hos.opened hopens
    intro forward hmem
    exact hports forward (List.mem_of_mem_filter hmem)
  have hmem : ∀ forward ∈ wanted.forwards,
      forward ∈ (bound.retained wanted ++ fresh).map Forwarding.forward := by
    intro forward hwanted
    rw [List.map_append, List.mem_append, Bound.mem_retained, hopened, Bound.missing,
      List.mem_filter]
    cases hheld : bound.held forward.listen with
    | true => exact Or.inl ⟨hwanted, rfl⟩
    | false => exact Or.inr ⟨hwanted, by simp⟩
  refine ⟨?_, ?_⟩
  · intro forwarding hforwarding
    rcases List.mem_append.mp hforwarding with hkept | hfresh
    · exact (Bound.mem_retained.mp (List.mem_map_of_mem hkept)).1
    · have hin : forwarding.forward ∈ fresh.map Forwarding.forward := List.mem_map_of_mem hfresh
      rw [hopened] at hin
      exact List.mem_of_mem_filter hin
  · intro forward hwanted
    obtain ⟨forwarding, hforwarding, hsame⟩ := List.mem_map.mp (hmem forward hwanted)
    rw [Bound.held_iff]
    exact ⟨forwarding, hforwarding, by rw [← hsame]; rfl⟩

end bound

namespace DaemonState

section again

variable {os os' : Os} {state moved forwarded after : DaemonState} {staged : Staging} {now : ℤ}

theorem grants_of_commit (h : state.commit os now staged = (.ok (), after)) :
    os.grants state.calls (state.frontends.toBind staged) = true := by
  rw [Frontends.toBind, Os.grants_append]
  cases hmove : os.grants state.calls (state.frontends.toMove staged.listen) with
  | false =>
      obtain ⟨failure, calls', hrefused, _⟩ := commit_refused_move now hmove
      rw [hrefused] at h
      cases h
  | true =>
      cases hforward : os.grants (state.calls + (state.frontends.toMove staged.listen).length)
          (state.frontends.toForward staged.forwards) with
      | true => rfl
      | false =>
          obtain ⟨moved, failure, calls', _, _, hrefused⟩ :=
            commit_refused_forward now hmove hforward
          rw [hrefused] at h
          cases h

/-- The front ends are at these addresses, as recorded and as held. -/
structure Placed (wanted : Listen) (state : DaemonState) : Prop where
  recorded : state.listen = wanted
  held : ∀ bound, state.frontends = .bound bound → bound.listen = wanted

/-- The forwards are the ones wanted, as recorded and as held. -/
structure Routed (wanted : Forwards) (state : DaemonState) : Prop where
  unbound : state.frontends = .unbound → state.forwards = wanted
  recorded : ∀ bound, state.frontends = .bound bound → state.forwards = bound.forwardsHeld
  held : ∀ bound, state.frontends = .bound bound → bound.Serves wanted

/-- Asking for the addresses the front ends are at moves nothing. -/
theorem Placed.move {listen : Option Listen}
    (h : ∀ wanted, listen = some wanted → Placed wanted state) :
    state.move os listen = (.ok (), state) := by
  cases listen with
  | none => rfl
  | some wanted =>
      obtain ⟨hrecorded, hheld⟩ := h wanted rfl
      have hkept :
          { state with httpListen := wanted.http, socksListen := wanted.socks } = state := by
        rw [← hrecorded]
        rfl
      cases hfrontends : state.frontends with
      | unbound => rw [DaemonState.move, rebind_unbound hfrontends, hkept]
      | bound bound =>
          have hsame := hheld bound hfrontends
          subst hsame
          simp only [DaemonState.move, rebind, hfrontends, Frontends.rebind, Bound.rebind_self]
          rw [← hfrontends, hkept]

theorem Routed.rebindForwards {wanted : Forwards} (h : Routed wanted state) :
    state.rebindForwards os wanted = (.ok (), state) := by
  cases hfrontends : state.frontends with
  | unbound => rw [rebindForwards_unbound hfrontends, ← h.unbound hfrontends]
  | bound bound =>
      have hserves := h.held bound hfrontends
      simp only [DaemonState.rebindForwards, hfrontends, Frontends.rebindForwards,
        hserves.rebindForwards]
      rw [← hfrontends, ← h.recorded bound hfrontends]

theorem Moved.placed (hos : os.Honest) (hports : staged.Ported)
    (h : Moved os staged.listen state moved) {wanted : Listen}
    (hlisten : staged.listen = some wanted) : Placed wanted moved := by
  rw [hlisten] at h
  obtain ⟨hhttp, hsocks⟩ := hports.listen wanted hlisten
  have hanswers := h.answers hos
  have hwanted : moved.listen = wanted := by
    apply Listen.ext
    · exact hanswers.1.resolve_right fun hopen => hhttp hopen.1
    · exact hanswers.2.resolve_right fun hopen => hsocks hopen.1
  refine ⟨hwanted, ?_⟩
  intro bound hbound
  cases hfrontends : state.frontends with
  | unbound =>
      rw [(h.unbound hfrontends).1] at hbound
      cases hbound
  | bound before =>
      obtain ⟨bound', hbound', hsame, _⟩ := h.bound before hfrontends wanted rfl
      obtain rfl : bound' = bound := by simpa [hbound'] using hbound
      rw [← hsame, hwanted]

/-- Replacing the forwards leaves the protocol front ends where they are. -/
theorem Forwarded.placed {wanted : Listen} {forwards : Forwards}
    (h : Forwarded os forwards moved forwarded) (hplaced : Placed wanted moved) :
    Placed wanted forwarded := by
  have hlisten : forwarded.listen = moved.listen := by
    rw [h.frame]
    rfl
  refine ⟨hlisten.trans hplaced.recorded, ?_⟩
  intro bound hbound
  cases hfrontends : moved.frontends with
  | unbound =>
      rw [(h.unbound hfrontends).1] at hbound
      cases hbound
  | bound before =>
      obtain ⟨fresh, hafter, _⟩ := h.bound before hfrontends
      rw [hafter] at hbound
      cases hbound
      exact hplaced.held before hfrontends

theorem Forwarded.routed (hos : os.Honest) {wanted : Forwards}
    (hports : ∀ forward ∈ wanted.forwards, forward.listen.port ≠ 0)
    (h : Forwarded os wanted moved forwarded) : Routed wanted forwarded := by
  cases hfrontends : moved.frontends with
  | unbound =>
      obtain ⟨hunbound, hforwards⟩ := h.unbound hfrontends
      refine ⟨fun _ => hforwards, ?_, ?_⟩ <;> simp [hunbound]
  | bound before =>
      obtain ⟨fresh, hafter, hforwards, hopens⟩ := h.bound before hfrontends
      refine ⟨by simp [hafter], ?_, ?_⟩
      · intro bound hbound
        rw [hafter] at hbound
        cases hbound
        exact hforwards
      · intro bound hbound
        rw [hafter] at hbound
        cases hbound
        exact before.serves hos hports hopens

theorem publish_frame {rules : Ruleset} {upstream : Option Upstreams} :
    (state.publish now rules upstream).frontends = state.frontends ∧
      (state.publish now rules upstream).listen = state.listen ∧
      (state.publish now rules upstream).forwards = state.forwards ∧
      (state.publish now rules upstream).calls = state.calls ∧
      (state.publish now rules upstream).rules = rules := by
  cases upstream <;> exact ⟨rfl, rfl, rfl, rfl, rfl⟩

theorem publish_publish {rules : Ruleset} {upstream : Option Upstreams} {now' : ℤ} :
    ((state.publish now rules upstream).publish now' rules upstream).upstream.val.entries =
        (state.publish now rules upstream).upstream.val.entries ∧
      ((state.publish now rules upstream).publish now' rules upstream).cells =
        (state.publish now rules upstream).cells := by
  cases upstream with
  | none => exact ⟨rfl, rfl⟩
  | some list => exact UpstreamEntries.adopted_self UpstreamEntries.upstreams_adopted

/-- What committing a run again leaves as it was: the rules, every listener and
what it is recorded as, the forwards with their destinations, and the upstreams
with their handles and verdicts. -/
structure Unmoved (before after : DaemonState) : Prop where
  rules : after.rules = before.rules
  bound : after.calls = before.calls
  frontends : after.frontends = before.frontends
  listen : after.listen = before.listen
  forwards : after.forwards = before.forwards
  upstreams : after.upstream.val.entries = before.upstream.val.entries
  verdicts : after.upstream.val.verdicts after.cells =
    before.upstream.val.verdicts before.cells

/-- **Committing a run a second time changes nothing**: on an operating system
that opens a listener where it is asked for, the second commit asks for no
address, whatever the state the first was made in and whenever the second is. -/
theorem commit_again (os os' : Os) (hos : os.Honest) (state after : DaemonState)
    (staged : Staging) (hports : staged.Ported) (now now' : ℤ)
    (h : state.commit os now staged = (.ok (), after)) :
    ∃ again, after.commit os' now' staged = (.ok (), again) ∧ Unmoved after again := by
  obtain ⟨moved, forwarded, hmoved, hforwarded, hcommit⟩ :=
    commit_granted now (grants_of_commit h)
  rw [hcommit] at h
  obtain ⟨-, rfl⟩ := Prod.mk.inj h
  set published := forwarded.publish now staged.rules staged.upstream with hpublished
  obtain ⟨hfrontends, hlisten, hforwards, -, hrules⟩ : published.frontends = forwarded.frontends ∧
      published.listen = forwarded.listen ∧ published.forwards = forwarded.forwards ∧
      published.calls = forwarded.calls ∧ published.rules = staged.rules := publish_frame
  have hplaced : ∀ wanted, staged.listen = some wanted → Placed wanted published := by
    intro wanted hwanted
    have hbefore := hforwarded.placed (hmoved.placed hos hports hwanted)
    exact ⟨hlisten.trans hbefore.recorded, fun bound hbound =>
      hbefore.held bound (hfrontends ▸ hbound)⟩
  have hrouted : Routed staged.forwards published := by
    have hbefore := hforwarded.routed hos hports.forwards
    exact ⟨fun hunbound => hforwards.trans (hbefore.unbound (hfrontends ▸ hunbound)),
      fun bound hbound => hforwards.trans (hbefore.recorded bound (hfrontends ▸ hbound)),
      fun bound hbound => hbefore.held bound (hfrontends ▸ hbound)⟩
  refine ⟨published.publish now' staged.rules staged.upstream, ?_, ?_⟩
  · rw [commit_eq, Placed.move hplaced]
    simp only
    rw [hrouted.rebindForwards]
  · obtain ⟨hfrontends, hlisten, hforwards, hcalls, hagain⟩ :=
      @publish_frame published now' staged.rules staged.upstream
    obtain ⟨hentries, hcells⟩ :=
      @publish_publish forwarded now staged.rules staged.upstream now'
    refine ⟨hagain.trans hrules.symm, hcalls, hfrontends, hlisten, hforwards, hentries, ?_⟩
    unfold UpstreamEntries.verdicts
    rw [hentries, hcells]

end again

/-- A run that moves the front ends and declares a forward, committed twice. -/
theorem commit_again_ported : ∃ after again,
    fresh.commit willing 0 movedAndForwarded = (.ok (), after) ∧
      after.commit willing 5 movedAndForwarded = (.ok (), again) ∧ Unmoved after again := by
  have hos : willing.Honest := by
    intro n addr got h _
    exact (Except.ok.inj h).symm
  have hports : movedAndForwarded.Ported := by
    refine ⟨?_, ?_⟩
    · rintro _ ⟨⟩
      decide
    · decide
  obtain ⟨again, hagain, hunmoved⟩ :=
    commit_again willing willing hos fresh _ movedAndForwarded hports 0 5 rfl
  exact ⟨_, again, rfl, hagain, hunmoved⟩

end DaemonState

end Nhop.Daemon
