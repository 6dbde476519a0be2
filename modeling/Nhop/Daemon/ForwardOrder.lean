import Nhop.Foundation.Reorder
import Nhop.Daemon.Reconcile
import Nhop.Daemon.Atomicity
import Nhop.Daemon.Refusal

/-!
The order forwards are reported in.

A daemon without listeners records the forwards it is given as they were declared.
One with listeners rebuilds the list from those it keeps, in the order it holds
them, and those it opens, so that the order of a declaration survives exactly when
the addresses held already are declared before the others and in the order held.
A forward added while no run is in flight always is; a run may declare any order.
-/

namespace Nhop.Daemon

open Foundation Ipc Rules Proxy Upstream

/-! ### One replacement -/

namespace Bound

/-- The wanted forwards are declared in the order their listeners would be held. -/
def InOrder (bound : Bound) (wanted : Forwards) : Prop :=
  KeepsOrder bound.addrs (wanted.forwards.map Forward.listen)

section lemmas

variable {os : Os} {calls calls' : ℕ} {bound after : Bound} {wanted returned : Forwards}
  {fresh : List Forwarding}

/-- Pushing forwards at addresses of their own adds them all, in order. -/
theorem forwards_pushEach {forwardings : List Forwarding} {start : Forwards}
    (h : ((start.forwards ++ forwardings.map Forwarding.forward).map Forward.listen).Nodup) :
    (forwardings.foldl (fun forwards forwarding =>
        match forwards.push forwarding.forward with
        | .ok forwards => forwards
        | .error _ => forwards) start).forwards =
      start.forwards ++ forwardings.map Forwarding.forward := by
  induction forwardings generalizing start with
  | nil => simp
  | cons forwarding rest ih =>
      rw [List.foldl_cons]
      cases hpush : start.push forwarding.forward with
      | error failure =>
          have hheld := (Forwards.push_eq_error.mp hpush).1
          rw [List.map_append, List.nodup_append] at h
          exact absurd rfl (h.2.2 _ hheld _ (by simp))
      | ok pushed =>
          have hsame : pushed.forwards ++ rest.map Forwarding.forward =
              start.forwards ++ (forwarding :: rest).map Forwarding.forward := by
            rw [(Forwards.push_eq_ok.mp hpush).2, List.map_cons, List.append_assoc,
              List.singleton_append]
          rw [← hsame] at h ⊢
          exact ih h

theorem forwards_forwardsHeld (h : bound.Distinct) :
    bound.forwardsHeld.forwards = bound.forwards.map Forwarding.forward := by
  have hnodup : ((Forwards.empty.forwards ++ bound.forwards.map Forwarding.forward).map
      Forward.listen).Nodup := by
    rw [Forwards.forwards_empty, List.nil_append, ← addrs_eq]
    exact h
  have hall : bound.forwardsHeld.forwards =
      Forwards.empty.forwards ++ bound.forwards.map Forwarding.forward := forwards_pushEach hnodup
  rw [hall, Forwards.forwards_empty, List.nil_append]

theorem eq_of_listen {forwards : List Forward} (hmem : ∀ forward ∈ forwards,
    forward ∈ wanted.forwards)
    (h : forwards.map Forward.listen = wanted.forwards.map Forward.listen) :
    forwards = wanted.forwards := by
  have hlength : forwards.length = wanted.forwards.length := by
    simpa using congrArg List.length h
  apply List.ext_getElem hlength
  intro i hi hi'
  apply List.inj_on_of_nodup_map wanted.distinct (hmem _ (List.getElem_mem hi))
    (List.getElem_mem hi')
  have hget : (forwards.map Forward.listen)[i]? = (wanted.forwards.map Forward.listen)[i]? := by
    rw [h]
  simpa [hi, hi'] using hget

/-- **The order a replacement leaves** is the wanted one exactly when what is held
already comes first, in the order held. -/
theorem forwardsHeld_eq_iff (hos : os.Honest) (hdistinct : bound.Distinct)
    (hports : ∀ forward ∈ bound.missing wanted.forwards, forward.listen.port ≠ 0)
    (hopens : Opens os calls (bound.missing wanted.forwards) fresh) :
    { bound with forwards := bound.retained wanted ++ fresh }.forwardsHeld = wanted ↔
      bound.InOrder wanted := by
  let after : Bound := { bound with forwards := bound.retained wanted ++ fresh }
  have hfresh : fresh.map Forwarding.forward = bound.missing wanted.forwards :=
    hos.opened hopens hports
  have hheld : after.forwardsHeld.forwards = after.forwards.map Forwarding.forward :=
    forwards_forwardsHeld (reconciled hos hdistinct hports hopens).distinct
  have hmem : ∀ forward ∈ after.forwardsHeld.forwards, forward ∈ wanted.forwards := by
    intro forward hforward
    rw [hheld, List.map_append, List.mem_append, mem_retained, hfresh, mem_missing] at hforward
    rcases hforward with h | h
    · exact h.1
    · exact h.1
  have hlisten : after.forwardsHeld.forwards.map Forward.listen =
      heldFirst bound.addrs (wanted.forwards.map Forward.listen) := by
    have hretained : ((bound.retained wanted).map Forwarding.forward).map Forward.listen =
        bound.addrs.filter fun addr => (wanted.targetOf addr).isSome := by
      rw [List.map_map]
      exact addrs_retained
    rw [hheld, List.map_append, List.map_append, hretained, hfresh, heldFirst]
    congr 1
    · apply List.filter_congr
      intro addr _
      rw [Bool.eq_iff_iff, Forwards.targetOf_isSome, decide_eq_true_eq]
    · rw [missing, List.filter_map]
      congr 1
      apply List.filter_congr
      intro forward _
      rw [Bool.eq_iff_iff, Bool.not_eq_true', ← Bool.not_eq_true, held_iff_mem]
      simp
  show after.forwardsHeld = wanted ↔ bound.InOrder wanted
  rw [InOrder, ← heldFirst_eq_iff hdistinct wanted.distinct, ← hlisten]
  constructor
  · intro hsame
    rw [hsame]
  · intro hsame
    exact Forwards.ext (eq_of_listen hmem hsame)

/-- **A replacement that succeeds returns what was wanted**, as a daemon without
listeners does, exactly when it is declared in the order held. -/
theorem rebindForwards_eq_iff (hos : os.Honest) (hdistinct : bound.Distinct)
    (hports : ∀ forward ∈ wanted.forwards, forward.listen.port ≠ 0)
    (h : bound.rebindForwards os calls wanted = (.ok returned, after, calls')) :
    returned = wanted ↔ bound.InOrder wanted := by
  cases hgranted : os.grants calls (bound.toForward wanted) with
  | false =>
      obtain ⟨failure, calls'', hrefused, _⟩ := rebindForwards_refused hgranted
      rw [hrefused] at h
      cases h
  | true =>
      obtain ⟨fresh, hfresh, hopens⟩ := rebindForwards_granted hgranted
      rw [hfresh] at h
      cases h
      exact forwardsHeld_eq_iff hos hdistinct
        (fun forward hmem => hports forward (mem_missing.mp hmem).1) hopens

theorem inOrder_push (hdistinct : bound.Distinct) {forward : Forward}
    (h : bound.forwardsHeld.push forward = .ok wanted) : bound.InOrder wanted := by
  obtain ⟨hnew, hwanted⟩ := Forwards.push_eq_ok.mp h
  have hheld : bound.forwardsHeld.forwards.map Forward.listen = bound.addrs := by
    rw [forwards_forwardsHeld hdistinct, ← addrs_eq]
  rw [InOrder, hwanted, List.map_append, hheld]
  rw [hheld] at hnew
  exact keepsOrder_append_singleton hdistinct hnew

end lemmas

end Bound

/-- The wanted forwards are declared in the order their listeners would be held, which
is any order while there are none. -/
def Frontends.InOrder (frontends : Frontends) (wanted : Forwards) : Prop :=
  KeepsOrder frontends.forwarding (wanted.forwards.map Forward.listen)

/-! ### What one command does to the forwards -/

namespace DaemonState

/-- The forwards recorded and the addresses that listen for them are the same. -/
def SameForwards (before after : DaemonState) : Prop :=
  after.forwards = before.forwards ∧ after.frontends.forwarding = before.frontends.forwarding

theorem SameForwards.refl (state : DaemonState) : SameForwards state state := ⟨rfl, rfl⟩

section commands

variable {os : Os} {moment : Moment} {state after : DaemonState} {carried : Option LoadId}
variable {wanted : Forwards}

theorem Spared.sameForwards (h : Spared state after) : SameForwards state after := by
  rw [h]
  exact SameForwards.refl state

theorem Moved.sameForwards {listen : Option Listen} (h : Moved os listen state after) :
    SameForwards state after := by
  refine ⟨?_, h.forwarding⟩
  rw [h.frame]

theorem rebind_sameForwards {listen : Listen} :
    SameForwards state (state.rebind os listen).2 := by
  show SameForwards state (state.move os (some listen)).2
  cases hgranted : os.grants state.calls (state.frontends.toMove (some listen)) with
  | true =>
      obtain ⟨moved, hmove, hmoved⟩ := move_granted hgranted
      rw [hmove]
      exact hmoved.sameForwards
  | false =>
      obtain ⟨failure, calls', hmove, _⟩ := move_refused hgranted
      rw [hmove]
      exact SameForwards.refl state

theorem applied_sameForwards {live : Response × DaemonState}
    {apply : Staging → Response × Staging} (hidle : state.load = none)
    (hlive : SameForwards state live.2) :
    SameForwards state (match state.target carried with
      | .refused refusal => (refusal, state)
      | .staged => state.staged apply
      | .live => live).2 := by
  rcases target_idle hidle carried with h | ⟨message, h⟩ <;> rw [h]
  · exact hlive
  · exact SameForwards.refl state

theorem setListen_sameForwards {listen : Listen} (hidle : state.load = none) :
    SameForwards state (state.setListen os listen carried).2 := by
  apply applied_sameForwards hidle
  have hsame : SameForwards state (state.rebind os listen).2 := rebind_sameForwards
  cases hmoved : state.rebind os listen with
  | mk result moved =>
      rw [hmoved] at hsame
      cases result with
      | ok _ => exact hsame
      | error failure => exact hsame

theorem turnOff_sameForwards : SameForwards state state.turnOff.2 := by
  unfold turnOff
  cases state.inFlight <;> exact SameForwards.refl state

theorem reload_sameForwards {path : Option String} {reply : ℕ} :
    SameForwards state (state.reload moment path reply).2 := by
  unfold reload
  cases state.inFlight with
  | some id => exact SameForwards.refl state
  | none =>
      simp only
      split_ifs <;> exact SameForwards.refl state

/-- A forward that is added while no run is in flight is declared behind those there
are. -/
theorem addForward_accepted {forward : Forward} {response : Response} (hidle : state.load = none)
    (h : state.addForward os forward carried = (response, after))
    (haccepted : response.isErr = false) :
    response = .ok ∧
      ∃ wanted, state.forwards.push forward = .ok wanted ∧ Forwarded os wanted state after := by
  unfold addForward at h
  rcases target_idle hidle carried with htarget | ⟨message, htarget⟩ <;> rw [htarget] at h
  · cases hpush : state.forwards.push forward with
    | error failure =>
        rw [hpush] at h
        cases h
        cases haccepted
    | ok wanted =>
        rw [hpush] at h
        simp only at h
        cases hgranted : os.grants state.calls (state.frontends.toForward wanted) with
        | true =>
            obtain ⟨forwarded, hrebind, hforwarded⟩ := forward_granted hgranted
            rw [hrebind] at h
            cases h
            exact ⟨rfl, wanted, rfl, hforwarded⟩
        | false =>
            obtain ⟨failure, calls', hrebind, _⟩ := forward_refused hgranted
            rw [hrebind] at h
            cases h
            cases haccepted
  · cases h
    cases haccepted

variable [External]

theorem addRule_sameForwards {ruleClass : RuleClass} {kind : RuleKind} {value : RuleValue}
    (hidle : state.load = none) :
    SameForwards state (state.addRule ruleClass kind value carried).2 := by
  apply applied_sameForwards hidle
  cases state.rules.push ruleClass kind value <;> exact SameForwards.refl state

theorem setUpstream_sameForwards {addr : UpstreamAddr} {fallbacks : List UpstreamAddr}
    (hidle : state.load = none) :
    SameForwards state (state.setUpstream moment addr fallbacks carried).2 := by
  apply applied_sameForwards hidle
  cases Upstreams.parse addr fallbacks <;> exact SameForwards.refl state

theorem handle_sameForwards {command : Command} {reply : ℕ} (hidle : state.load = none)
    (hcommand : Ledger.forwardOf command = none) :
    SameForwards state (state.handle os moment command reply).2 := by
  cases command with
  | addForward => simp [Ledger.forwardOf] at hcommand
  | addRule => exact addRule_sameForwards hidle
  | clearRules => exact applied_sameForwards hidle (SameForwards.refl state)
  | setUpstream => exact setUpstream_sameForwards hidle
  | setUpstreams => exact setUpstream_sameForwards hidle
  | setListen => exact setListen_sameForwards hidle
  | reload path => exact reload_sameForwards
  | on => exact reload_sameForwards
  | off => exact turnOff_sameForwards
  | _ => exact SameForwards.refl state

end commands

section forwarded

variable {os : Os} {state after : DaemonState} {wanted : Forwards}

theorem Forwarded.nodup (h : Forwarded os wanted state after) (hos : os.Honest)
    (hnodup : state.frontends.forwarding.Nodup)
    (hports : ∀ bound, state.frontends = .bound bound →
      ∀ forward ∈ bound.missing wanted.forwards, forward.listen.port ≠ 0) :
        after.frontends.forwarding.Nodup := by
  cases hfrontends : state.frontends with
  | unbound =>
      rw [(h.unbound hfrontends).1]
      exact List.nodup_nil
  | bound bound =>
      rw [hfrontends] at hnodup
      obtain ⟨fresh, hafter, _, hopens⟩ := h.bound bound hfrontends
      rw [hafter]
      exact (Bound.reconciled hos hnodup (hports bound hfrontends) hopens).distinct

theorem Forwarded.forwards_eq_iff (h : Forwarded os wanted state after) (hos : os.Honest)
    (hnodup : state.frontends.forwarding.Nodup)
    (hports : ∀ bound, state.frontends = .bound bound →
      ∀ forward ∈ bound.missing wanted.forwards, forward.listen.port ≠ 0) :
    after.forwards = wanted ↔ state.frontends.InOrder wanted := by
  cases hfrontends : state.frontends with
  | unbound =>
      rw [(h.unbound hfrontends).2]
      have hany : Frontends.unbound.InOrder wanted :=
        List.pairwise_of_forall fun _ _ hheld => absurd hheld List.not_mem_nil
      simp only [hany]
  | bound bound =>
      rw [hfrontends] at hnodup
      obtain ⟨fresh, _, hforwards, hopens⟩ := h.bound bound hfrontends
      rw [hforwards]
      exact Bound.forwardsHeld_eq_iff hos hnodup (hports bound hfrontends) hopens

end forwarded

theorem Consistent.listen_forwards {state : DaemonState} {bound : Bound} (h : state.Consistent)
    (hbound : state.frontends = .bound bound) (hnodup : state.frontends.forwarding.Nodup) :
    state.forwards.forwards.map Forward.listen = state.frontends.forwarding := by
  rw [hbound] at hnodup ⊢
  rw [h.forwards bound hbound, Bound.forwards_forwardsHeld hnodup, ← Bound.addrs_eq]
  rfl

/-- **A forward that is added is declared in order.** -/
theorem Consistent.inOrder_push {state : DaemonState} {wanted : Forwards} {forward : Forward}
    (h : state.Consistent) (hnodup : state.frontends.forwarding.Nodup)
    (hpush : state.forwards.push forward = .ok wanted) : state.frontends.InOrder wanted := by
  obtain ⟨hnew, hwanted⟩ := Forwards.push_eq_ok.mp hpush
  cases hfrontends : state.frontends with
  | unbound => exact List.pairwise_of_forall fun _ _ hheld => absurd hheld List.not_mem_nil
  | bound bound =>
      have hheld := h.listen_forwards hfrontends hnodup
      rw [hheld] at hnew
      rw [← hfrontends, Frontends.InOrder, hwanted, List.map_append, hheld]
      exact keepsOrder_append_singleton hnodup hnew

theorem Consistent.missing_push {state : DaemonState} {bound : Bound} {wanted : Forwards}
    {forward added : Forward} (h : state.Consistent) (hbound : state.frontends = .bound bound)
    (hnodup : state.frontends.forwarding.Nodup) (hpush : state.forwards.push added = .ok wanted)
    (hmem : forward ∈ bound.missing wanted.forwards) : forward = added := by
  obtain ⟨hwanted, hnew⟩ := Bound.mem_missing.mp hmem
  rw [(Forwards.push_eq_ok.mp hpush).2, List.mem_append, List.mem_singleton] at hwanted
  rcases hwanted with hheld | rfl
  · have hlisten := h.listen_forwards hbound hnodup
    rw [hbound] at hlisten
    have hin : forward.listen ∈ bound.addrs := by
      show forward.listen ∈ (Frontends.bound bound).forwarding
      rw [← hlisten]
      exact List.mem_map_of_mem hheld
    exact absurd hin hnew
  · rfl

/-- A commit that does not go through leaves the forwards alone. -/
theorem commit_sameForwards {os : Os} {state : DaemonState} {staged : Staging} {now : ℤ}
    (h : os.grants state.calls (state.frontends.toBind staged) = false) :
    (state.commit os now staged).1 ≠ .ok () ∧
      SameForwards state (state.commit os now staged).2 := by
  refine ⟨?_, ?_⟩
  · intro hcommitted
    have hgranted : os.grants state.calls (state.frontends.toBind staged) = true :=
      grants_of_commit (Prod.ext hcommitted rfl)
    rw [h] at hgranted
    cases hgranted
  · rw [Frontends.toBind, Os.grants_append, Bool.and_eq_false_iff] at h
    cases hmove : os.grants state.calls (state.frontends.toMove staged.listen) with
    | false =>
        obtain ⟨failure, calls', hrefused, _⟩ := commit_refused_move now hmove
        rw [hrefused]
        exact SameForwards.refl state
    | true =>
        have hforward := h.resolve_left (by simp [hmove])
        obtain ⟨moved, failure, calls', hmoved, _, hrefused⟩ :=
          commit_refused_forward now hmove hforward
        rw [hrefused]
        exact hmoved.sameForwards

/-- A commit that goes through leaves every forward address with one listener, and
records what the run declared exactly when that is declared in order. -/
theorem commit_forwards {os : Os} {state : DaemonState} {staged : Staging} (now : ℤ)
    (hos : os.Honest) (hnodup : state.frontends.forwarding.Nodup)
    (hports : ∀ forward ∈ staged.forwards.forwards, forward.listen.port ≠ 0)
    (h : os.grants state.calls (state.frontends.toBind staged) = true) :
    (state.commit os now staged).1 = .ok () ∧
      (state.commit os now staged).2.frontends.forwarding.Nodup ∧
      ((state.commit os now staged).2.forwards = staged.forwards ↔
        state.frontends.InOrder staged.forwards) := by
  obtain ⟨moved, forwarded, hmoved, hforwarded, hcommit⟩ := commit_granted now h
  obtain ⟨hfrontends, _, hforwards, _⟩ := @publish_frame forwarded now staged.rules staged.upstream
  have hheld : moved.frontends.forwarding = state.frontends.forwarding := hmoved.forwarding
  have hmissing : ∀ bound, moved.frontends = .bound bound →
      ∀ forward ∈ bound.missing staged.forwards.forwards, forward.listen.port ≠ 0 :=
    fun bound _ forward hmem => hports forward (Bound.mem_missing.mp hmem).1
  rw [← hheld] at hnodup
  rw [hcommit]
  refine ⟨rfl, ?_, ?_⟩
  · rw [hfrontends]
    exact hforwarded.nodup hos hnodup hmissing
  · rw [hforwards, Frontends.InOrder, ← hheld]
    exact hforwarded.forwards_eq_iff hos hnodup hmissing

end DaemonState

/-! ### What is declared -/

/-- The state task beside what was declared to it: the forwards of the run in flight,
and those of the run committed last with the ones added since. -/
structure Reporting where
  state : DaemonState
  running : List Forward
  declared : List Forward

namespace Reporting

/-- The forward a command declares that was accepted. -/
def heard (response : Option Response) (command : Command) : List Forward :=
  if response = some .ok then (Ledger.forwardOf command).toList else []

def of (start : DaemonState) : Reporting := ⟨start, [], []⟩

/-- What the state task reports is what was declared to it, in order. -/
structure Reports (r : Reporting) : Prop where
  held : r.state.forwards.forwards = r.declared
  status : ∀ moment, ∃ view, r.state.report moment = .status view ∧
    view.forwards = r.declared.map Forward.view

/-- No command declares a forward at a port for the operating system to choose. -/
def Ported : DaemonState.Event → Prop
  | .request _ command _ => ∀ forward ∈ Ledger.forwardOf command, forward.listen.port ≠ 0
  | .finished _ _ => True

/-- A run that commits declares its forwards in the order they are held. -/
def InOrder (os : Os) (r : Reporting) : DaemonState.Event → Prop
  | .request _ _ _ => True
  | .finished _ outcome => ∀ load, r.state.load = some load → DaemonState.Viable load outcome →
      os.grants r.state.calls (r.state.frontends.toBind load.staged) = true →
      r.state.frontends.InOrder load.staged.forwards

section system

variable [External]

def step (os : Os) (r : Reporting) : DaemonState.Event → Option Reporting
  | .request moment command reply =>
      let result := r.state.handle os moment command reply
      if r.state.load.isSome then
        some { r with state := result.2, running := r.running ++ heard result.1 command }
      else some ⟨result.2, [], r.declared ++ heard result.1 command⟩
  | .finished moment outcome =>
      let after := (r.state.finish os moment outcome).2
      if r.state.load.isSome ∧ after.recorded = some .ok then some ⟨after, [], r.running⟩
      else some ⟨after, [], r.declared⟩

/-- The state task and what was declared to it as a system. -/
def system (os : Os) : System Reporting DaemonState.Event := ⟨step os⟩

end system

/-- The records agree with the listeners, no two of which have an address, and the
run in flight has built what was declared to it. -/
structure Inv (r : Reporting) : Prop where
  consistent : r.state.Consistent
  nodup : r.state.frontends.forwarding.Nodup
  running : ∀ load, r.state.load = some load → load.staged.forwards.forwards = r.running
  ported : ∀ forward ∈ r.running, forward.listen.port ≠ 0

section lemmas

variable {os : Os} {r r' : Reporting} {moment : Moment} {command : Command} {reply : ℕ}
variable {response : Response}

theorem reports_iff : r.Reports ↔ r.state.forwards.forwards = r.declared := by
  refine ⟨Reports.held, fun h => ⟨h, fun moment => ⟨_, rfl, ?_⟩⟩⟩
  rw [← h]
  rfl

theorem heard_of_isErr (h : response.isErr = true) : heard (some response) command = [] := by
  unfold heard
  split
  · next hok =>
      cases hok
      simp [Response.isErr] at h
  · rfl

theorem heard_of_forwardOf (h : Ledger.forwardOf command = none) (response : Option Response) :
    heard response command = [] := by
  unfold heard
  split <;> simp [h]

theorem inv_of {start : DaemonState} (h : DaemonState.Started os start) : (of start).Inv where
  consistent := DaemonState.consistent_of_started h
  nodup := by
    obtain ⟨initFile, listen, loadTimeout, hold, now, rfl | hspawn⟩ := h
    · exact List.nodup_nil
    · unfold DaemonState.spawn at hspawn
      cases hbind : Frontends.bind os listen with
      | mk result calls =>
          cases result with
          | error failure => simp [hbind] at hspawn
          | ok frontends =>
              obtain ⟨http, socks, rfl, rfl⟩ := DaemonState.frontends_of_bind hbind
              simp only [hbind, Except.ok.injEq] at hspawn
              subst hspawn
              exact List.nodup_nil
  running load hload := by
    rw [of, DaemonState.load_of_started h] at hload
    cases hload
  ported := by simp [of]

variable [External]

omit [External] in
theorem forwards_fail (staging : Staging) (failed : FailedCommand) :
    (staging.fail failed).forwards = staging.forwards :=
  (Committed.mk.inj Staging.commit_fail).2.2.2

theorem forwards_setUpstream (staging : Staging) (first : UpstreamAddr)
    (fallbacks : List UpstreamAddr) :
    (replied unreadable (staging.setUpstream first fallbacks)).2.forwards.forwards =
      staging.forwards.forwards := by
  unfold Staging.setUpstream
  cases Upstreams.parse first fallbacks with
  | ok upstreams => rfl
  | error failure => simp [replied, forwards_fail]

/-- A run takes in the forwards it accepts. -/
theorem forwards_take (staging : Staging) (command : Command) :
    (staging.take command).2.forwards.forwards =
      staging.forwards.forwards ++ heard (some (staging.take command).1) command := by
  cases command with
  | addForward listen host port carried =>
      simp only [Staging.take, Staging.pushForward]
      cases hpush : staging.forwards.push ⟨listen, ⟨host, port⟩⟩ with
      | ok pushed => simp [replied, heard, Ledger.forwardOf, (Forwards.push_eq_ok.mp hpush).2]
      | error failure =>
          simp [replied, heard, duplicate, forwards_fail]
  | addRule ruleClass kind value carried =>
      rw [heard_of_forwardOf rfl, List.append_nil]
      simp only [Staging.take, Staging.pushRule]
      cases staging.rules.push ruleClass kind value with
      | ok pushed => rfl
      | error failure => simp [replied, forwards_fail]
  | setUpstream addr carried =>
      rw [heard_of_forwardOf rfl, List.append_nil, Staging.take]
      exact forwards_setUpstream staging addr []
  | setUpstreams addr fallbacks carried =>
      rw [heard_of_forwardOf rfl, List.append_nil, Staging.take]
      exact forwards_setUpstream staging addr fallbacks
  | _ => rw [heard_of_forwardOf rfl, List.append_nil, Staging.take] <;> rfl

omit [External] in
theorem Inv.same (h : r.Inv) {after : DaemonState} (hconsistent : after.Consistent)
    (hsame : DaemonState.SameForwards r.state after) (hload : after.load = none) :
    Inv ⟨after, [], r.declared⟩ ∧ (r.Reports → Reports ⟨after, [], r.declared⟩) := by
  refine ⟨⟨hconsistent, ?_, ?_, by simp⟩, ?_⟩
  · rw [hsame.2]
    exact h.nodup
  · intro load hsome
    rw [hload] at hsome
    cases hsome
  · intro hreports
    rw [reports_iff, hsame.1]
    exact hreports.held

omit [External] in
/-- A forward added while no run is in flight is reported behind the others. -/
theorem Inv.added (h : r.Inv) (hos : os.Honest) {after : DaemonState} {forward : Forward}
    {wanted : Forwards} (hconsistent : after.Consistent) (hload : after.load = none)
    (hport : forward.listen.port ≠ 0) (hpush : r.state.forwards.push forward = .ok wanted)
    (hforwarded : DaemonState.Forwarded os wanted r.state after) {command : Command}
    (hcommand : heard (some .ok) command = [forward]) :
    Inv ⟨after, [], r.declared ++ heard (some .ok) command⟩ ∧
      (r.Reports → Reports ⟨after, [], r.declared ++ heard (some .ok) command⟩) := by
  have hports : ∀ bound, r.state.frontends = .bound bound →
      ∀ forward ∈ bound.missing wanted.forwards, forward.listen.port ≠ 0 := by
    intro bound hbound added hmem
    rw [h.consistent.missing_push hbound h.nodup hpush hmem]
    exact hport
  refine ⟨⟨hconsistent, hforwarded.nodup hos h.nodup hports, ?_, by simp⟩, ?_⟩
  · intro load hsome
    rw [hload] at hsome
    cases hsome
  · intro hreports
    have hkept : after.forwards = wanted :=
      (hforwarded.forwards_eq_iff hos h.nodup hports).mpr
        (h.consistent.inOrder_push h.nodup hpush)
    rw [reports_iff, hkept, (Forwards.push_eq_ok.mp hpush).2, hreports.held, hcommand]

/-- A request taken while a run is in flight. -/
theorem Inv.request_inFlight (h : r.Inv) (hload : r.state.load.isSome)
    (hported : ∀ forward ∈ Ledger.forwardOf command, forward.listen.port ≠ 0)
    (hstep : step os r (.request moment command reply) = some r') :
    r'.Inv ∧ (r.Reports → r'.Reports) := by
  have hconsistent : (r.state.handle os moment command reply).2.Consistent := h.consistent.handle
  simp only [step, hload, if_true, Option.some.injEq] at hstep
  subst hstep
  obtain ⟨load, hload⟩ := Option.isSome_iff_exists.mp hload
  by_cases hid : command.load? = some (some load.id)
  · have hhandle := @DaemonState.handle_staged _ os moment _ _ reply _ hload hid
    rw [hhandle] at hconsistent ⊢
    refine ⟨⟨hconsistent, h.nodup, ?_, ?_⟩, ?_⟩
    · rintro _ ⟨⟩
      rw [forwards_take, h.running load hload]
    · intro forward hforward
      rcases List.mem_append.mp hforward with hold | hnew
      · exact h.ported forward hold
      · unfold heard at hnew
        split at hnew
        · exact hported forward (by simpa using hnew)
        · cases hnew
    · intro hreports
      exact reports_iff.mpr hreports.held
  · obtain ⟨response, hhandle, hrefused⟩ :=
      DaemonState.handle_elsewhere os moment reply hload hid
    have hnothing : heard (some response) command = [] := by
      cases hforward : Ledger.forwardOf command with
      | none => exact heard_of_forwardOf hforward _
      | some forward =>
          apply heard_of_isErr
          apply hrefused
          cases command <;> simp [Ledger.forwardOf] at hforward
          simp [Command.load?]
    rw [hhandle]
    simp only [hnothing, List.append_nil]
    exact ⟨h, id⟩

/-- A request taken while none is. -/
theorem Inv.request_idle (h : r.Inv) (hos : os.Honest) (hidle : r.state.load = none)
    (hported : ∀ forward ∈ Ledger.forwardOf command, forward.listen.port ≠ 0)
    (hstep : step os r (.request moment command reply) = some r') :
    r'.Inv ∧ (r.Reports → r'.Reports) := by
  have hconsistent : (r.state.handle os moment command reply).2.Consistent := h.consistent.handle
  simp only [step, hidle, Option.isSome_none, Bool.false_eq_true, if_false,
    Option.some.injEq] at hstep
  subst hstep
  rcases DaemonState.handle_idle os moment command reply hidle with
    ⟨response, after, hhandle, hanswered⟩ | ⟨script, hbegun⟩
  · have hload : after.load = none := hanswered.frame.1.trans hidle
    cases hrefused : response.isErr with
    | true =>
        have hsame := (DaemonState.handle_spared hidle hhandle hrefused).sameForwards
        rw [hhandle] at hconsistent ⊢
        rw [heard_of_isErr hrefused, List.append_nil]
        exact h.same hconsistent hsame hload
    | false =>
        cases hforward : Ledger.forwardOf command with
        | none =>
            have hsame : DaemonState.SameForwards r.state
                (r.state.handle os moment command reply).2 :=
              DaemonState.handle_sameForwards hidle hforward
            rw [hhandle] at hconsistent hsame ⊢
            rw [heard_of_forwardOf hforward, List.append_nil]
            exact h.same hconsistent hsame hload
        | some forward =>
            cases command <;> simp only [Ledger.forwardOf, reduceCtorEq, Option.some.injEq]
              at hforward
            case addForward listen host port carried =>
              rw [hhandle] at hconsistent
              have hadd : r.state.addForward os ⟨listen, ⟨host, port⟩⟩ carried =
                  (response, after) := by
                have hsame : DaemonState.answered
                    (r.state.addForward os ⟨listen, ⟨host, port⟩⟩ carried) =
                      (some response, after) := hhandle
                simp only [DaemonState.answered, Prod.mk.injEq, Option.some.injEq] at hsame
                exact Prod.ext hsame.1 hsame.2
              obtain ⟨rfl, wanted, hpush, hforwarded⟩ :=
                DaemonState.addForward_accepted hidle hadd hrefused
              rw [hhandle]
              exact h.added hos hconsistent hload (hported _ rfl) hpush hforwarded rfl
  · rw [hbegun] at hconsistent ⊢
    refine ⟨⟨hconsistent, h.nodup, ?_, by simp⟩, ?_⟩
    · rintro _ ⟨⟩
      rfl
    · intro hreports
      have hsilent : heard none command = [] := if_neg (by simp)
      rw [reports_iff, hsilent, List.append_nil]
      exact hreports.held

/-- **The end of a run** keeps the invariant, and what is reported then is what was
declared exactly when a run that commits declares its forwards in order. -/
theorem Inv.finish (h : r.Inv) (hos : os.Honest) {outcome : ScriptOutcome}
    (hstep : step os r (.finished moment outcome) = some r') :
    r'.Inv ∧ (r'.Reports → r.InOrder os (.finished moment outcome)) ∧
      (r.Reports → r.InOrder os (.finished moment outcome) → r'.Reports) := by
  have hconsistent : (r.state.finish os moment outcome).2.Consistent := h.consistent.finish
  have hover : (r.state.finish os moment outcome).2.load = none :=
    (DaemonState.finish_frame os moment).1
  -- an end that commits nothing leaves the forwards alone
  have hkept : DaemonState.SameForwards r.state (r.state.finish os moment outcome).2 →
      (∀ load, r.state.load = some load → DaemonState.Viable load outcome →
        os.grants r.state.calls (r.state.frontends.toBind load.staged) = false) →
      (r.state.load.isSome → (r.state.finish os moment outcome).2.recorded ≠ some .ok) →
      r'.Inv ∧ (r'.Reports → r.InOrder os (.finished moment outcome)) ∧
        (r.Reports → r.InOrder os (.finished moment outcome) → r'.Reports) := by
    intro hsame hrefused hrecorded
    have hdeclared : ¬(r.state.load.isSome ∧
        (r.state.finish os moment outcome).2.recorded = some .ok) :=
      fun hboth => hrecorded hboth.1 hboth.2
    simp only [step, hdeclared, if_false, Option.some.injEq] at hstep
    subst hstep
    obtain ⟨hinv, hreports⟩ := h.same hconsistent hsame hover
    refine ⟨hinv, ?_, fun hbefore _ => hreports hbefore⟩
    intro _ load hload hviable hgranted
    rw [hrefused load hload hviable] at hgranted
    cases hgranted
  cases hload : r.state.load with
  | none =>
      apply hkept
      · rw [DaemonState.finish, hload]
        exact DaemonState.SameForwards.refl r.state
      · simp [hload]
      · simp [hload]
  | some load =>
      by_cases hviable : DaemonState.Viable load outcome
      · obtain ⟨view, hafter, hok⟩ := DaemonState.finish_viable os moment hload hviable
        cases hgranted : os.grants r.state.calls (r.state.frontends.toBind load.staged) with
        | false =>
            obtain ⟨hrefused, hsame⟩ := @DaemonState.commit_sameForwards os
              { r.state with load := none } load.staged moment.now hgranted
            apply hkept
            · rw [hafter]
              exact hsame
            · intro other hother _
              obtain rfl : load = other := Option.some.inj (hload.symm.trans hother)
              exact hgranted
            · intro _ hrecorded
              rw [hafter] at hrecorded
              exact hrefused (hok.mp (Option.some.inj hrecorded))
        | true =>
            have hports : ∀ forward ∈ load.staged.forwards.forwards, forward.listen.port ≠ 0 := by
              rw [h.running load hload]
              exact h.ported
            obtain ⟨hcommitted, hnodup, hforwards⟩ := @DaemonState.commit_forwards os
              { r.state with load := none } load.staged moment.now hos h.nodup hports hgranted
            have hdeclared : r.state.load.isSome ∧
                (r.state.finish os moment outcome).2.recorded = some .ok := by
              refine ⟨by rw [hload]; rfl, ?_⟩
              rw [hafter]
              exact congrArg some (hok.mpr hcommitted)
            simp only [step, hdeclared, and_self, if_true, Option.some.injEq] at hstep
            subst hstep
            have hrunning : (r.state.finish os moment outcome).2.forwards.forwards = r.running ↔
                r.state.frontends.InOrder load.staged.forwards := by
              rw [← h.running load hload, hafter]
              refine Iff.trans ?_ hforwards
              exact ⟨Forwards.ext, congrArg Forwards.forwards⟩
            refine ⟨⟨hconsistent, ?_, ?_, by simp⟩, ?_, ?_⟩
            · rw [hafter]
              exact hnodup
            · intro other hsome
              rw [hover] at hsome
              cases hsome
            · intro hreports other hother _ _
              obtain rfl : load = other := Option.some.inj (hload.symm.trans hother)
              exact hrunning.mp hreports.held
            · intro _ horder
              exact reports_iff.mpr (hrunning.mpr (horder load hload hviable hgranted))
      · obtain ⟨view, hne, hafter⟩ := DaemonState.finish_discarded os moment hload hviable
        apply hkept
        · rw [hafter]
          exact ⟨rfl, rfl⟩
        · intro other hother hmay
          obtain rfl : load = other := Option.some.inj (hload.symm.trans hother)
          exact absurd hmay hviable
        · intro _ hrecorded
          rw [hafter] at hrecorded
          exact hne (Option.some.inj hrecorded)

theorem Inv.step (h : r.Inv) (hos : os.Honest) {event : DaemonState.Event} (hported : Ported event)
    (hstep : (system os).step r event = some r') :
    r'.Inv ∧ (r'.Reports → r.InOrder os event) ∧ (r.Reports → r.InOrder os event → r'.Reports) := by
  cases event with
  | request moment command reply =>
      have hboth : r'.Inv ∧ (r.Reports → r'.Reports) := by
        cases hload : r.state.load with
        | some load => exact h.request_inFlight (by rw [hload]; rfl) hported hstep
        | none => exact h.request_idle hos hload hported hstep
      exact ⟨hboth.1, fun _ => trivial, fun hreports _ => hboth.2 hreports⟩
  | finished moment outcome => exact h.finish hos hstep

theorem inv_of_takes (hos : os.Honest) {start : DaemonState}
    (hstart : DaemonState.Started os start) {events : List DaemonState.Event}
    (hported : ∀ event ∈ events, Ported event) {event : DaemonState.Event}
    (h : (system os).Takes (of start) events r event r') : r.Inv :=
  System.invariant_of_takes (inv_of hstart)
    (fun _ _ _ hinv hevent hstep => (hinv.step hos hevent hstep).1) hported h

/-- Runs that declare their forwards in order are reported as they are declared. -/
theorem reports_of_inOrder (hos : os.Honest) {start : DaemonState}
    (hstart : DaemonState.Started os start) {events : List DaemonState.Event}
    (hported : ∀ event ∈ events, Ported event)
    (horder : ∀ r event r', (system os).Takes (of start) events r event r' → r.InOrder os event)
    {event : DaemonState.Event} (h : (system os).Takes (of start) events r event r') :
    r'.Reports := by
  obtain ⟨before, after, rfl, hrun, hstep⟩ := h
  have hfirst : (of start).Inv ∧ (of start).Reports := by
    refine ⟨inv_of hstart, reports_iff.mpr ?_⟩
    obtain ⟨initFile, listen, loadTimeout, hold, now, rfl | hspawn⟩ := hstart
    · rfl
    · unfold DaemonState.spawn at hspawn
      split at hspawn
      · cases hspawn
      · cases hspawn
        rfl
  have hboth : r'.Inv ∧ r'.Reports := by
    refine System.invariant_along (I := fun r => r.Inv ∧ r.Reports)
      (C := fun r event => Ported event ∧ r.InOrder os event) hfirst ?_
      (System.run_snoc hrun hstep) ?_
    · intro s taken s' hs hevent htaken
      obtain ⟨hinv, _, hreports⟩ := hs.1.step hos hevent.1 htaken
      exact ⟨hinv, hreports hs.2 hevent.2⟩
    · intro s taken s' htakes
      have hin : (system os).Takes (of start) (before ++ event :: after) s taken s' := by
        simpa using htakes.append after
      exact ⟨hported taken hin.mem, horder s taken s' hin⟩
  exact hboth.2

/-- **Forwards are reported in declaration order exactly when every run that commits
declares them in the order they are held**: the addresses held already before the
others, and in the order held. One replacement of the forwards of listeners answers
what it answers without listeners under the same condition. -/
theorem reported_in_order_iff (hos : os.Honest) {start : DaemonState}
    (hstart : DaemonState.Started os start) {events : List DaemonState.Event}
    (hported : ∀ event ∈ events, Ported event) :
    ((∀ r event r', (system os).Takes (of start) events r event r' → r'.Reports) ↔
      ∀ r event r', (system os).Takes (of start) events r event r' → r.InOrder os event) ∧
    ∀ calls (bound : Bound) wanted returned after calls', bound.Distinct →
      (∀ forward ∈ wanted.forwards, forward.listen.port ≠ 0) →
      bound.rebindForwards os calls wanted = (.ok returned, after, calls') →
      ((Frontends.unbound.rebindForwards os calls wanted).1 = .ok returned ↔
        bound.InOrder wanted) := by
  refine ⟨⟨?_, ?_⟩, ?_⟩
  · intro hreports r event r' htakes
    have hinv : r.Inv := inv_of_takes hos hstart hported htakes
    exact (hinv.step hos (hported event htakes.mem) htakes.step).2.1 (hreports r event r' htakes)
  · intro horder r event r' htakes
    exact reports_of_inOrder hos hstart hported horder htakes
  · intro calls bound wanted returned after calls' hdistinct hports hreturned
    rw [← Bound.rebindForwards_eq_iff hos hdistinct hports hreturned]
    show Except.ok wanted = Except.ok returned ↔ returned = wanted
    rw [Except.ok.injEq, eq_comm]

end lemmas

/-! ### Two runs

The second declares the forwards of the first the other way around. -/

/-- A run that declares two forwards, as far as its script has come. -/
def declares (id : LoadId) (first second : Forward) : List DaemonState.Event :=
  [.request DaemonState.anyMoment (.reload none) 0,
    .request DaemonState.anyMoment
      (.addForward first.listen first.target.host first.target.port (some id)) 0,
    .request DaemonState.anyMoment
      (.addForward second.listen second.target.host second.target.port (some id)) 0]

def ends : DaemonState.Event := .finished DaemonState.anyMoment .succeeded

def swapped : List DaemonState.Event :=
  declares ⟨1⟩ (Bound.forwardAt 9000 "a") (Bound.forwardAt 9001 "b") ++ [ends] ++
    declares ⟨2⟩ (Bound.forwardAt 9001 "b") (Bound.forwardAt 9000 "a")

theorem ported_swapped : ∀ event ∈ swapped ++ [ends], Ported event := by
  intro event hmem
  simp only [swapped, declares, ends, List.cons_append, List.nil_append, List.mem_cons,
    List.not_mem_nil, or_false] at hmem
  rcases hmem with rfl | rfl | rfl | rfl | rfl | rfl | rfl | rfl <;>
    simp [Ported, Ledger.forwardOf, Bound.forwardAt, SocketAddr.port]

theorem honest_willing : DaemonState.willing.Honest := by
  rintro n addr got ⟨⟩ _
  rfl

theorem takes_swapped : ∃ r r', (@system External.ascii DaemonState.willing).Takes
    (of DaemonState.fresh) (swapped ++ [ends]) r ends r' ∧ ¬r'.Reports := by
  have hseen : ((@system External.ascii DaemonState.willing).run (of DaemonState.fresh)
      (swapped ++ [ends])).map (fun r => decide (r.state.forwards.forwards = r.declared)) =
        some false := by
    decide +kernel
  obtain ⟨r', hrun, hdiffer⟩ := Option.map_eq_some_iff.mp hseen
  obtain ⟨r, hbefore, hstep⟩ := System.run_snoc_eq_some.mp hrun
  refine ⟨r, r', System.Takes.last hbefore hstep, ?_⟩
  intro hreports
  exact of_decide_eq_false hdiffer hreports.held

theorem reported_in_order_iff_swapped :
    ¬∀ r event r', (@system External.ascii DaemonState.willing).Takes
      (of DaemonState.fresh) (swapped ++ [ends]) r event r' →
        r.InOrder DaemonState.willing event := by
  intro horder
  obtain ⟨r, r', htakes, hnot⟩ := takes_swapped
  exact hnot ((@reported_in_order_iff DaemonState.willing External.ascii honest_willing
    DaemonState.fresh (DaemonState.started_fresh rfl rfl) _ ported_swapped).1.mpr horder
      r ends r' htakes)

theorem not_reported_in_order :
    ¬∀ (_ : External) (os : Os) (start : DaemonState) (events : List DaemonState.Event),
      os.Honest → DaemonState.Started os start → (∀ event ∈ events, Ported event) →
      ∀ r event r', (system os).Takes (of start) events r event r' → r'.Reports := by
  intro hall
  obtain ⟨r, r', htakes, hnot⟩ := takes_swapped
  exact hnot (hall External.ascii DaemonState.willing DaemonState.fresh _ honest_willing
    (DaemonState.started_fresh rfl rfl) ported_swapped r ends r' htakes)

end Reporting

end Nhop.Daemon
