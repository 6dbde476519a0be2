import Nhop.Daemon.Load

/-!
Commands the state task turns away.

Every command validates before it applies: a rule, a list of upstreams and a
forward are read first, and a front end is moved only when each of its addresses
is granted. A command answered with a failure therefore leaves everything that
serves as it was; what is left of it is the count of the addresses asked for,
and, of a command that belongs to a run, the mark on what the run has built.
-/

namespace Nhop.Daemon

open Foundation Ipc Rules Proxy Upstream

namespace DaemonState

/-- Nothing but the number of times an address was asked for is different. -/
def Spared (before after : DaemonState) : Prop := after = { before with calls := after.calls }

theorem Spared.refl (state : DaemonState) : Spared state state := rfl

theorem Spared.serving {before after : DaemonState} (h : Spared before after) :
    after.serving = before.serving ∧ after.cells = before.cells := by
  rw [h]
  exact ⟨rfl, rfl⟩

section spared

variable {os : Os} {moment : Moment} {state after : DaemonState} {carried : Option LoadId}
variable {response : Response}

theorem rebind_spared {listen : Listen} {failure : OsError}
    (h : state.rebind os listen = (.error failure, after)) : Spared state after := by
  cases hfrontends : state.frontends with
  | unbound =>
      rw [rebind_unbound hfrontends] at h
      cases h
  | bound bound =>
      cases hgranted : os.grants state.calls (bound.toOpen listen) with
      | true =>
          obtain ⟨moved, hmoved, _⟩ := rebind_granted hfrontends hgranted
          rw [hmoved] at h
          cases h
      | false =>
          obtain ⟨failure', calls', hrefused, _⟩ := rebind_refused hfrontends hgranted
          rw [hrefused] at h
          cases h
          rfl

/-- A replacement of the forwards that fails replaces none, however many of them
were opened before the one that was not. -/
theorem rebindForwards_spared {forwards : Forwards} {failure : OsError}
    (h : state.rebindForwards os forwards = (.error failure, after)) : Spared state after := by
  cases hfrontends : state.frontends with
  | unbound =>
      rw [rebindForwards_unbound hfrontends] at h
      cases h
  | bound bound =>
      cases hgranted : os.grants state.calls (bound.toForward forwards) with
      | true =>
          obtain ⟨fresh, hfresh, _⟩ := rebindForwards_granted hfrontends hgranted
          rw [hfresh] at h
          cases h
      | false =>
          obtain ⟨failure', calls', hrefused, _⟩ := rebindForwards_refused hfrontends hgranted
          rw [hrefused] at h
          cases h
          rfl

theorem applied_spared {live : Response × DaemonState} {apply : Staging → Response × Staging}
    (hidle : state.load = none) (hlive : live.1.isErr = true → Spared state live.2) :
    (match state.target carried with
      | .refused refusal => (refusal, state)
      | .staged => state.staged apply
      | .live => live).1.isErr = true →
    Spared state (match state.target carried with
      | .refused refusal => (refusal, state)
      | .staged => state.staged apply
      | .live => live).2 := by
  rcases target_idle hidle carried with h | ⟨message, h⟩ <;> rw [h]
  · exact hlive
  · intro _
    exact Spared.refl state

theorem setListen_spared {listen : Listen} (hidle : state.load = none) :
    (state.setListen os listen carried).1.isErr = true →
      Spared state (state.setListen os listen carried).2 := by
  apply applied_spared hidle
  cases hmoved : state.rebind os listen with
  | mk result moved =>
      cases result with
      | ok _ => simp [Response.isErr]
      | error failure =>
          intro _
          exact rebind_spared hmoved

theorem addForward_spared {forward : Forward} (hidle : state.load = none) :
    (state.addForward os forward carried).1.isErr = true →
      Spared state (state.addForward os forward carried).2 := by
  apply applied_spared hidle
  cases state.forwards.push forward with
  | error failure =>
      intro _
      exact Spared.refl state
  | ok forwards =>
      simp only
      cases hforwarded : state.rebindForwards os forwards with
      | mk result forwarded =>
          cases result with
          | ok _ => simp [Response.isErr]
          | error failure =>
              intro _
              exact rebindForwards_spared hforwarded

theorem clearRules_spared (hidle : state.load = none) :
    (state.clearRules carried).1.isErr = true →
      Spared state (state.clearRules carried).2 := by
  apply applied_spared hidle
  simp [Response.isErr]

theorem turnOff_spared (hidle : state.load = none) :
    state.turnOff.1.isErr = true → Spared state state.turnOff.2 := by
  have hnone : state.inFlight = none := by rw [inFlight, hidle, Option.map_none]
  simp [turnOff, hnone, Response.isErr]

theorem reload_answered {path : Option String} {reply : ℕ}
    (h : state.reload moment path reply = (some response, after)) : after = state := by
  cases hload : state.load with
  | some load =>
      simp only [reload, inFlight, hload, Option.map_some] at h
      cases h
      rfl
  | none =>
      rcases reload_idle hload moment reply path with ⟨_, hsame⟩ | ⟨_, hstarts⟩
      · rw [hsame] at h
        cases h
        rfl
      · rw [hstarts] at h
        cases h

variable [External]

theorem addRule_spared {ruleClass : RuleClass} {kind : RuleKind} {value : RuleValue}
    (hidle : state.load = none) :
    (state.addRule ruleClass kind value carried).1.isErr = true →
      Spared state (state.addRule ruleClass kind value carried).2 := by
  apply applied_spared hidle
  cases state.rules.push ruleClass kind value with
  | ok pushed => simp [Response.isErr]
  | error failure =>
      intro _
      exact Spared.refl state

theorem setUpstream_spared {addr : UpstreamAddr} {fallbacks : List UpstreamAddr}
    (hidle : state.load = none) :
    (state.setUpstream moment addr fallbacks carried).1.isErr = true →
      Spared state (state.setUpstream moment addr fallbacks carried).2 := by
  apply applied_spared hidle
  cases Upstreams.parse addr fallbacks with
  | ok upstreams => simp [Response.isErr]
  | error failure =>
      intro _
      exact Spared.refl state

/-- With no run in flight, a command answered with a failure spares the state. -/
theorem handle_spared {command : Command} {reply : ℕ} (hidle : state.load = none)
    (h : state.handle os moment command reply = (some response, after))
    (hrefused : response.isErr = true) : Spared state after := by
  have hanswered : ∀ result : Response × DaemonState,
      (result.1.isErr = true → Spared state result.2) →
      answered result = (some response, after) → Spared state after := by
    rintro ⟨given, left⟩ hspared hsame
    obtain ⟨rfl, rfl⟩ : given = response ∧ left = after := by simpa [answered] using hsame
    exact hspared hrefused
  cases command with
  | addRule => exact hanswered _ (addRule_spared hidle) h
  | clearRules => exact hanswered _ (clearRules_spared hidle) h
  | setUpstream => exact hanswered _ (setUpstream_spared hidle) h
  | setUpstreams => exact hanswered _ (setUpstream_spared hidle) h
  | setListen => exact hanswered _ (setListen_spared hidle) h
  | addForward => exact hanswered _ (addForward_spared hidle) h
  | off => exact hanswered _ (turnOff_spared hidle) h
  | reload path =>
      rw [reload_answered h]
      exact Spared.refl state
  | on =>
      have hreload : state.reload moment none reply = (some response, after) := h
      rw [reload_answered hreload]
      exact Spared.refl state
  | _ =>
      obtain ⟨-, rfl⟩ := Prod.mk.inj h
      exact Spared.refl state

/-- **A command that is refused changes nothing that serves**, whatever is asked
of the operating system on its behalf and whether or not a run is in flight; and
a request for a run that is answered at once changes nothing at all. -/
theorem refusal_changes_nothing (os : Os) (moment : Moment) (state : DaemonState)
    (command : Command) (reply : ℕ) (response : Response) (after : DaemonState)
    (h : state.handle os moment command reply = (some response, after)) :
    (response.isErr = true → after.serving = state.serving ∧ after.cells = state.cells) ∧
      (command = .on ∨ (∃ path, command = .reload path) → after = state) := by
  refine ⟨?_, ?_⟩
  · intro hrefused
    cases hload : state.load with
    | none => exact (handle_spared hload h hrefused).serving
    | some load =>
        -- while a run is in flight a command reaches only what the run has built
        obtain ⟨staged, hstaged⟩ := handle_inFlight os moment command reply hload
        rw [h] at hstaged
        simp only at hstaged
        rw [hstaged]
        exact ⟨rfl, rfl⟩
  · rintro (rfl | ⟨path, rfl⟩)
    · have hreload : state.reload moment none reply = (some response, after) := h
      exact reload_answered hreload
    · exact reload_answered h

end spared

/-- A forward on an address that is taken leaves the daemon as it was. -/
theorem refusal_changes_nothing_takenAddress :
    (@handle External.ascii (refusedAt 2) anyMoment fresh
        (.addForward (.v4 0x7f000001#32 9000) ⟨"a"⟩ 80 none) 0).1 =
      some (unopenable ⟨"address in use"⟩) ∧
    (@handle External.ascii (refusedAt 2) anyMoment fresh
        (.addForward (.v4 0x7f000001#32 9000) ⟨"a"⟩ 80 none) 0).2.serving = fresh.serving := by
  have hrefused : (@handle External.ascii (refusedAt 2) anyMoment fresh
      (.addForward (.v4 0x7f000001#32 9000) ⟨"a"⟩ 80 none) 0) =
    (some (unopenable ⟨"address in use"⟩), { fresh with calls := 3 }) := rfl
  rw [hrefused]
  exact ⟨rfl, ((@refusal_changes_nothing External.ascii _ _ _ _ _ _ _ hrefused).1 rfl).1⟩

end DaemonState

end Nhop.Daemon
