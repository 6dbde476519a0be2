import Nhop.Daemon.Load

/-!
The end of a run: what its commit opens, moves and publishes, and what is left
behind when the commit is refused an address.

A commit is a move of the front ends, a replacement of the forwards and a
publication, in this order. The first two can be refused, and each leaves
everything as it was when it is; but a forward that cannot be opened stops a
commit whose front ends have already moved. That is the one way a run that is
not recorded as committed changes what serves traffic (`HalfCommits`).
-/

namespace Nhop.Daemon

open Foundation Ipc Rules Proxy Upstream Cli

/-- The addresses a run's move of the front ends has to open. -/
def Frontends.toMove (frontends : Frontends) (listen : Option Listen) : List SocketAddr :=
  match listen with
  | none => []
  | some listen => frontends.toOpen listen

/-- The addresses the commit of a run has to open, in the order it does. -/
def Frontends.toBind (frontends : Frontends) (staged : Staging) : List SocketAddr :=
  frontends.toMove staged.listen ++ frontends.toForward staged.forwards

namespace DaemonState

/-- A move of the front ends that was granted every address, for a run that may
have asked for none. -/
structure Moved (os : Os) (listen : Option Listen) (before after : DaemonState) : Prop where
  frame : after = { before with
    frontends := after.frontends
    calls := after.calls
    httpListen := after.httpListen
    socksListen := after.socksListen }
  calls : after.calls = before.calls + (before.frontends.toMove listen).length
  kept : listen = none → after = before
  unbound : before.frontends = .unbound → after.frontends = .unbound ∧
    ∀ wanted, listen = some wanted → after.listen = wanted
  bound : ∀ bound, before.frontends = .bound bound → ∀ wanted, listen = some wanted →
    ∃ moved, after.frontends = .bound moved ∧ after.listen = moved.listen ∧
      moved.forwards = bound.forwards ∧
      Moves os before.calls after.calls wanted.http bound.http moved.http ∧
      Moves os before.calls after.calls wanted.socks bound.socks moved.socks

/-- A replacement of the forwards that was granted every address. -/
structure Forwarded (os : Os) (wanted : Forwards) (before after : DaemonState) : Prop where
  frame : after = { before with
    frontends := after.frontends
    calls := after.calls
    forwards := after.forwards }
  calls : after.calls = before.calls + (before.frontends.toForward wanted).length
  unbound : before.frontends = .unbound →
    after.frontends = .unbound ∧ after.forwards = wanted
  bound : ∀ bound, before.frontends = .bound bound → ∃ fresh,
    after.frontends = .bound { bound with forwards := bound.retained wanted ++ fresh } ∧
    after.forwards = { bound with forwards := bound.retained wanted ++ fresh }.forwardsHeld ∧
    Opens os before.calls (bound.missing wanted.forwards) fresh

section commit

variable {os : Os} {state : DaemonState} {staged : Staging} {now : ℤ}

/-- The move of the front ends a commit makes, if the run asked for one. -/
def move (os : Os) (state : DaemonState) (listen : Option Listen) :
    Except OsError Unit × DaemonState :=
  match listen with
  | none => (.ok (), state)
  | some listen => state.rebind os listen

theorem commit_eq : state.commit os now staged =
    match state.move os staged.listen with
    | (.error failure, state) => (.error (.frontEnds failure), state)
    | (.ok _, state) =>
        match state.rebindForwards os staged.forwards with
        | (.error failure, state) => (.error (.forward failure), state)
        | (.ok _, state) => (.ok (), state.publish now staged.rules staged.upstream) := by
  unfold commit move Staging.commit
  cases staged.listen with
  | none => rfl
  | some listen =>
      simp only
      rcases state.rebind os listen with ⟨_ | _, _⟩ <;> rfl

variable {listen : Option Listen} {wanted : Forwards}

theorem move_granted (h : os.grants state.calls (state.frontends.toMove listen) = true) :
    ∃ moved, state.move os listen = (.ok (), moved) ∧ Moved os listen state moved := by
  cases listen with
  | none =>
      refine ⟨state, rfl, rfl, rfl, fun _ => rfl, ?_, ?_⟩
      · intro hunbound
        exact ⟨hunbound, by simp⟩
      · simp
  | some listen =>
      cases hfrontends : state.frontends with
      | unbound =>
          refine ⟨_, rebind_unbound hfrontends, rfl, ?_, by simp, ?_, ?_⟩
          · simp [Frontends.toMove, Frontends.toOpen, hfrontends]
          · intro _
            refine ⟨hfrontends, ?_⟩
            rintro _ ⟨⟩
            rfl
          · simp [hfrontends]
      | bound bound =>
          rw [hfrontends] at h
          obtain ⟨moved, hmoved, hsame, hhttp, hsocks⟩ := rebind_granted hfrontends h
          refine ⟨_, hmoved, rfl, ?_, by simp, by simp [hfrontends], ?_⟩
          · simp [Frontends.toMove, Frontends.toOpen, hfrontends]
          · intro bound' hbound'
            obtain rfl : bound = bound' := by simpa [hfrontends] using hbound'
            rintro _ ⟨⟩
            exact ⟨moved, rfl, rfl, hsame, hhttp, hsocks⟩

theorem move_refused (h : os.grants state.calls (state.frontends.toMove listen) = false) :
    ∃ failure calls', state.move os listen = (.error failure, { state with calls := calls' }) ∧
      state.calls ≤ calls' := by
  cases listen with
  | none => simp [Frontends.toMove, Os.grants] at h
  | some listen =>
      cases hfrontends : state.frontends with
      | unbound => simp [Frontends.toMove, Frontends.toOpen, hfrontends, Os.grants] at h
      | bound bound =>
          rw [hfrontends] at h
          have hrefused := rebind_refused hfrontends h
          simpa only [move, hfrontends] using hrefused

theorem forward_granted (h : os.grants state.calls (state.frontends.toForward wanted) = true) :
    ∃ forwarded, state.rebindForwards os wanted = (.ok (), forwarded) ∧
      Forwarded os wanted state forwarded := by
  cases hfrontends : state.frontends with
  | unbound =>
      refine ⟨_, rebindForwards_unbound hfrontends, rfl, ?_, fun _ => ⟨hfrontends, rfl⟩, ?_⟩
      · simp [Frontends.toForward, hfrontends]
      · simp [hfrontends]
  | bound bound =>
      rw [hfrontends] at h
      obtain ⟨fresh, hfresh, hopens⟩ := rebindForwards_granted hfrontends h
      refine ⟨_, hfresh, rfl, ?_, by simp [hfrontends], ?_⟩
      · simp [Frontends.toForward, hfrontends]
      · intro bound' hbound'
        obtain rfl : bound = bound' := by simpa [hfrontends] using hbound'
        exact ⟨fresh, rfl, rfl, hopens⟩

theorem forward_refused (h : os.grants state.calls (state.frontends.toForward wanted) = false) :
    ∃ failure calls', state.rebindForwards os wanted =
      (.error failure, { state with calls := calls' }) ∧ state.calls ≤ calls' := by
  cases hfrontends : state.frontends with
  | unbound => simp [Frontends.toForward, hfrontends, Os.grants] at h
  | bound bound =>
      rw [hfrontends] at h
      have hrefused := rebindForwards_refused hfrontends h
      simpa only [hfrontends] using hrefused

theorem Moved.toForward {moved : DaemonState} (h : Moved os listen state moved) :
    moved.frontends.toForward wanted = state.frontends.toForward wanted := by
  cases listen with
  | none => rw [h.kept rfl]
  | some listen =>
      cases hfrontends : state.frontends with
      | unbound => rw [(h.unbound hfrontends).1]
      | bound bound =>
          obtain ⟨moved', hmoved, _, hsame, _⟩ := h.bound bound hfrontends listen rfl
          rw [hmoved]
          simp only [Frontends.toForward, Bound.toForward, Bound.held, hsame]

/-- **A commit that is granted every address** moves the front ends, replaces the
forwards and publishes. -/
theorem commit_granted (now : ℤ)
    (h : os.grants state.calls (state.frontends.toBind staged) = true) :
    ∃ moved forwarded, Moved os staged.listen state moved ∧
      Forwarded os staged.forwards moved forwarded ∧
      state.commit os now staged =
        (.ok (), forwarded.publish now staged.rules staged.upstream) := by
  unfold Frontends.toBind at h
  rw [Os.grants_append, Bool.and_eq_true] at h
  obtain ⟨moved, hmove, hmoved⟩ := move_granted h.1
  have hforward : os.grants moved.calls (moved.frontends.toForward staged.forwards) = true := by
    rw [hmoved.calls, hmoved.toForward]
    exact h.2
  obtain ⟨forwarded, hrebind, hforwarded⟩ := forward_granted hforward
  refine ⟨moved, forwarded, hmoved, hforwarded, ?_⟩
  rw [commit_eq, hmove]
  simp only
  rw [hrebind]

theorem commit_refused_move (now : ℤ)
    (h : os.grants state.calls (state.frontends.toMove staged.listen) = false) :
    ∃ failure calls', state.commit os now staged =
      (.error (.frontEnds failure), { state with calls := calls' }) ∧ state.calls ≤ calls' := by
  obtain ⟨failure, calls', hmove, hle⟩ := move_refused h
  exact ⟨failure, calls', by rw [commit_eq, hmove], hle⟩

theorem commit_refused_forward (now : ℤ)
    (h : os.grants state.calls (state.frontends.toMove staged.listen) = true)
    (hforward : os.grants (state.calls + (state.frontends.toMove staged.listen).length)
      (state.frontends.toForward staged.forwards) = false) :
    ∃ moved failure calls', Moved os staged.listen state moved ∧ moved.calls ≤ calls' ∧
      state.commit os now staged =
        (.error (.forward failure), { moved with calls := calls' }) := by
  obtain ⟨moved, hmove, hmoved⟩ := move_granted h
  rw [← hmoved.calls, ← hmoved.toForward] at hforward
  obtain ⟨failure, calls', hrebind, hle⟩ := forward_refused hforward
  refine ⟨moved, failure, calls', hmoved, hle, ?_⟩
  rw [commit_eq, hmove]
  simp only
  rw [hrebind]

/-- A commit does not touch the runs. -/
theorem commit_frame : (state.commit os now staged).2.load = state.load ∧
    (state.commit os now staged).2.loadIds = state.loadIds := by
  have hmove : (state.move os staged.listen).2.load = state.load ∧
      (state.move os staged.listen).2.loadIds = state.loadIds := by
    cases staged.listen with
    | none => exact ⟨rfl, rfl⟩
    | some listen => exact rebind_frame
  rw [commit_eq]
  cases hmoved : state.move os staged.listen with
  | mk result moved =>
      rw [hmoved] at hmove
      cases result with
      | error failure => exact hmove
      | ok _ =>
          have hforward : (moved.rebindForwards os staged.forwards).2.load = moved.load ∧
              (moved.rebindForwards os staged.forwards).2.loadIds = moved.loadIds :=
            rebindForwards_frame
          simp only
          cases hforwarded : moved.rebindForwards os staged.forwards with
          | mk result forwarded =>
              rw [hforwarded] at hforward
              cases result with
              | error failure => exact ⟨hforward.1.trans hmove.1, hforward.2.trans hmove.2⟩
              | ok _ =>
                  cases staged.upstream <;>
                    exact ⟨hforward.1.trans hmove.1, hforward.2.trans hmove.2⟩

end commit

/-! ### The state a run ends in -/

section finish

variable (os : Os) (moment : Moment) {state : DaemonState} {load : InFlight}
variable {outcome : ScriptOutcome}

/-- How the last run that finished was recorded. -/
def recorded (state : DaemonState) : Option LoadOutcome :=
  state.lastLoad.map LastLoadView.outcome

/-- Whether a run may be committed: its script succeeded and none of its commands
was rejected. -/
def Viable (load : InFlight) (outcome : ScriptOutcome) : Prop :=
  outcome = .succeeded ∧ load.staged.failed = none

instance (load : InFlight) (outcome : ScriptOutcome) : Decidable (Viable load outcome) :=
  inferInstanceAs (Decidable (_ ∧ _))

/-- A run that may not be committed ends without a trace but for its record. -/
theorem finish_discarded (hload : state.load = some load) (h : ¬Viable load outcome) :
    ∃ view, view.outcome ≠ .ok ∧
      (state.finish os moment outcome).2 = { state with load := none, lastLoad := some view } := by
  unfold finish
  simp only [hload]
  cases outcome with
  | succeeded =>
      cases hfailed : load.staged.failed with
      | none => exact absurd ⟨rfl, hfailed⟩ h
      | some failed =>
          simp only [settle, Staging.failure, hfailed]
          exact ⟨_, by simp, rfl⟩
  | exited code => exact ⟨_, by simp [settle], rfl⟩
  | timedOut => exact ⟨_, by simp [settle], rfl⟩
  | notRun failure => exact ⟨_, by simp [settle], rfl⟩

theorem finish_viable (hload : state.load = some load) (h : Viable load outcome) :
    ∃ view, (state.finish os moment outcome).2 =
        { ({ state with load := none }.commit os moment.now load.staged).2 with
          lastLoad := some view } ∧
      (view.outcome = .ok ↔
        ({ state with load := none }.commit os moment.now load.staged).1 = .ok ()) := by
  obtain ⟨rfl, hviable⟩ := h
  unfold finish
  simp only [hload, settle, Staging.failure, hviable]
  generalize { state with load := none }.commit os moment.now load.staged = result
  rcases result with ⟨failure | _, after⟩
  · exact ⟨_, rfl, by simp⟩
  · exact ⟨_, rfl, by simp⟩

/-- Whatever way a run ends, no run is in flight then. -/
theorem finish_frame : (state.finish os moment outcome).2.load = none ∧
    (state.finish os moment outcome).2.loadIds = state.loadIds := by
  cases hload : state.load with
  | none =>
      simp only [finish, hload]
      exact ⟨trivial, trivial⟩
  | some load =>
      by_cases hviable : Viable load outcome
      · obtain ⟨view, hview, _⟩ := finish_viable os moment hload hviable
        rw [hview]
        exact commit_frame
      · obtain ⟨view, _, hview⟩ := finish_discarded os moment hload hviable
        rw [hview]
        exact ⟨rfl, rfl⟩

end finish

end DaemonState

end Nhop.Daemon
