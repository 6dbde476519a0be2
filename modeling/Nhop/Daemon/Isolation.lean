import Nhop.Daemon.Opened

/-!
The state task among its clients and the scripts it starts.

Clients send commands whenever they like and scripts end whenever they like; the
task takes one of either at a time. An end of a script says nothing about the run
it belongs to, so the task settles whatever run is in flight. That this is always
the run that started the script rests on one fact: the scripts running and the
ends not yet taken are together the run in flight and nothing else
(`Serve.Inv.outstanding`).

The ids are told from a machine word, so one recurs once `2 ^ 64` runs have begun
(`Serve.runs_recurring`). Until then none does.
-/

namespace Nhop.Daemon

open Foundation Ipc Rules Proxy Upstream

/-- The state task and what is on its way to it. The last two fields are history:
the commands the run in flight was given, and the runs that have ended. -/
structure Serve where
  state : DaemonState
  /-- Requests sent and not yet taken. -/
  inbox : List (Command × ℕ)
  /-- The scripts running, by the run that started each. -/
  scripts : List LoadId
  /-- Ends of scripts not yet taken; the run is not part of what is sent. -/
  completions : List (LoadId × ScriptOutcome)
  taken : List Taken
  finished : List LoadId

/-- Something that happens around the state task. -/
inductive Act
  | send (command : Command) (reply : ℕ)
  | take (moment : Moment)
  | exit (id : LoadId) (outcome : ScriptOutcome)
  | settle (moment : Moment)

namespace Serve

def of (start : DaemonState) : Serve := ⟨start, [], [], [], [], []⟩

/-- The runs that have begun, in order. -/
def begun (s : Serve) : List LoadId := s.finished ++ s.state.inFlight.toList

/-- The commands the run in flight was given, after one more was answered. -/
def record (s : Serve) (command : Command) (response : Response) : List Taken :=
  if s.state.inFlight.isSome ∧ command.load? = some s.state.inFlight then
    s.taken ++ [⟨command, response⟩]
  else s.taken

section system

variable [External]

/-- The state task takes a request. -/
def takeOne (os : Os) (moment : Moment) (s : Serve) (command : Command) (reply : ℕ)
    (rest : List (Command × ℕ)) : Serve :=
  match s.state.handle os moment command reply with
  | (some response, state) =>
      { s with state := state, inbox := rest, taken := s.record command response }
  | (none, state) =>
      { s with
        state := state
        inbox := rest
        scripts := s.scripts ++ state.inFlight.toList
        taken := [] }

def step (os : Os) (s : Serve) : Act → Option Serve
  | .send command reply => some { s with inbox := s.inbox ++ [(command, reply)] }
  | .take moment =>
      match s.inbox with
      | [] => none
      | (command, reply) :: rest => some (s.takeOne os moment command reply rest)
  | .exit id outcome =>
      if id ∈ s.scripts then
        some { s with
          scripts := s.scripts.erase id
          completions := s.completions ++ [(id, outcome)] }
      else none
  | .settle moment =>
      match s.completions with
      | [] => none
      | (_, outcome) :: rest =>
          some { s with
            state := (s.state.finish os moment outcome).2
            completions := rest
            finished := s.finished ++ s.state.inFlight.toList }

/-- The state task and its surroundings as a system. -/
def system (os : Os) : System Serve Act := ⟨step os⟩

/-- What is outstanding is the run in flight, what it has built is the fold of its
commands, and the runs that have begun carry the ids issued in turn. -/
structure Inv (s : Serve) : Prop where
  outstanding : s.scripts ++ s.completions.map Prod.fst = s.state.inFlight.toList
  records : ∀ load, s.state.load = some load → load.staged.Records s.taken
  consistent : s.state.Consistent
  issued : s.state.loadIds = ⟨s.begun.length % 2 ^ 64⟩
  inTurn : s.begun = (List.range s.begun.length).map LoadIds.nth

/-- What one step does to the runs. -/
structure Isolated (os : Os) (s : Serve) (act : Act) (s' : Serve) : Prop where
  /-- Nothing that serves changes while a run is in flight. -/
  serving : s.state.load.isSome → (∀ moment, act ≠ .settle moment) →
    s'.state.serving = s.state.serving
  /-- A command that carries the id of the run in flight takes effect in it. -/
  own : ∀ moment command reply rest load, act = .take moment →
    s.inbox = (command, reply) :: rest → s.state.load = some load →
    command.load? = some (some load.id) →
    s.state.handle os moment command reply = (some (load.staged.take command).1, s'.state) ∧
      s'.state = { s.state with
        load := some { load with staged := (load.staged.take command).2 } }
  /-- A command that would change something and does not carry it is refused. -/
  other : ∀ moment command reply rest load carried, act = .take moment →
    s.inbox = (command, reply) :: rest → s.state.load = some load →
    command.load? = some carried → carried ≠ some load.id →
    s'.state = s.state ∧ ∃ response,
      s.state.handle os moment command reply = (some response, s.state) ∧ response.isErr = true
  /-- Until the ids recur, the id of a run that ended is not that of the run in
  flight, and an id that no run has carried never is. -/
  past : ∀ id, (id ∈ s.finished ∧ s.begun.length ≤ 2 ^ 64) ∨ id ∉ s.begun →
    s.state.inFlight ≠ some id
  /-- A command that carries another id than that of a run in flight is refused. -/
  stale : ∀ moment command reply rest id, act = .take moment →
    s.inbox = (command, reply) :: rest → command.load? = some (some id) →
    s.state.inFlight ≠ some id →
    s'.state = s.state ∧ ∃ response,
      s.state.handle os moment command reply = (some response, s.state) ∧ response.isErr = true
  /-- No command is told that its run ended while it was in flight. -/
  reached : ∀ moment command reply rest, act = .take moment →
    s.inbox = (command, reply) :: rest →
    (s.state.handle os moment command reply).1 ≠ some vanished
  /-- The end of a script settles the run that started it. -/
  settles : ∀ moment id outcome rest, act = .settle moment →
    s.completions = (id, outcome) :: rest → s.state.inFlight = some id
  /-- A run is committed exactly when its script succeeded and none of its commands
  was rejected. -/
  commits : ∀ moment id outcome rest, act = .settle moment →
    s.completions = (id, outcome) :: rest →
    (s'.state.recorded = some .ok ↔ outcome = .succeeded ∧ Ledger.NoneRejected s.taken)
  /-- What serves then is the fold of the commands it accepted. -/
  folded : ∀ moment id rest, act = .settle moment →
    s.completions = (id, .succeeded) :: rest → Ledger.NoneRejected s.taken →
    DaemonState.Folded os (Ledger.accepted s.taken) s.state s'.state
  /-- And otherwise what served before. -/
  discarded : ∀ moment id outcome rest, act = .settle moment →
    s.completions = (id, outcome) :: rest →
    ¬(outcome = .succeeded ∧ Ledger.NoneRejected s.taken) →
    s'.state.serving = s.state.serving

/-! ### The invariant -/

section inv

variable {os : Os} {s s' : Serve} {moment : Moment} {command : Command} {reply : ℕ}
variable {rest : List (Command × ℕ)} {load : InFlight}

omit [External] in
theorem begun_idle (h : s.state.load = none) : s.begun = s.finished := by
  rw [begun, DaemonState.inFlight, h, Option.map_none, Option.toList_none, List.append_nil]

theorem inv_of {start : DaemonState} (h : DaemonState.Started os start) : (of start).Inv := by
  have hidle : (of start).state.load = none := DaemonState.load_of_started h
  have hnone : (of start).begun = [] := begun_idle hidle
  refine ⟨?_, ?_, DaemonState.consistent_of_started h, ?_, ?_⟩
  · rw [DaemonState.inFlight, hidle]
    rfl
  · intro load hload
    simp [hidle] at hload
  · rw [hnone]
    exact DaemonState.loadIds_of_started h
  · rw [hnone]
    rfl

theorem Inv.frame {s' : Serve} (h : s.Inv)
    (houtstanding : s'.scripts ++ s'.completions.map Prod.fst = s'.state.inFlight.toList)
    (hrecords : ∀ load, s'.state.load = some load → load.staged.Records s'.taken)
    (hconsistent : s'.state.Consistent) (hids : s'.state.loadIds = s.state.loadIds)
    (hbegun : s'.begun = s.begun) : s'.Inv := by
  refine ⟨houtstanding, hrecords, hconsistent, ?_, ?_⟩
  · rw [hbegun, hids, h.issued]
  · rw [hbegun]
    exact h.inTurn

theorem takeOne_own (hload : s.state.load = some load)
    (hid : command.load? = some (some load.id)) :
    s.takeOne os moment command reply rest = { s with
      state := { s.state with load := some { load with staged := (load.staged.take command).2 } }
      inbox := rest
      taken := s.taken ++ [⟨command, (load.staged.take command).1⟩] } := by
  have hbelongs : s.state.inFlight.isSome ∧ command.load? = some s.state.inFlight := by
    rw [DaemonState.inFlight, hload, hid]
    exact ⟨rfl, rfl⟩
  rw [takeOne, DaemonState.handle_staged hload hid]
  simp only [record, hbelongs, and_self, if_true]

theorem takeOne_elsewhere (hload : s.state.load = some load)
    (hid : command.load? ≠ some (some load.id)) :
    s.takeOne os moment command reply rest = { s with inbox := rest } := by
  have hother : ¬(s.state.inFlight.isSome ∧ command.load? = some s.state.inFlight) := by
    rw [DaemonState.inFlight, hload]
    exact fun h => hid h.2
  obtain ⟨response, hsame, _⟩ := DaemonState.handle_elsewhere os moment reply hload hid
  rw [takeOne, hsame]
  simp only [record, hother, if_false]

/-- A command taken while no run is in flight either leaves the runs alone or
starts one. -/
theorem takeOne_idle (os : Os) (moment : Moment) (command : Command) (reply : ℕ)
    (rest : List (Command × ℕ)) (hidle : s.state.load = none) :
    (∃ after, s.takeOne os moment command reply rest = { s with state := after, inbox := rest } ∧
      after.load = none ∧ after.loadIds = s.state.loadIds ∧
      (s.state.Consistent → after.Consistent)) ∨
    ∃ script, s.takeOne os moment command reply rest = { s with
      state := s.state.begun script reply
      inbox := rest
      scripts := s.scripts ++ [s.state.loadIds.issue.1]
      taken := [] } := by
  rcases DaemonState.handle_idle os moment command reply hidle with
    ⟨response, after, hafter, hanswered⟩ | ⟨script, hscript⟩
  · obtain ⟨hload, hids⟩ := hanswered.frame
    have hconsistent : s.state.Consistent → after.Consistent := by
      intro h
      have hhandled := @DaemonState.Consistent.handle os moment s.state command reply _ h
      rwa [hafter] at hhandled
    refine Or.inl ⟨after, ?_, hload.trans hidle, hids, hconsistent⟩
    have hnone : ¬(s.state.inFlight.isSome ∧ command.load? = some s.state.inFlight) := by
      rw [DaemonState.inFlight, hidle]
      exact fun h => absurd h.1 (by simp)
    rw [takeOne, hafter]
    simp only [record, hnone, if_false]
  · refine Or.inr ⟨script, ?_⟩
    rw [takeOne, hscript]
    rfl

/-- A run that begins carries the next id. -/
theorem Inv.start (h : s.Inv) (hidle : s.state.load = none) (script : String) :
    Inv { s with
      state := s.state.begun script reply
      inbox := rest
      scripts := s.scripts ++ [s.state.loadIds.issue.1]
      taken := [] } := by
  have hflight : s.state.inFlight = none := by
    rw [DaemonState.inFlight, hidle, Option.map_none]
  have hnothing := h.outstanding
  rw [hflight, Option.toList_none] at hnothing
  obtain ⟨hscripts, hcompletions⟩ := List.append_eq_nil_iff.mp hnothing
  have hfinished : s.finished = (List.range s.finished.length).map LoadIds.nth := by
    have hturn := h.inTurn
    rwa [begun_idle hidle] at hturn
  have hissue : s.state.loadIds.issue =
      (LoadIds.nth s.finished.length, ⟨(s.finished.length + 1) % 2 ^ 64⟩) := by
    rw [h.issued, begun_idle hidle, LoadIds.issue_mod]
  have hbegun : ({ s with
      state := s.state.begun script reply
      inbox := rest
      scripts := s.scripts ++ [s.state.loadIds.issue.1]
      taken := [] } : Serve).begun = s.finished ++ [LoadIds.nth s.finished.length] := by
    show s.finished ++ [s.state.loadIds.issue.1] = _
    rw [hissue]
  refine ⟨?_, ?_, ?_, ?_, ?_⟩
  · simp only [hscripts, hcompletions, List.nil_append, List.append_nil]
    rfl
  · rintro _ ⟨⟩
    exact Staging.records_empty
  · exact h.consistent.frame rfl rfl rfl (Nat.le_refl _)
  · rw [hbegun, List.length_append, List.length_singleton]
    show s.state.loadIds.issue.2 = _
    rw [hissue]
  · rw [hbegun, List.length_append, List.length_singleton, List.range_succ, List.map_append,
      ← hfinished, List.map_singleton]

theorem Inv.take (h : s.Inv) : (s.takeOne os moment command reply rest).Inv := by
  cases hload : s.state.load with
  | some load =>
      by_cases hid : command.load? = some (some load.id)
      · rw [takeOne_own hload hid]
        have hflight : s.state.inFlight = some load.id := by
          rw [DaemonState.inFlight, hload, Option.map_some]
        refine h.frame ?_ ?_ ?_ rfl ?_
        · rw [h.outstanding, hflight]
          rfl
        · rintro _ ⟨⟩
          exact (h.records load hload).take
        · exact h.consistent.frame rfl rfl rfl (Nat.le_refl _)
        · rw [begun, begun, hflight]
          rfl
      · rw [takeOne_elsewhere hload hid]
        exact h.frame h.outstanding h.records h.consistent rfl rfl
  | none =>
      rcases takeOne_idle os moment command reply rest hload with
        ⟨after, hafter, hnone, hids, hconsistent⟩ | ⟨script, hscript⟩
      · rw [hafter]
        have hflight : after.inFlight = s.state.inFlight := by
          rw [DaemonState.inFlight, hnone, DaemonState.inFlight, hload]
        refine h.frame ?_ ?_ (hconsistent h.consistent) hids ?_
        · rw [hflight]
          exact h.outstanding
        · intro load hsome
          simp [hnone] at hsome
        · rw [begun, begun, hflight]
      · rw [hscript]
        exact h.start hload script

theorem Inv.exit (h : s.Inv) {id : LoadId} {outcome : ScriptOutcome} (hmem : id ∈ s.scripts) :
    Inv { s with
      scripts := s.scripts.erase id
      completions := s.completions ++ [(id, outcome)] } := by
  have hrun := h.outstanding
  -- the script is all there is outstanding
  have hone : s.scripts = [id] ∧ s.completions = [] := by
    cases hflight : s.state.inFlight with
    | none =>
        rw [hflight, Option.toList_none, List.append_eq_nil_iff] at hrun
        rw [hrun.1] at hmem
        cases hmem
    | some flight =>
        rw [hflight, Option.toList_some] at hrun
        rcases List.append_eq_singleton_iff.mp hrun with ⟨hnil, _⟩ | ⟨hscript, hnil⟩
        · rw [hnil] at hmem
          cases hmem
        · rw [hscript, List.mem_singleton] at hmem
          rw [hmem]
          exact ⟨hscript, List.map_eq_nil_iff.mp hnil⟩
  refine h.frame ?_ h.records h.consistent rfl rfl
  rw [← hrun, hone.1, hone.2]
  simp

theorem Inv.completion (h : s.Inv) {id : LoadId} {outcome : ScriptOutcome}
    {more : List (LoadId × ScriptOutcome)} (hhead : s.completions = (id, outcome) :: more) :
    s.scripts = [] ∧ more = [] ∧ s.state.inFlight = some id := by
  have hrun := h.outstanding
  rw [hhead, List.map_cons] at hrun
  cases hflight : s.state.inFlight with
  | none => simp [hflight] at hrun
  | some flight =>
      rw [hflight, Option.toList_some] at hrun
      rcases List.append_eq_singleton_iff.mp hrun with ⟨hnil, hids⟩ | ⟨_, hids⟩
      · obtain ⟨rfl, hmore⟩ := List.cons.inj hids
        exact ⟨hnil, List.map_eq_nil_iff.mp hmore, rfl⟩
      · cases hids

theorem Inv.settle (h : s.Inv) {id : LoadId} {outcome : ScriptOutcome}
    {more : List (LoadId × ScriptOutcome)} (hhead : s.completions = (id, outcome) :: more) :
    Inv { s with
      state := (s.state.finish os moment outcome).2
      completions := more
      finished := s.finished ++ s.state.inFlight.toList } := by
  obtain ⟨hscripts, hmore, hflight⟩ := h.completion hhead
  obtain ⟨hnone, hids⟩ := @DaemonState.finish_frame os moment s.state outcome
  have hover : (s.state.finish os moment outcome).2.inFlight = none := by
    rw [DaemonState.inFlight, hnone, Option.map_none]
  refine h.frame ?_ ?_ h.consistent.finish hids ?_
  · rw [hscripts, hmore, hover]
    rfl
  · intro load hsome
    simp [hnone] at hsome
  · rw [begun_idle hnone]
    rfl

theorem Inv.step {act : Act} (h : s.Inv) (hstep : (system os).step s act = some s') : s'.Inv := by
  have hstep : Serve.step os s act = some s' := hstep
  cases act with
  | send command reply =>
      simp only [Serve.step, Option.some.injEq] at hstep
      subst hstep
      exact h.frame h.outstanding h.records h.consistent rfl rfl
  | take moment =>
      cases hinbox : s.inbox with
      | nil => simp [Serve.step, hinbox] at hstep
      | cons request rest =>
          simp only [Serve.step, hinbox, Option.some.injEq] at hstep
          subst hstep
          exact h.take
  | exit id outcome =>
      simp only [Serve.step, Option.ite_none_right_eq_some, Option.some.injEq] at hstep
      obtain ⟨hmem, rfl⟩ := hstep
      exact h.exit hmem
  | settle moment =>
      cases hcompletions : s.completions with
      | nil => simp [Serve.step, hcompletions] at hstep
      | cons head more =>
          simp only [Serve.step, hcompletions, Option.some.injEq] at hstep
          subst hstep
          exact h.settle hcompletions

end inv

/-! ### What one step does to the runs -/

section isolated

variable {os : Os} {s s' : Serve} {moment : Moment} {command : Command} {reply : ℕ}
variable {rest : List (Command × ℕ)} {load : InFlight}

/-- The commit of the run in flight is given every address it asks for. -/
def Obliged (os : Os) (s : Serve) : Prop :=
  ∀ load, s.state.load = some load →
    os.obliges s.state.calls s.state.frontends load.staged = true

theorem step_take (hstep : (system os).step s (.take moment) = some s')
    (hinbox : s.inbox = (command, reply) :: rest) :
    s' = s.takeOne os moment command reply rest := by
  have htake : Serve.step os s (.take moment) = some s' := hstep
  simp only [Serve.step, hinbox, Option.some.injEq] at htake
  exact htake.symm

theorem step_settle {id : LoadId} {outcome : ScriptOutcome}
    {more : List (LoadId × ScriptOutcome)}
    (hstep : (system os).step s (.settle moment) = some s')
    (hhead : s.completions = (id, outcome) :: more) :
    s'.state = (s.state.finish os moment outcome).2 := by
  have hsettle : Serve.step os s (.settle moment) = some s' := hstep
  simp only [Serve.step, hhead, Option.some.injEq] at hsettle
  rw [← hsettle]

/-- **Nothing that serves changes while a run is in flight.** -/
theorem serving_of_step {act : Act} (hload : s.state.load = some load)
    (hact : ∀ moment, act ≠ .settle moment) (hstep : (system os).step s act = some s') :
    s'.state.serving = s.state.serving := by
  cases act with
  | send command reply =>
      obtain rfl : { s with inbox := s.inbox ++ [(command, reply)] } = s' := Option.some.inj hstep
      rfl
  | take moment =>
      cases hinbox : s.inbox with
      | nil =>
          have htake : Serve.step os s (.take moment) = some s' := hstep
          simp [Serve.step, hinbox] at htake
      | cons request rest =>
          rw [step_take hstep hinbox]
          by_cases hid : request.1.load? = some (some load.id)
          · rw [takeOne_own hload hid]
            rfl
          · rw [takeOne_elsewhere hload hid]
  | exit id outcome =>
      have hexit : Serve.step os s (.exit id outcome) = some s' := hstep
      simp only [Serve.step, Option.ite_none_right_eq_some, Option.some.injEq] at hexit
      obtain ⟨_, rfl⟩ := hexit
      rfl
  | settle moment => exact absurd rfl (hact moment)

theorem Inv.viable_iff (h : s.Inv) (hload : s.state.load = some load) {outcome : ScriptOutcome} :
    DaemonState.Viable load outcome ↔ outcome = .succeeded ∧ Ledger.NoneRejected s.taken := by
  rw [DaemonState.Viable, (h.records load hload).failed]

theorem Inv.finish_committed (h : s.Inv) (hos : os.Honest) (hobliged : Obliged os s)
    (hload : s.state.load = some load) {outcome : ScriptOutcome}
    (hviable : DaemonState.Viable load outcome) :
    (s.state.finish os moment outcome).2.recorded = some .ok ∧
      DaemonState.Folded os (Ledger.accepted s.taken) s.state
        (s.state.finish os moment outcome).2 := by
  obtain ⟨view, hview, hok⟩ := DaemonState.finish_viable os moment hload hviable
  obtain ⟨after, hcommit, hfolded⟩ := @DaemonState.commit_folded os
    { s.state with load := none } load.staged moment.now _ hos s.taken
    (h.consistent.frame rfl rfl rfl (Nat.le_refl _)) (h.records load hload) (hobliged load hload)
  rw [hcommit] at hview hok
  rw [hview]
  refine ⟨?_, ?_⟩
  · show some view.outcome = some .ok
    rw [hok.mpr rfl]
  · exact ⟨hfolded.rules, hfolded.upstream_kept, hfolded.upstream, hfolded.listen_kept,
      hfolded.listen, hfolded.forwards, hfolded.unbound, hfolded.bound⟩

omit [External] in
theorem finish_uncommitted (hload : s.state.load = some load) {outcome : ScriptOutcome}
    (hviable : ¬DaemonState.Viable load outcome) :
    (s.state.finish os moment outcome).2.recorded ≠ some .ok ∧
      (s.state.finish os moment outcome).2.serving = s.state.serving := by
  obtain ⟨view, hne, hview⟩ := DaemonState.finish_discarded os moment hload hviable
  rw [hview]
  refine ⟨?_, rfl⟩
  intro hrecorded
  exact hne (Option.some.inj hrecorded)

theorem Inv.nodup_begun (h : s.Inv) (hfew : s.begun.length ≤ 2 ^ 64) : s.begun.Nodup := by
  rw [h.inTurn]
  exact LoadIds.nodup_nth hfew

theorem Inv.inFlight_ne (h : s.Inv) {id : LoadId}
    (hpast : (id ∈ s.finished ∧ s.begun.length ≤ 2 ^ 64) ∨ id ∉ s.begun) :
    s.state.inFlight ≠ some id := by
  intro hflight
  have hmem : id ∈ s.state.inFlight.toList := by
    rw [hflight]
    exact List.mem_singleton_self id
  rcases hpast with ⟨hfinished, hfew⟩ | hnever
  · exact (List.nodup_append'.mp (h.nodup_begun hfew)).2.2 hfinished hmem
  · exact hnever (List.mem_append_right _ hmem)

/-- A command that carries another id than that of a run in flight is refused. -/
theorem takeOne_stale (os : Os) (moment : Moment) (reply : ℕ) (rest : List (Command × ℕ))
    {id : LoadId} (hid : command.load? = some (some id)) (hother : s.state.inFlight ≠ some id) :
    s.takeOne os moment command reply rest = { s with inbox := rest } ∧
      ∃ response, s.state.handle os moment command reply = (some response, s.state) ∧
        response.isErr = true := by
  cases hload : s.state.load with
  | some load =>
      have hne : command.load? ≠ some (some load.id) := by
        intro hsame
        apply hother
        rw [DaemonState.inFlight, hload, Option.map_some]
        exact Option.some.inj (hsame.symm.trans hid)
      obtain ⟨response, hsame, herr⟩ := DaemonState.handle_elsewhere os moment reply hload hne
      exact ⟨takeOne_elsewhere hload hne, response, hsame, herr (by simp [hid])⟩
  | none =>
      obtain ⟨response, hsame, herr⟩ := DaemonState.handle_stale os moment reply hload hid
      refine ⟨?_, response, hsame, herr⟩
      have hnone : ¬(s.state.inFlight.isSome ∧ command.load? = some s.state.inFlight) := by
        rw [DaemonState.inFlight, hload]
        exact fun h => absurd h.1 (by simp)
      rw [takeOne, hsame]
      simp only [record, hnone, if_false]

/-- Every step from a state that keeps the invariant isolates the runs. -/
theorem Inv.isolated {act : Act} (h : s.Inv) (hos : os.Honest)
    (hobliged : (∃ moment, act = .settle moment) → Obliged os s)
    (hstep : (system os).step s act = some s') : Isolated os s act s' where
  serving hsome hact := by
    obtain ⟨load, hload⟩ := Option.isSome_iff_exists.mp hsome
    exact serving_of_step hload hact hstep
  own := by
    rintro moment command reply rest load rfl hinbox hload hid
    rw [step_take hstep hinbox, takeOne_own hload hid]
    exact ⟨DaemonState.handle_staged hload hid, rfl⟩
  other := by
    rintro moment command reply rest load carried rfl hinbox hload hcarried hne
    have hid : command.load? ≠ some (some load.id) := by
      rw [hcarried]
      exact fun hsame => hne (Option.some.inj hsame)
    rw [step_take hstep hinbox, takeOne_elsewhere hload hid]
    obtain ⟨response, hsame, herr⟩ := DaemonState.handle_elsewhere os moment reply hload hid
    exact ⟨rfl, response, hsame, herr (by simp [hcarried])⟩
  past id hpast := h.inFlight_ne hpast
  stale := by
    rintro moment command reply rest id rfl hinbox hid hother
    obtain ⟨hsame, hrefused⟩ := takeOne_stale os moment reply rest hid hother
    rw [step_take hstep hinbox, hsame]
    exact ⟨rfl, hrefused⟩
  reached := by
    rintro moment command reply rest rfl _
    exact DaemonState.handle_ne_vanished os moment s.state command reply
  settles := by
    rintro moment id outcome rest rfl hhead
    exact (h.completion hhead).2.2
  commits := by
    rintro moment id outcome rest rfl hhead
    obtain ⟨load, hload, _⟩ := Option.map_eq_some_iff.mp (h.completion hhead).2.2
    -- the ledger tells what the run in flight has been told, which is what its viability reads
    rw [step_settle hstep hhead, ← h.viable_iff hload]
    constructor
    · intro hrecorded
      by_contra hviable
      exact (finish_uncommitted hload hviable).1 hrecorded
    · intro hviable
      exact (h.finish_committed hos (hobliged ⟨moment, rfl⟩) hload hviable).1
  folded := by
    rintro moment id rest rfl hhead hnone
    obtain ⟨load, hload, _⟩ := Option.map_eq_some_iff.mp (h.completion hhead).2.2
    rw [step_settle hstep hhead]
    have hviable : DaemonState.Viable load .succeeded := (h.viable_iff hload).mpr ⟨rfl, hnone⟩
    exact (h.finish_committed hos (hobliged ⟨moment, rfl⟩) hload hviable).2
  discarded := by
    rintro moment id outcome rest rfl hhead hnot
    obtain ⟨load, hload, _⟩ := Option.map_eq_some_iff.mp (h.completion hhead).2.2
    rw [step_settle hstep hhead]
    exact (finish_uncommitted hload fun hviable => hnot ((h.viable_iff hload).mp hviable)).2

end isolated

/-- **Runs are isolated and exact.** However commands, reloads and the ends of
scripts interleave, every step of the daemon keeps what serves apart from the run
in flight, and a run that is committed leaves exactly the fold of the commands it
accepted. -/
theorem runs_isolated {os : Os} {start : DaemonState} (hos : os.Honest)
    (hstart : DaemonState.Started os start) {acts : List Act}
    (hobliged : ∀ s moment s', (system os).Takes (of start) acts s (.settle moment) s' →
      Obliged os s) {s s' : Serve} {act : Act}
    (h : (system os).Takes (of start) acts s act s') : Isolated os s act s' := by
  have hinv : s.Inv := by
    exact System.invariant (I := Inv) (inv_of hstart) (fun _ _ _ hI hstep => hI.step hstep)
      h.reachable
  apply hinv.isolated hos _ h.step
  rintro ⟨moment, rfl⟩
  exact hobliged s moment s' h

end system

/-! ### One run -/

/-- A client reloads, the script declares one rule and moves the front ends, and
ends well. -/
def oneRun : List Act :=
  [.send (.reload none) 0, .take DaemonState.anyMoment,
    .send (.addRule .require .port ⟨"443"⟩ (some ⟨1⟩)) 1, .take DaemonState.anyMoment,
    .send (.setListen (.v4 0x7f000001#32 8890) (.v4 0x7f000001#32 8891) (some ⟨1⟩)) 2,
    .take DaemonState.anyMoment, .exit ⟨1⟩ .succeeded]

theorem run_oneRun : ∃ s : Serve,
    (@system External.ascii DaemonState.willing).run (of DaemonState.fresh) oneRun = some s ∧
      s.completions = [(⟨1⟩, .succeeded)] ∧ (∀ entry ∈ s.taken, entry.response.isErr = false) ∧
      Obliged DaemonState.willing s := by
  have hseen : ((@system External.ascii DaemonState.willing).run (of DaemonState.fresh) oneRun).map
      (fun s => (s.completions, s.taken.all fun entry => !entry.response.isErr,
        s.state.load.map fun load => DaemonState.willing.obliges s.state.calls s.state.frontends
          load.staged)) = some ([(⟨1⟩, .succeeded)], true, some true) := by
    decide +kernel
  obtain ⟨s, hrun, hs⟩ := Option.map_eq_some_iff.mp hseen
  simp only [Prod.mk.injEq, List.all_eq_true, Bool.not_eq_true'] at hs
  obtain ⟨hcompletions, htaken, hobliged⟩ := hs
  refine ⟨s, hrun, hcompletions, htaken, ?_⟩
  intro load hload
  simpa [hload] using hobliged

/-- Once the end of the script is taken, the run is committed and what serves is
the fold of the two commands. -/
theorem runs_isolated_oneRun : ∃ s s' : Serve,
    (@system External.ascii DaemonState.willing).run (of DaemonState.fresh) oneRun = some s ∧
      (@system External.ascii DaemonState.willing).step s (.settle DaemonState.anyMoment) =
        some s' ∧
      s'.state.recorded = some .ok ∧
      @DaemonState.Folded External.ascii DaemonState.willing (Ledger.accepted s.taken) s.state
        s'.state := by
  obtain ⟨s, hrun, hcompletions, htaken, hobliged⟩ := run_oneRun
  obtain ⟨s', hstep⟩ : ∃ s', (@system External.ascii DaemonState.willing).step s
      (.settle DaemonState.anyMoment) = some s' := by
    simp [system, step, hcompletions]
  have hos : DaemonState.willing.Honest := by
    rintro n addr got ⟨⟩ _
    rfl
  -- the end of the script is taken once, from where the rest of the run leads
  have honce : ∀ s₁ moment s₂, (@system External.ascii DaemonState.willing).Takes
      (of DaemonState.fresh) (oneRun ++ [.settle DaemonState.anyMoment]) s₁ (.settle moment) s₂ →
      Obliged DaemonState.willing s₁ := by
    intro s₁ moment s₂ htakes
    have hmem := htakes.mem
    simp only [oneRun, List.cons_append, List.nil_append, List.mem_cons, List.not_mem_nil,
      or_false, reduceCtorEq, Act.settle.injEq, false_or] at hmem
    subst hmem
    have hrun' := htakes.run_of_notMem (by simp [oneRun])
    rw [hrun] at hrun'
    obtain rfl : s = s₁ := Option.some.inj hrun'
    exact hobliged
  have hisolated := @runs_isolated External.ascii DaemonState.willing DaemonState.fresh hos
    (DaemonState.started_fresh rfl rfl) _ honce s s' _ (System.Takes.last hrun hstep)
  refine ⟨s, s', hrun, hstep, ?_, ?_⟩
  · exact (@Isolated.commits External.ascii _ _ _ _ hisolated _ _ _ _ rfl hcompletions).mpr
      ⟨rfl, htaken⟩
  · exact @Isolated.folded External.ascii _ _ _ _ hisolated _ _ _ rfl hcompletions htaken

/-! ### Ids that recur -/

/-- The `n`-th of a client's reloads, whose script is killed. -/
def fruitless (n : ℕ) : List Act :=
  [.send (.reload none) 0, .take DaemonState.anyMoment, .exit (LoadIds.nth n) .timedOut,
    .settle DaemonState.anyMoment]

section fruitless

variable [External] {os : Os} {s : Serve}

/-- A reload of an idle daemon begins a run that carries the next id. -/
theorem run_reload (h : s.Inv) (hidle : s.state.load = none) (hinbox : s.inbox = []) :
    ∃ path, (system os).run s [.send (.reload none) 0, .take DaemonState.anyMoment] =
        some ⟨s.state.begun path 0, [], [LoadIds.nth s.begun.length], [], [], s.finished⟩ ∧
      (s.state.begun path 0).load = some ⟨LoadIds.nth s.begun.length, .empty, 0⟩ := by
  have hflight : s.state.inFlight = none := by
    rw [DaemonState.inFlight, hidle, Option.map_none]
  have hnothing := h.outstanding
  rw [hflight, Option.toList_none] at hnothing
  obtain ⟨hscripts, hcompletions⟩ := List.append_eq_nil_iff.mp hnothing
  have hissue : s.state.loadIds.issue.1 = LoadIds.nth s.begun.length := by
    rw [h.issued, LoadIds.issue_mod]
  have hreload : s.state.handle os DaemonState.anyMoment (.reload none) 0 =
      (none, s.state.begun (s.state.initPath.getD s.state.initFile) 0) := by
    simp [DaemonState.handle, DaemonState.reload, hflight, DaemonState.anyMoment,
      DaemonState.begun]
  have hload : (s.state.begun (s.state.initPath.getD s.state.initFile) 0).load =
      some ⟨LoadIds.nth s.begun.length, .empty, 0⟩ := by
    rw [← hissue]
    rfl
  refine ⟨_, ?_, hload⟩
  simp [system, step, takeOne, hinbox, hreload, hscripts, List.map_eq_nil_iff.mp hcompletions,
    DaemonState.inFlight, hload]

theorem run_fruitless (h : s.Inv) (hidle : s.state.load = none) (hinbox : s.inbox = []) :
    ∃ s', (system os).run s (fruitless s.begun.length) = some s' ∧ s'.state.load = none ∧
      s'.inbox = [] ∧ s'.finished = s.finished ++ [LoadIds.nth s.begun.length] := by
  obtain ⟨path, hreload, hload⟩ := @run_reload _ os s h hidle hinbox
  refine ⟨⟨((s.state.begun path 0).finish os DaemonState.anyMoment .timedOut).2, [], [], [], [],
    s.finished ++ [LoadIds.nth s.begun.length]⟩, ?_, ?_, rfl, rfl⟩
  · rw [show fruitless s.begun.length =
        [.send (.reload none) 0, .take DaemonState.anyMoment] ++
          [.exit (LoadIds.nth s.begun.length) .timedOut, .settle DaemonState.anyMoment] from rfl,
      System.run_append, hreload]
    simp [system, step, DaemonState.inFlight, hload]
  · exact (DaemonState.finish_frame os DaemonState.anyMoment).1

end fruitless

/-- A command that carries the id of the first run. -/
def repeated : Command × ℕ := (.addRule .require .port ⟨"443"⟩ (some ⟨1⟩), 1)

/-- As many of them as there are ids, the next reload, and that command. -/
def recurring : List Act :=
  (List.range (2 ^ 64)).flatMap fruitless ++
    [.send (.reload none) 0, .take DaemonState.anyMoment, .send repeated.1 repeated.2]

theorem run_fruitlessly (n : ℕ) : ∃ s : Serve,
    (@system External.ascii DaemonState.willing).run (of DaemonState.fresh)
      ((List.range n).flatMap fruitless) = some s ∧
      @Inv External.ascii s ∧ s.state.load = none ∧ s.inbox = [] ∧
      s.finished = (List.range n).map LoadIds.nth := by
  induction n with
  | zero =>
      exact ⟨of DaemonState.fresh, rfl,
        @inv_of External.ascii DaemonState.willing _ (DaemonState.started_fresh rfl rfl), rfl, rfl, rfl⟩
  | succ n ih =>
      obtain ⟨s, hrun, hinv, hidle, hinbox, hfinished⟩ := ih
      have hlength : s.begun.length = n := by
        rw [begun_idle hidle, hfinished, List.length_map, List.length_range]
      obtain ⟨s', hrun', hidle', hinbox', hfinished'⟩ :=
        @run_fruitless External.ascii DaemonState.willing s hinv hidle hinbox
      rw [hlength] at hrun' hfinished'
      have hruns : (@system External.ascii DaemonState.willing).run (of DaemonState.fresh)
          ((List.range (n + 1)).flatMap fruitless) = some s' := by
        rw [List.range_succ, List.flatMap_append, System.run_append, hrun]
        simpa using hrun'
      refine ⟨s', hruns, ?_, hidle', hinbox', ?_⟩
      · exact System.invariant (I := @Inv External.ascii) hinv
          (fun _ _ _ hI hstep => @Inv.step External.ascii _ _ _ _ hI hstep) ⟨_, hrun'⟩
      · rw [hfinished', hfinished, List.range_succ, List.map_append, List.map_singleton]

/-- The run after those carries the id of the first, and the command that carries
it takes effect in this one. -/
theorem runs_recurring : ∃ s s' : Serve,
    (@system External.ascii DaemonState.willing).run (of DaemonState.fresh) recurring = some s ∧
      ⟨1⟩ ∈ s.finished ∧ s.state.load.map InFlight.staged = some .empty ∧
      s.inbox = [repeated] ∧
      (@system External.ascii DaemonState.willing).step s (.take DaemonState.anyMoment) =
        some s' ∧
      s'.taken = [⟨repeated.1, .ok⟩] ∧
      s'.state.load.map InFlight.staged ≠ some .empty := by
  obtain ⟨s, hrun, hinv, hidle, hinbox, hfinished⟩ := run_fruitlessly (2 ^ 64)
  have hlength : s.begun.length = 2 ^ 64 := by
    rw [begun_idle hidle, hfinished, List.length_map, List.length_range]
  obtain ⟨path, hreload, hload⟩ :=
    @run_reload External.ascii DaemonState.willing s hinv hidle hinbox
  -- the count has come round
  have hone : LoadIds.nth (2 ^ 64) = ⟨1⟩ := by decide +kernel
  rw [hlength, hone] at hreload hload
  have hfirst : (⟨1⟩ : LoadId) ∈ s.finished := by
    rw [hfinished, List.mem_map]
    exact ⟨0, by simp, rfl⟩
  let again : Serve := ⟨s.state.begun path 0, [repeated], [⟨1⟩], [], [], s.finished⟩
  have hrecurring : (@system External.ascii DaemonState.willing).run (of DaemonState.fresh)
      recurring = some again := by
    rw [recurring, System.run_append, hrun, Option.bind_some,
      show [Act.send (.reload none) 0, .take DaemonState.anyMoment, .send repeated.1 repeated.2] =
        [.send (.reload none) 0, .take DaemonState.anyMoment] ++
          [.send repeated.1 repeated.2] from rfl,
      System.run_append, hreload]
    rfl
  have htake := @takeOne_own External.ascii DaemonState.willing again DaemonState.anyMoment
    repeated.1 repeated.2 [] _ hload rfl
  have haccepted : (@Staging.take External.ascii .empty repeated.1).1 = .ok := by decide +kernel
  have hbuilt : (@Staging.take External.ascii .empty repeated.1).2 ≠ .empty := by decide +kernel
  have hstep : (@system External.ascii DaemonState.willing).step again
      (.take DaemonState.anyMoment) = some (@takeOne External.ascii DaemonState.willing
        DaemonState.anyMoment again repeated.1 repeated.2 []) := rfl
  refine ⟨again, _, hrecurring, hfirst, ?_, rfl, hstep, ?_, ?_⟩
  · show Option.map InFlight.staged (s.state.begun path 0).load = some .empty
    rw [hload]
    rfl
  · rw [htake, haccepted]
    rfl
  · rw [htake]
    intro hsame
    exact hbuilt (Option.some.inj hsame)

end Serve

end Nhop.Daemon
