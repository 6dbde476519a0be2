import Nhop.Cli.Doctor
import Nhop.Daemon.Relisting

/-!
What `nhop doctor` says of a running daemon.

The daemon answers with its own findings and with what it sees of the files, of the
settings of macOS and of its upstreams (`Room`). A daemon that was started over its
listeners keeps them whatever it is asked, so it always passes the check of its ports,
and the addresses it names there are those its listeners hold. The code `doctor` exits
with is then about four things beside the upstreams, of which the last load is settled
by the last run that finished (`diagnosed`).
-/

namespace Nhop.Daemon

open Foundation Ipc Rules Proxy Upstream Cli Cli.Settings Cli.Doctor

/-- What the daemon finds around it while it answers `doctor`. -/
structure Room where
  socketFile : String
  logFile : String
  /-- The directory the log file is in. -/
  logDir : Option String
  metadata : String → Option Metadata
  service : NetworkService
  /-- What is read of the settings of the service. -/
  reading : Except ProxyFailure SystemProxy
  reach : SocketAddr → Reach
  /-- The verdicts when the upstreams have been reached. -/
  cells : Verdicts
  format : ℤ → String

namespace DaemonState

/-- What the checks observe, in the order they are made. -/
def findings (room : Room) (state : DaemonState) : List Finding :=
  [daemonReachable room.socketFile,
    portsBound state.listen state.forwards state.bindState,
    Doctor.initFile room.metadata state.initFile,
    Doctor.lastLoad room.format state.lastLoad,
    logWritable room.metadata room.logFile room.logDir,
    systemProxy room.reading state.listen room.service,
    upstreamReachable room.reach state.upstream.val room.cells]

/-- The answer to `doctor`. -/
def doctor (room : Room) (state : DaemonState) : List CheckView :=
  Doctor.report (state.findings room)

/-! ### A daemon keeps its listeners -/

section bindState

variable {os : Os} {moment : Moment} {state : DaemonState} {command : Command} {reply : ℕ}
  {outcome : ScriptOutcome}

theorem bindState_of_bound {bound : Bound} (h : state.frontends = .bound bound) :
    state.bindState = true := by
  unfold bindState
  rw [h]

theorem bound_of_bindState (h : state.bindState = true) :
    ∃ bound, state.frontends = .bound bound := by
  unfold bindState at h
  cases hfrontends : state.frontends with
  | unbound =>
      rw [hfrontends] at h
      cases h
  | bound bound => exact ⟨bound, rfl⟩

theorem bindState_rebind {listen : Listen} (h : state.bindState = true) :
    (state.rebind os listen).2.bindState = true := by
  obtain ⟨bound, hbound⟩ := bound_of_bindState h
  have hmoved : ∃ moved, (state.rebind os listen).2.frontends = .bound moved := by
    simp only [rebind, hbound, Frontends.rebind]
    rcases bound.rebind os state.calls listen with ⟨_ | _, moved, calls⟩
    · exact ⟨moved, rfl⟩
    · exact ⟨moved, rfl⟩
  exact bindState_of_bound hmoved.choose_spec

theorem bindState_rebindForwards {forwards : Forwards} (h : state.bindState = true) :
    (state.rebindForwards os forwards).2.bindState = true := by
  obtain ⟨bound, hbound⟩ := bound_of_bindState h
  have hmoved : ∃ moved, (state.rebindForwards os forwards).2.frontends = .bound moved := by
    simp only [rebindForwards, hbound, Frontends.rebindForwards]
    rcases bound.rebindForwards os state.calls forwards with ⟨_ | _, moved, calls⟩
    · exact ⟨moved, rfl⟩
    · exact ⟨moved, rfl⟩
  exact bindState_of_bound hmoved.choose_spec

theorem bindState_commit {now : ℤ} {staged : Staging} (h : state.bindState = true) :
    (state.commit os now staged).2.bindState = true := by
  have hmove : (state.move os staged.listen).2.bindState = true := by
    cases staged.listen with
    | none => exact h
    | some listen => exact bindState_rebind h
  rw [commit_eq]
  cases hmoved : state.move os staged.listen with
  | mk result moved =>
      rw [hmoved] at hmove
      cases result with
      | error failure => exact hmove
      | ok _ =>
          have hforward : (moved.rebindForwards os staged.forwards).2.bindState = true :=
            bindState_rebindForwards hmove
          simp only
          cases hforwarded : moved.rebindForwards os staged.forwards with
          | mk result forwarded =>
              rw [hforwarded] at hforward
              cases result with
              | error failure => exact hforward
              | ok _ => cases staged.upstream <;> exact hforward

theorem bindState_finish (h : state.bindState = true) :
    (state.finish os moment outcome).2.bindState = true := by
  cases hload : state.load with
  | none =>
      simp only [finish, hload]
      exact h
  | some load =>
      by_cases hviable : Viable load outcome
      · obtain ⟨view, hview, _⟩ := finish_viable os moment hload hviable
        rw [hview]
        have hidle : ({ state with load := none } : DaemonState).bindState = true := h
        exact bindState_commit hidle
      · obtain ⟨view, _, hview⟩ := finish_discarded os moment hload hviable
        rw [hview]
        exact h

variable [External]

theorem bindState_handle (h : state.bindState = true) :
    (state.handle os moment command reply).2.bindState = true := by
  cases hload : state.load with
  | some load =>
      by_cases hid : command.load? = some (some load.id)
      · rw [handle_staged hload hid]
        exact h
      · obtain ⟨response, hsame, _⟩ := handle_elsewhere os moment reply hload hid
        rw [hsame]
        exact h
  | none =>
      rcases handle_idle os moment command reply hload with
        ⟨response, after, hafter, hanswered⟩ | ⟨script, hscript⟩
      · rw [hafter]
        rcases hanswered with
          rfl | ⟨rules, rfl⟩ | ⟨upstreams, rfl⟩ | ⟨listen, rfl⟩ | ⟨forwards, rfl⟩
        · exact h
        · exact h
        · exact h
        · exact bindState_rebind h
        · exact bindState_rebindForwards h
      · rw [hscript]
        exact h

/-- Whatever is asked of a daemon, it holds its listeners. -/
theorem bindState_of_reachable {initFile : String} {listen : Listen} {hold : ℕ} {now : ℤ}
    {start : DaemonState} (hspawn : spawn os initFile listen hold now = .ok start)
    (h : (task os).Reachable start state) : state.bindState = true := by
  have hstart : start.bindState = true := by
    unfold spawn at hspawn
    cases hbind : Frontends.bind os listen with
    | mk result calls =>
        cases result with
        | error failure => simp [hbind] at hspawn
        | ok frontends =>
            obtain ⟨http, socks, rfl, rfl⟩ := frontends_of_bind hbind
            simp only [hbind, Except.ok.injEq] at hspawn
            subst hspawn
            rfl
  refine System.invariant (I := fun state => state.bindState = true) hstart ?_ h
  rintro s (⟨moment, command, reply⟩ | ⟨moment, outcome⟩) s' hs ⟨⟩
  · exact bindState_handle hs
  · exact bindState_finish hs

end bindState

/-! ### What the checks add up to -/

section doctor

variable {room : Room} {state : DaemonState}

/-- A finding, as it is reported. -/
def shown (finding : Finding) : CheckView :=
  ⟨finding.check.name, finding.outcome.isOk, finding.detail⟩

theorem checks_findings : (state.findings room).map Finding.check =
    [.daemonReachable, .portsBound, .initFile, .lastLoad, .logWritable, .systemProxy,
      .upstreamReachable] := by
  simp [findings]

theorem distinct_findings : ((state.findings room).map Finding.check).Nodup := by
  rw [checks_findings]
  decide

/-- The findings are reported in the order of the checks. -/
theorem doctor_eq : state.doctor room = ([daemonReachable room.socketFile,
    portsBound state.listen state.forwards state.bindState,
    systemProxy room.reading state.listen room.service,
    upstreamReachable room.reach state.upstream.val room.cells,
    Doctor.initFile room.metadata state.initFile,
    Doctor.lastLoad room.format state.lastLoad,
    logWritable room.metadata room.logFile room.logDir].map shown) := by
  have hview {check : Check} {finding : Finding} (hcheck : finding.check = check)
      (hmem : finding ∈ state.findings room) :
      view check (state.findings room) = shown finding :=
    hcheck ▸ view_of_mem distinct_findings hmem
  have hdaemon := hview (@check_daemonReachable room.socketFile) (by simp [findings])
  have hports := hview (@check_portsBound state.listen state.forwards state.bindState)
    (by simp [findings])
  have hproxy := hview (@check_systemProxy state.listen room.reading room.service)
    (by simp [findings])
  have hupstream := hview (@check_upstreamReachable room.reach state.upstream.val room.cells)
    (by simp [findings])
  have hinit := hview (@check_initFile room.metadata state.initFile) (by simp [findings])
  have hload := hview (@check_lastLoad room.format state.lastLoad) (by simp [findings])
  have hlog := hview (@check_logWritable room.metadata room.logFile room.logDir)
    (by simp [findings])
  simp only [doctor, Doctor.report, checks, List.map_cons, List.map_nil, hdaemon, hports, hproxy,
    hupstream, hinit, hload, hlog]

/-- Everything but the upstreams is in order. -/
structure InOrder (room : Room) (state : DaemonState) : Prop where
  pointed : Pointed room.reading state.listen
  executable : Executable room.metadata state.initFile
  committed : state.recorded = some .ok
  writable : Writable room.metadata room.logDir

theorem isOk_iff {outcome : Settings.Outcome} : outcome.isOk = true ↔ outcome = .passed := by
  cases outcome <;> simp [Settings.Outcome.isOk]

theorem isOk_eq_false {outcome : Settings.Outcome} :
    outcome.isOk = false ↔ ¬outcome = .passed := by
  cases outcome <;> simp [Settings.Outcome.isOk]

theorem exit_success (hbound : state.bindState = true) :
    exitOf (state.doctor room) = .success ↔
      InOrder room state ∧ SomeAnswers room.reach state.upstream.val := by
  rw [exitOf_eq_success, doctor_eq, List.forall_mem_map]
  simp only [shown, isOk_iff, List.forall_mem_cons, systemProxy_passed, portsBound_passed,
    upstreamReachable_passed, initFile_passed, lastLoad_passed, logWritable_passed]
  constructor
  · rintro ⟨_, _, hproxy, hupstream, hinit, hload, hlog, _⟩
    exact ⟨⟨hproxy, hinit, hload, hlog⟩, hupstream⟩
  · rintro ⟨⟨hproxy, hinit, hload, hlog⟩, hupstream⟩
    exact ⟨rfl, hbound, hproxy, hupstream, hinit, hload, hlog, by simp⟩

/-- No other check goes by the name of the one about the upstreams. -/
theorem name_eq_upstreamReachable {check : Check} :
    check.name = Check.upstreamReachable.name ↔ check = .upstreamReachable := by
  cases check <;> decide

theorem exit_upstreamDown (hbound : state.bindState = true) :
    exitOf (state.doctor room) = .upstreamDown ↔
      InOrder room state ∧ ¬SomeAnswers room.reach state.upstream.val := by
  have hsome : (∃ check ∈ state.doctor room, check.ok = false) ↔
      ¬exitOf (state.doctor room) = .success := by
    rw [exitOf_eq_success]
    push Not
    simp only [ne_eq, Bool.not_eq_true]
  have honly : (∀ check ∈ state.doctor room, check.ok = false →
      check.name = Check.upstreamReachable.name) ↔ InOrder room state := by
    rw [doctor_eq, List.forall_mem_map]
    simp only [shown, isOk_eq_false, name_eq_upstreamReachable, List.forall_mem_cons,
      check_daemonReachable, check_portsBound, check_systemProxy, check_upstreamReachable,
      check_initFile, check_lastLoad, check_logWritable, reduceCtorEq, imp_false, not_not,
      systemProxy_passed, portsBound_passed, initFile_passed, lastLoad_passed,
      logWritable_passed]
    constructor
    · rintro ⟨_, _, hproxy, _, hinit, hload, hlog, _⟩
      exact ⟨hproxy, hinit, hload, hlog⟩
    · rintro ⟨hproxy, hinit, hload, hlog⟩
      exact ⟨rfl, hbound, hproxy, fun _ => trivial, hinit, hload, hlog, by simp⟩
  rw [exitOf_eq_upstreamDown, hsome, honly, exit_success hbound]
  tauto

end doctor

/-! ### How the last run ended -/

section last

variable [External] {os : Os} {start state after : DaemonState} {event : Event}
  {events : List Event}

/-- The event ends a run. -/
def Ends (state : DaemonState) (event : Event) : Prop :=
  state.load.isSome ∧ ¬event.IsRequest

/-- The event ends a run, and makes what it staged the configuration. -/
def Commits (os : Os) (state : DaemonState) (event : Event) : Prop :=
  ∃ load moment outcome, state.load = some load ∧ event = .finished moment outcome ∧
    Viable load outcome ∧
    (({ state with load := none } : DaemonState).commit os moment.now load.staged).1 = .ok ()

/-- The last run that ended in a schedule committed. -/
def LastCommitted (os : Os) (start : DaemonState) (events : List Event) : Prop :=
  ∃ earlier event later before after, events = earlier ++ event :: later ∧
    (task os).run start earlier = some before ∧ (task os).step before event = some after ∧
    Commits os before event ∧
    ∀ s e s', (task os).Takes after later s e s' → ¬Ends s e

omit [External] in
theorem Commits.ends (h : Commits os state event) : Ends state event := by
  obtain ⟨load, moment, outcome, hload, rfl, _⟩ := h
  refine ⟨by rw [hload]; rfl, ?_⟩
  rintro ⟨_, _, _, ⟨⟩⟩

theorem lastCommitted_snoc (hrun : (task os).run start events = some state)
    (hstep : (task os).step state event = some after) :
    LastCommitted os start (events ++ [event]) ↔
      Commits os state event ∨ LastCommitted os start events ∧ ¬Ends state event := by
  constructor
  · rintro ⟨earlier, ending, later, before, ended, hsplit, hbefore, hended, hcommits, hlater⟩
    rcases List.eq_nil_or_concat later with rfl | ⟨later, last, rfl⟩
    · obtain ⟨rfl, hlast⟩ := List.append_inj' hsplit rfl
      obtain rfl : event = ending := List.head_eq_of_cons_eq hlast
      obtain rfl : state = before := Option.some.inj (hrun.symm.trans hbefore)
      exact Or.inl hcommits
    · have hlonger : events ++ [event] = (earlier ++ ending :: later) ++ [last] := by
        simpa using hsplit
      obtain ⟨rfl, hlast⟩ := List.append_inj' hlonger rfl
      obtain rfl : event = last := List.head_eq_of_cons_eq hlast
      have hreached : (task os).run ended later = some state := by
        rw [System.run_append, hbefore, Option.bind_some, System.run_cons, hended,
          Option.bind_some] at hrun
        exact hrun
      refine Or.inr ⟨⟨earlier, ending, later, before, ended, rfl, hbefore, hended, hcommits,
        ?_⟩, ?_⟩
      · intro s e s' htakes
        exact hlater s e s' (by simpa using htakes.append [event])
      · exact hlater state event after (by simpa using System.Takes.last hreached hstep)
  · rintro (hcommits | ⟨⟨earlier, ending, later, before, ended, rfl, hbefore, hended, hcommits,
      hlater⟩, hends⟩)
    · refine ⟨events, event, [], state, after, rfl, hrun, hstep, hcommits, ?_⟩
      intro s e s' htakes
      exact absurd htakes.mem (by simp)
    · refine ⟨earlier, ending, later ++ [event], before, ended, by simp, hbefore, hended,
        hcommits, ?_⟩
      intro s e s' htakes
      rcases htakes.of_snoc with hbefore' | ⟨rfl, hreached⟩
      · exact hlater s e s' hbefore'
      · have hsame : (task os).run start (earlier ++ ending :: later) = some s := by
          rw [System.run_append, hbefore, Option.bind_some, System.run_cons, hended,
            Option.bind_some, hreached]
        obtain rfl : state = s := Option.some.inj (hrun.symm.trans hsame)
        exact hends

omit [External] in
theorem lastLoad_rebind {listen : Listen} :
    (state.rebind os listen).2.lastLoad = state.lastLoad := by
  unfold rebind
  split <;> rfl

omit [External] in
theorem lastLoad_rebindForwards {forwards : Forwards} :
    (state.rebindForwards os forwards).2.lastLoad = state.lastLoad := by
  unfold rebindForwards
  split <;> rfl

/-- No request touches the record of the last run. -/
theorem lastLoad_handle {moment : Moment} {command : Command} {reply : ℕ} :
    (state.handle os moment command reply).2.lastLoad = state.lastLoad := by
  cases hload : state.load with
  | some load =>
      obtain ⟨staged, hstaged⟩ := handle_inFlight os moment command reply hload
      rw [hstaged]
  | none =>
      rcases handle_idle os moment command reply hload with
        ⟨response, after, hafter, hanswered⟩ | ⟨script, hscript⟩
      · rw [hafter]
        rcases hanswered with rfl | ⟨rules, rfl⟩ | ⟨upstreams, rfl⟩ | ⟨listen, rfl⟩ |
          ⟨forwards, rfl⟩
        · rfl
        · rfl
        · rfl
        · exact lastLoad_rebind
        · exact lastLoad_rebindForwards
      · rw [hscript]
        rfl

/-- Only the end of a run changes what is recorded, to whether it committed. -/
theorem recorded_step (hstep : (task os).step state event = some after) :
    recorded after = some .ok ↔
      Commits os state event ∨ recorded state = some .ok ∧ ¬Ends state event := by
  have hkept (hends : ¬Ends state event) (hsame : after.lastLoad = state.lastLoad) :
      recorded after = some .ok ↔
        Commits os state event ∨ recorded state = some .ok ∧ ¬Ends state event := by
    have hcommits : ¬Commits os state event := fun h => hends h.ends
    unfold recorded
    rw [hsame]
    tauto
  rcases event with ⟨moment, command, reply⟩ | ⟨moment, outcome⟩
  · obtain rfl := Option.some.inj hstep
    exact hkept (fun h => h.2 ⟨moment, command, reply, rfl⟩) lastLoad_handle
  · obtain rfl := Option.some.inj hstep
    cases hload : state.load with
    | none =>
        refine hkept (fun h => ?_) ?_
        · have := h.1
          simp [hload] at this
        · simp only [finish, hload]
    | some load =>
        have hends : Ends state (.finished moment outcome) := by
          refine ⟨by rw [hload]; rfl, ?_⟩
          rintro ⟨_, _, _, ⟨⟩⟩
        have hiff : recorded (state.finish os moment outcome).2 = some .ok ↔
            Commits os state (.finished moment outcome) := by
          by_cases hviable : Viable load outcome
          · obtain ⟨view, hview, hok⟩ := finish_viable os moment hload hviable
            rw [hview]
            have hview' : view.outcome = .ok ↔ Commits os state (.finished moment outcome) := by
              rw [hok]
              constructor
              · intro hcommit
                exact ⟨load, moment, outcome, hload, rfl, hviable, hcommit⟩
              · rintro ⟨load', _, _, hload', ⟨⟩, _, hcommit⟩
                obtain rfl : load = load' := Option.some.inj (hload.symm.trans hload')
                exact hcommit
            rw [← hview']
            simp [recorded]
          · obtain ⟨view, hne, hview⟩ := finish_discarded os moment hload hviable
            rw [hview]
            have hcommits : ¬Commits os state (.finished moment outcome) := by
              rintro ⟨load', _, _, hload', ⟨⟩, hviable', _⟩
              obtain rfl : load = load' := Option.some.inj (hload.symm.trans hload')
              exact hviable hviable'
            simp [recorded, hne, hcommits]
        rw [hiff]
        tauto

/-- The record is of the last run that ended. -/
theorem recorded_iff (hstart : recorded start = none)
    (hrun : (task os).run start events = some state) :
    recorded state = some .ok ↔ LastCommitted os start events := by
  induction events using List.reverseRecOn generalizing state with
  | nil =>
      obtain rfl : start = state := by simpa using hrun
      rw [hstart]
      constructor
      · rintro ⟨⟩
      · rintro ⟨earlier, event, later, _, _, hsplit, _⟩
        simp at hsplit
  | append_singleton events event ih =>
      obtain ⟨before, hbefore, hlast⟩ := System.run_snoc_eq_some.mp hrun
      rw [recorded_step hlast, lastCommitted_snoc hbefore hlast, ih hbefore]

/-- **What `doctor` says, and exits with.** A daemon that was started over its
listeners holds them whatever it was asked since. In whatever order it has found
things, it reports the seven checks in one order, passes the check of its ports and
names there what its listeners hold. `doctor` exits zero when an upstream answers and
the rest is in order, with a code of its own when only no upstream answers, and the
last load is in order when the last run that ended committed. -/
theorem diagnosed {initFile : String} {listen : Listen} {hold : ℕ} {now : ℤ} {room : Room}
    {found : List Finding} (hspawn : spawn os initFile listen hold now = .ok start)
    (hrun : (task os).run start events = some state)
    (hfound : found.Perm (state.findings room)) :
    (Doctor.report found).map CheckView.name = checks.map Check.name ∧
      (∃ bound, state.frontends = .bound bound ∧
        shown (portsBound bound.listen bound.forwardsHeld true) ∈ Doctor.report found) ∧
      ((diagnose (.ok (.doctor (Doctor.report found)))).2 = .success ↔
        InOrder room state ∧ SomeAnswers room.reach state.upstream.val) ∧
      ((diagnose (.ok (.doctor (Doctor.report found)))).2 = .upstreamDown ↔
        InOrder room state ∧ ¬SomeAnswers room.reach state.upstream.val) ∧
      (recorded state = some .ok ↔ LastCommitted os start events) := by
  have hstart : Started os start := ⟨initFile, listen, 0, hold, now, Or.inr hspawn⟩
  have hreach : (task os).Reachable start state := ⟨events, hrun⟩
  have hheld : state.bindState = true := bindState_of_reachable hspawn hreach
  obtain ⟨bound, hbound⟩ := bound_of_bindState hheld
  have hconsistent := consistent_of_reachable hstart hreach
  have hreport : Doctor.report found = state.doctor room :=
    (report_perm distinct_findings hfound.symm).symm
  have hnone : recorded start = none := by
    unfold spawn at hspawn
    split at hspawn
    · cases hspawn
    · cases hspawn
      rfl
  refine ⟨names_report, ⟨bound, hbound, ?_⟩, ?_, ?_, recorded_iff hnone hrun⟩
  · rw [hreport, doctor_eq, ← hconsistent.listen bound hbound,
      ← hconsistent.forwards bound hbound, hheld]
    simp
  · rw [hreport]
    exact exit_success hheld
  · rw [hreport]
    exact exit_upstreamDown hheld

end last

/-- Files that can be run, directories that can be written into, settings that show
the front ends where they are until they are moved, and upstreams that answer. -/
def wellKept : Room where
  socketFile := "nhop.sock"
  logFile := "state/nhop.log"
  logDir := some "state"
  metadata path := some ⟨path = "init", path = "state", 0o755⟩
  service := ⟨"Wi-Fi"⟩
  reading := .ok ⟨some ⟨"127.0.0.1", 7890⟩, some ⟨"127.0.0.1", 7890⟩, some ⟨"127.0.0.1", 7891⟩⟩
  reach _ := .answered
  cells := Cells.empty ⟨⟨""⟩, .down, 0⟩
  format _ := ""

/-- A daemon that has loaded a script without commands is in order, but for the upstream
it has none of. -/
theorem diagnosed_wellKept : ∃ state,
    (@task External.ascii willing).run fresh [.request anyMoment .on 0,
      .finished anyMoment .succeeded] = some state ∧
    (diagnose (.ok (.doctor (Doctor.report (state.findings wellKept))))).2 = .upstreamDown := by
  refine ⟨_, rfl, ?_⟩
  obtain ⟨_, _, _, hdown, _⟩ := @diagnosed External.ascii willing fresh _
    [.request anyMoment .on 0, .finished anyMoment .succeeded] "init" defaultListen 0 0 wellKept
    _ rfl rfl (List.Perm.refl _)
  refine hdown.mpr ⟨⟨?_, ?_, rfl, ?_⟩, ?_⟩
  · refine ⟨_, rfl, ⟨_, rfl, ?_⟩, ⟨_, rfl, ?_⟩, ⟨_, rfl, ?_⟩⟩
    · decide +kernel
    · decide +kernel
    · decide +kernel
  · exact ⟨_, rfl, by decide, by decide⟩
  · exact ⟨_, _, rfl, rfl, by decide, by decide⟩
  · rintro ⟨entry, hmem, _⟩
    exact absurd hmem List.not_mem_nil

end DaemonState

end Nhop.Daemon
