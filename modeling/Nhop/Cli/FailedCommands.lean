import Nhop.Cli.Invocations

/-!
A failed command fails its run, as long as every step is told.

A run is lost once it has rejected a command, and stays lost: the answer is not
forgotten while the run is in flight, and at its end it decides. So it is enough
that a client that exits non-zero belongs to a lost run, which is what each step is
shown to keep (`Shell.Inv.step`).
-/

namespace Nhop.Cli

open Foundation Ipc Rules Proxy Upstream Daemon

namespace Shell

/-! ### A lost run stays lost -/

/-- What a client has come to is answered for: its command carries the id of its
run, and if it failed the run is lost. -/
def Accounted (s : Shell) (client : Client) : Prop :=
  match client.phase with
  | .asking command => command.load? = some (some client.run.id)
  | .refused _ => True
  | .exited exit => exit = .success ∨ s.Doomed client.run

section doomed

variable [External]

/-- The runs on record are over, those lost left things as they were, and every
client is answered for. -/
structure Inv (s : Shell) : Prop where
  serve : s.serve.Inv
  past : ∀ ended ∈ s.ended, ended.run.turn < s.serve.finished.length
  kept : ∀ ended ∈ s.ended, ended.Lost → ended.Kept
  accounted : ∀ client ∈ s.clients, s.Accounted client

theorem inv_of {os : Os} {start : DaemonState} (h : DaemonState.Started os start) :
    (of start).Inv where
  serve := Serve.inv_of h
  past := by simp [of]
  kept := by simp [of]
  accounted := by simp [of]

omit [External] in
theorem turn_of_current {s : Serve} {run : Run} (h : current s = some run) :
    s.state.inFlight = some run.id ∧ s.finished.length = run.turn := by
  obtain ⟨id, hflight, rfl⟩ := Option.map_eq_some_iff.mp h
  exact ⟨hflight, rfl⟩

theorem Inv.failsRuns {s : Shell} (h : s.Inv) : s.FailsRuns := by
  intro client hclient exit hphase hfailed ended hended hturn
  have haccounted := h.accounted client hclient
  rw [Accounted, hphase] at haccounted
  have hdoomed : s.Doomed client.run := haccounted.resolve_left hfailed
  -- a run on record is not in flight
  have hpast := h.past ended hended
  rcases hdoomed with ⟨hflight, _⟩ | ⟨_, hlost⟩
  · have hcurrent := turn_of_current hflight
    omega
  · exact h.kept ended hended (hlost ended hended hturn)

omit [External] in
theorem Accounted.mono {s s' : Shell} {client : Client} (h : s.Accounted client)
    (hdoomed : ∀ run, s.Doomed run → s'.Doomed run) : s'.Accounted client := by
  unfold Accounted at h ⊢
  split
  · next hphase => simpa [hphase] using h
  · trivial
  · next hphase =>
      rw [hphase] at h
      exact h.imp_right (hdoomed client.run)

variable {os : Os} {moment : Moment} {command : Command} {reply : ℕ}
variable {rest : List (Command × ℕ)} {run : Run}

theorem takeOne_finished (os : Os) (moment : Moment) (s : Serve) (command : Command) (reply : ℕ)
    (rest : List (Command × ℕ)) :
    (s.takeOne os moment command reply rest).finished = s.finished := by
  unfold Serve.takeOne
  split <;> rfl

theorem takeOne_marked {s : Serve} (hcurrent : current s = some run)
    (hmarked : ¬Ledger.NoneRejected s.taken) :
    current (s.takeOne os moment command reply rest) = some run ∧
      ¬Ledger.NoneRejected (s.takeOne os moment command reply rest).taken := by
  obtain ⟨hflight, hturn⟩ := turn_of_current hcurrent
  obtain ⟨load, hload, hload'⟩ := Option.map_eq_some_iff.mp hflight
  by_cases hid : command.load? = some (some load.id)
  · rw [Serve.takeOne_own hload hid]
    refine ⟨?_, ?_⟩
    · show some (⟨s.finished.length, load.id⟩ : Run) = some run
      rw [hload', hturn]
    · intro hnone
      exact hmarked (Ledger.noneRejected_snoc.mp hnone).1
  · rw [Serve.takeOne_elsewhere hload hid]
    exact ⟨hcurrent, hmarked⟩

theorem Doomed.takeOne {s : Shell} (h : s.Doomed run) (clients : List Client) :
    Doomed ⟨s.serve.takeOne os moment command reply rest, clients, s.ended⟩ run := by
  rcases h with ⟨hcurrent, hmarked⟩ | ⟨hpast, hlost⟩
  · exact Or.inl (takeOne_marked hcurrent hmarked)
  · refine Or.inr ⟨?_, hlost⟩
    rw [takeOne_finished]
    exact hpast

theorem ends_settle {s : Serve} {s' : Serve} {id : LoadId} {outcome : ScriptOutcome}
    {more : List (LoadId × ScriptOutcome)} (hinv : s.Inv)
    (hhead : s.completions = (id, outcome) :: more) :
    ends s s' (.settle moment) =
      [⟨⟨s.finished.length, id⟩, outcome, s.taken, s'.state.recorded, s.state.serving,
        s'.state.serving⟩] := by
  obtain ⟨_, _, hflight⟩ := hinv.completion hhead
  simp only [ends, hhead, current, hflight, Option.map_some, Option.toList_some, List.map_cons,
    List.map_nil]

theorem kept_of_lost {s : Serve} {id : LoadId} {outcome : ScriptOutcome}
    {more : List (LoadId × ScriptOutcome)} (hinv : s.Inv)
    (hhead : s.completions = (id, outcome) :: more)
    (hlost : ¬(outcome = .succeeded ∧ Ledger.NoneRejected s.taken)) :
    (s.state.finish os moment outcome).2.recorded ≠ some .ok ∧
      (s.state.finish os moment outcome).2.serving = s.state.serving := by
  obtain ⟨load, hload, _⟩ := Option.map_eq_some_iff.mp (hinv.completion hhead).2.2
  exact Serve.finish_uncommitted hload fun hviable => hlost ((hinv.viable_iff hload).mp hviable)

/-- A step that no client takes keeps a lost run lost. -/
theorem Doomed.around {s : Shell} {act : Act} {serve : Serve} (hinv : s.Inv)
    (hstep : Serve.step os s.serve act = some serve) (h : s.Doomed run) :
    Doomed ⟨serve, s.clients, s.ended ++ ends s.serve serve act⟩ run := by
  cases act with
  | send command reply =>
      obtain rfl := Option.some.inj hstep
      simpa [ends, Doomed, current] using h
  | take moment =>
      cases hinbox : s.serve.inbox with
      | nil => simp [Serve.step, hinbox] at hstep
      | cons request rest =>
          simp only [Serve.step, hinbox, Option.some.injEq] at hstep
          subst hstep
          simpa only [ends, List.append_nil] using h.takeOne s.clients
  | exit other outcome =>
      simp only [Serve.step, Option.ite_none_right_eq_some, Option.some.injEq] at hstep
      obtain ⟨_, rfl⟩ := hstep
      simpa [ends, Doomed, current] using h
  | settle moment =>
      cases hhead : s.serve.completions with
      | nil => simp [Serve.step, hhead] at hstep
      | cons head more =>
          obtain ⟨settled, outcome⟩ := head
          obtain ⟨_, _, hflight⟩ := hinv.serve.completion hhead
          rw [ends_settle hinv.serve hhead]
          simp only [Serve.step, hhead, Option.some.injEq] at hstep
          subst hstep
          have hlength : (s.serve.finished ++ s.serve.state.inFlight.toList).length =
              s.serve.finished.length + 1 := by
            rw [hflight, Option.toList_some, List.length_append, List.length_singleton]
          -- from here on the run is past, whether it was the one that ended or an earlier one
          refine Or.inr ⟨?_, ?_⟩
          · show run.turn < (s.serve.finished ++ s.serve.state.inFlight.toList).length
            rcases h with ⟨hcurrent, _⟩ | ⟨hpast, _⟩
            · have hturn := (turn_of_current hcurrent).2
              omega
            · omega
          · intro ended hended hturn
            rcases List.mem_append.mp hended with hold | hnew
            · -- a run that ended earlier is not the one in flight
              rcases h with ⟨hcurrent, _⟩ | ⟨_, hlost⟩
              · have hpast := hinv.past ended hold
                have hcurrent := (turn_of_current hcurrent).2
                omega
              · exact hlost ended hold hturn
            · obtain rfl := List.mem_singleton.mp hnew
              have hturn : s.serve.finished.length = run.turn := hturn
              rcases h with ⟨_, hmarked⟩ | ⟨hpast, _⟩
              · exact fun hviable => hmarked hviable.2
              · omega

/-! ### One exchange -/

theorem taking_eq_some {s : Serve} {took : Response × Serve}
    (h : taking os moment s command = some took) :
    (s.state.handle os moment command 0).1 = some took.1 ∧
      took.2 = s.takeOne os moment command 0 s.inbox := by
  unfold taking at h
  split at h
  · next hhandle =>
      cases h
      rw [hhandle]
      exact ⟨rfl, rfl⟩
  · cases h

theorem taking_own {s : Serve} {load : InFlight} {took : Response × Serve}
    (hload : s.state.load = some load) (hid : command.load? = some (some load.id))
    (h : taking os moment s command = some took) :
    took.1 = (load.staged.take command).1 ∧ current took.2 = current s ∧
      took.2.taken = s.taken ++ [⟨command, took.1⟩] := by
  obtain ⟨hresponse, hserve⟩ := taking_eq_some h
  rw [DaemonState.handle_staged hload hid] at hresponse
  have hanswer : (load.staged.take command).1 = took.1 := Option.some.inj hresponse
  rw [hserve, Serve.takeOne_own hload hid, hanswer]
  refine ⟨rfl, ?_, rfl⟩
  rw [current, current, DaemonState.inFlight, DaemonState.inFlight, hload]
  rfl

variable [Wire]

/-- An exchange leaves the daemon alone or makes it take the command. -/
theorem converse_eq_some {s : Serve} {conversation : Conversation}
    {heard : Except Unreachable Response × Serve}
    (h : converse os moment s command conversation = some heard) :
    heard.2 = s ∨ heard.2 = s.takeOne os moment command 0 s.inbox := by
  cases conversation with
  | unsent failure =>
      obtain rfl := Option.some.inj h
      exact Or.inl rfl
  | answered =>
      cases hhear : hear (wire command) with
      | whole =>
          simp only [converse, hhear] at h
          obtain ⟨took, htook, rfl⟩ := Option.map_eq_some_iff.mp h
          exact Or.inr (taking_eq_some htook).2
      | _ =>
          simp only [converse, hhear, Option.some.injEq] at h
          subst h
          exact Or.inl rfl
  | unheard failure =>
      cases hhear : hear (wire command) with
      | whole =>
          simp only [converse, hhear] at h
          obtain ⟨took, htook, rfl⟩ := Option.map_eq_some_iff.mp h
          exact Or.inr (taking_eq_some htook).2
      | _ =>
          simp only [converse, hhear, Option.some.injEq] at h
          subst h
          exact Or.inl rfl

theorem Doomed.converse {s : Shell} {conversation : Conversation}
    {heard : Except Unreachable Response × Serve} (h : s.Doomed run)
    (clients : List Client)
    (hheard : converse os moment s.serve command conversation = some heard) :
    Doomed ⟨heard.2, clients, s.ended⟩ run := by
  rcases converse_eq_some hheard with hsame | htook
  · rw [hsame]
    exact h
  · rw [htook]
    exact h.takeOne clients

omit [Wire] in
theorem doomed_of_rejected {s : Serve} {load : InFlight} {took : Response × Serve}
    {clients : List Client} {ended : List Ended} (hcurrent : current s = some run)
    (hload : s.state.load = some load) (hid : command.load? = some (some load.id))
    (h : taking os moment s command = some took) (herr : took.1.isErr = true) :
    Doomed ⟨took.2, clients, ended⟩ run := by
  obtain ⟨_, hsame, htaken⟩ := taking_own hload hid h
  refine Or.inl ⟨hsame.trans hcurrent, ?_⟩
  rw [htaken]
  intro hnone
  have haccepted := (Ledger.noneRejected_snoc.mp hnone).2
  rw [herr] at haccepted
  cases haccepted

omit [External] [Wire] in
theorem accounted_after {s : Shell} {response : Response} (command : Command)
    (h : response.isErr = true → s.Doomed run) :
    s.Accounted ⟨run, .after command (.ok response)⟩ := by
  have hexited : s.Accounted ⟨run, .exited (render response)⟩ := by
    cases herr : response.isErr with
    | true => exact Or.inr (h herr)
    | false => exact Or.inl ((render_eq_success_iff response).mpr herr)
  rcases Phase.after_ok command response with hafter | hafter
  · rw [hafter]
    exact hexited
  · rw [hafter]
    trivial

omit [External] [Wire] in
theorem accounted_of_doomed {s : Shell} (command : Command)
    (answer : Except Unreachable Response) (h : s.Doomed run) :
    s.Accounted ⟨run, .after command answer⟩ := by
  cases answer with
  | error failure => exact Or.inr h
  | ok response => exact accounted_after command fun _ => h

omit [External] [Wire] in
theorem accounted_oversized (s : Shell) (hlist : isList command = true) :
    s.Accounted ⟨run, .after command (.ok oversized)⟩ := by
  unfold isList at hlist
  split at hlist
  · trivial
  · cases hlist

/-- A client whose command reaches its run is answered for. -/
theorem Reaches.accounted {s : Shell} {conversation : Conversation}
    {heard : Except Unreachable Response × Serve} (clients : List Client)
    (hid : command.load? = some (some run.id)) (hreaches : s.Reaches run command conversation)
    (h : converse os moment s.serve command conversation = some heard) :
    Accounted ⟨heard.2, clients, s.ended⟩ ⟨run, .after command heard.1⟩ := by
  cases conversation with
  | unsent failure => exact hreaches.elim
  | answered =>
      rcases hreaches with ⟨hcurrent, hfits⟩ | ⟨hlist, hlong, hwhole⟩
      · obtain ⟨load, hload, hload'⟩ := Option.map_eq_some_iff.mp (turn_of_current hcurrent).1
        rw [← hload'] at hid
        have hhear : hear (wire command) = .whole := hear_whole hfits
        simp only [converse, hhear] at h
        obtain ⟨took, htook, rfl⟩ := Option.map_eq_some_iff.mp h
        exact accounted_after command fun herr =>
          doomed_of_rejected hcurrent hload hid htook herr
      · have hhear : hear (wire command) = .oversized :=
          hear_oversized (Wire.oneLine command) hlong hwhole
        simp only [converse, hhear, Option.some.injEq] at h
        subst h
        exact accounted_oversized _ hlist
  | unheard failure =>
      obtain ⟨hcurrent, hfits, hrejects⟩ := hreaches
      obtain ⟨load, hload, hload'⟩ := Option.map_eq_some_iff.mp (turn_of_current hcurrent).1
      rw [← hload'] at hid
      have hhear : hear (wire command) = .whole := hear_whole hfits
      simp only [converse, hhear] at h
      obtain ⟨took, htook, rfl⟩ := Option.map_eq_some_iff.mp h
      rw [rejects, hload, Option.any_some] at hrejects
      refine Or.inr (doomed_of_rejected hcurrent hload hid htook ?_)
      rw [(taking_own hload hid htook).1]
      exact hrejects

omit [Wire] in
theorem take_setUpstream_isErr {addr : UpstreamAddr} {failure : UnusableUpstreams}
    (staging : Staging) (load : Option LoadId) (h : Upstreams.parse addr [] = .error failure) :
    (staging.take (.setUpstream addr load)).1.isErr = true := by
  have hset : (staging.setUpstream addr []).1 = .error failure := by
    unfold Staging.setUpstream
    rw [h]
  unfold Staging.take replied
  dsimp only
  split
  · next hok =>
      rw [hok] at hset
      cases hset
  · rfl

omit [External] [Wire] in
theorem parse_unreadable : Upstreams.parse ⟨unreadableUpstreamText⟩ [] =
    .error (.invalid ⟨unreadableUpstreamText⟩) := by
  decide +kernel

theorem Follows.doomed {s : Shell} {conversation : Conversation}
    {heard : Except Unreachable Response × Serve} (clients : List Client)
    (hfollows : s.Follows run conversation)
    (h : converse os moment s.serve (.unreadableUpstream run.id) conversation = some heard) :
    Doomed ⟨heard.2, clients, s.ended⟩ run := by
  have htaken : ∀ took, current s.serve = some run →
      taking os moment s.serve (.unreadableUpstream run.id) = some took →
      Doomed ⟨took.2, clients, s.ended⟩ run := by
    intro took hcurrent htook
    obtain ⟨load, hload, hload'⟩ := Option.map_eq_some_iff.mp (turn_of_current hcurrent).1
    have hid := Command.load?_unreadableUpstream run.id
    rw [← hload'] at hid htook
    refine doomed_of_rejected hcurrent hload hid htook ?_
    rw [(taking_own hload hid htook).1]
    exact take_setUpstream_isErr load.staged (some load.id) parse_unreadable
  cases conversation with
  | unsent failure => exact hfollows.elim
  | answered | unheard failure =>
      obtain ⟨hcurrent, hfits⟩ := hfollows
      have hhear : hear (wire (.unreadableUpstream run.id)) = .whole := hear_whole hfits
      simp only [converse, hhear] at h
      obtain ⟨took, htook, rfl⟩ := Option.map_eq_some_iff.mp h
      exact htaken took hcurrent htook

/-! ### Runs of scripts and clients -/

omit [Wire] in
/-- What a client has come to before its first command, if its arguments are read. -/
theorem accounted_phase [Argh] {s : Shell} {invocation : Invocation} {phase : Phase}
    (hphase : invocation.phase? run.id = some phase)
    (htold : readable invocation = true ∨ s.Doomed run) : s.Accounted ⟨run, phase⟩ := by
  unfold Invocation.phase? at hphase
  unfold readable at htold
  split at hphase
  · next hlocated =>
      cases hargs : Argh.fromArgs readers invocation.arguments with
      | ok subcommand =>
          simp only [hargs] at hphase
          obtain ⟨command, hcommand, rfl⟩ := Option.map_eq_some_iff.mp hphase
          exact Subcommand.load?_of_command? hcommand
      | error early =>
          simp only [hargs, Option.some.injEq] at hphase
          subst hphase
          simp only [hargs, hlocated, Bool.true_and] at htold
          refine htold.imp_left fun hasked => ?_
          simp only [hasked, if_true]
  · next hlocated =>
      obtain rfl := Option.some.inj hphase
      simp only [hlocated, Bool.false_and, Bool.false_eq_true, false_or] at htold
      exact Or.inr htold

/-- A client moves on, and the daemon as far as an exchange moves it. -/
theorem Inv.ask {s : Shell} {n : ℕ} {client : Client} {conversation : Conversation}
    {heard : Except Unreachable Response × Serve} (h : s.Inv)
    (hheard : converse os moment s.serve command conversation = some heard)
    (hclient : Accounted ⟨heard.2, s.clients.set n client, s.ended⟩ client) :
    Inv ⟨heard.2, s.clients.set n client, s.ended⟩ := by
  have hserve : heard.2.Inv ∧ heard.2.finished = s.serve.finished := by
    rcases converse_eq_some hheard with hsame | htook
    · rw [hsame]
      exact ⟨h.serve, rfl⟩
    · rw [htook]
      exact ⟨h.serve.take, takeOne_finished ..⟩
  obtain ⟨hinv, hfinished⟩ := hserve
  refine ⟨hinv, ?_, h.kept, ?_⟩
  · intro ended hended
    rw [hfinished]
    exact h.past ended hended
  · intro other hother
    rcases List.mem_or_eq_of_mem_set hother with hold | rfl
    · exact (h.accounted other hold).mono fun _ hdoomed => hdoomed.converse _ hheard
    · exact hclient

omit [Wire] in
theorem Inv.around {s : Shell} {act : Act} {serve : Serve} (h : s.Inv)
    (hstep : Serve.step os s.serve act = some serve) :
    Inv ⟨serve, s.clients, s.ended ++ ends s.serve serve act⟩ := by
  have hinv : serve.Inv := h.serve.step hstep
  have haccounted : ∀ client ∈ s.clients,
      Accounted ⟨serve, s.clients, s.ended ++ ends s.serve serve act⟩ client :=
    fun client hclient => (h.accounted client hclient).mono fun _ => Doomed.around h hstep
  cases act with
  | send command reply =>
      obtain rfl := Option.some.inj hstep
      refine ⟨hinv, ?_, ?_, haccounted⟩
      · simpa [ends] using h.past
      · simpa [ends] using h.kept
  | take moment =>
      cases hinbox : s.serve.inbox with
      | nil => simp [Serve.step, hinbox] at hstep
      | cons request rest =>
          simp only [Serve.step, hinbox, Option.some.injEq] at hstep
          subst hstep
          refine ⟨hinv, ?_, ?_, haccounted⟩
          · simpa [ends, takeOne_finished] using h.past
          · simpa [ends] using h.kept
  | exit id outcome =>
      simp only [Serve.step, Option.ite_none_right_eq_some, Option.some.injEq] at hstep
      obtain ⟨_, rfl⟩ := hstep
      refine ⟨hinv, ?_, ?_, haccounted⟩
      · simpa [ends] using h.past
      · simpa [ends] using h.kept
  | settle moment =>
      cases hhead : s.serve.completions with
      | nil => simp [Serve.step, hhead] at hstep
      | cons head more =>
          obtain ⟨settled, outcome⟩ := head
          obtain ⟨_, _, hflight⟩ := h.serve.completion hhead
          simp only [Serve.step, hhead, Option.some.injEq] at hstep
          subst hstep
          refine ⟨hinv, ?_, ?_, haccounted⟩
          · rw [ends_settle h.serve hhead, hflight, Option.toList_some]
            intro ended hended
            show ended.run.turn < (s.serve.finished ++ [settled]).length
            rw [List.length_append, List.length_singleton]
            rcases List.mem_append.mp hended with hold | hnew
            · exact (h.past ended hold).trans (Nat.lt_succ_self _)
            · obtain rfl := List.mem_singleton.mp hnew
              exact Nat.lt_succ_self _
          · rw [ends_settle h.serve hhead]
            intro ended hended hlost
            rcases List.mem_append.mp hended with hold | hnew
            · exact h.kept ended hold hlost
            · obtain rfl := List.mem_singleton.mp hnew
              exact kept_of_lost h.serve hhead hlost

theorem Inv.step [Argh] {s s' : Shell} {act : ShellAct} (h : s.Inv) (htold : s.Told act)
    (hstep : (system os).step s act = some s') : s'.Inv := by
  have hstep : Shell.step os s act = some s' := hstep
  cases act with
  | around act =>
      obtain ⟨serve, hserve, rfl⟩ := Option.map_eq_some_iff.mp hstep
      exact h.around hserve
  | invoke invocation =>
      unfold Shell.step at hstep
      dsimp only at hstep
      split at hstep
      · cases hstep
      · next id henv =>
          simp only [Option.ite_none_right_eq_some] at hstep
          obtain ⟨_, hstep⟩ := hstep
          obtain ⟨phase, hphase, rfl⟩ := Option.map_eq_some_iff.mp hstep
          refine ⟨h.serve, h.past, h.kept, ?_⟩
          intro client hclient
          rcases List.mem_append.mp hclient with hold | hnew
          · exact (h.accounted client hold).mono fun _ hdoomed => hdoomed
          · obtain rfl := List.mem_singleton.mp hnew
            exact accounted_phase hphase (htold.imp_right fun hdoomed => hdoomed id henv)
  | ask n moment conversation =>
      have hconveyed : s.Conveyed conversation s.clients[n]? := htold
      unfold Shell.step at hstep
      dsimp only at hstep
      split at hstep
      · next run command hclient =>
          rw [hclient] at hconveyed
          obtain ⟨heard, hheard, rfl⟩ := Option.map_eq_some_iff.mp hstep
          have hid : command.load? = some (some run.id) :=
            h.accounted _ (List.mem_of_getElem? hclient)
          apply h.ask hheard
          rcases hconveyed with hdoomed | hreaches
          · exact accounted_of_doomed command heard.1 (hdoomed.converse _ hheard)
          · exact hreaches.accounted _ hid hheard
      · next run exit hclient =>
          rw [hclient] at hconveyed
          obtain ⟨heard, hheard, rfl⟩ := Option.map_eq_some_iff.mp hstep
          apply h.ask hheard
          rcases hconveyed with hdoomed | hfollows
          · exact Or.inr (hdoomed.converse _ hheard)
          · exact Or.inr (hfollows.doomed _ hheard)
      · cases hstep

/-- **A failed command fails its run.** As long as every step is told, a client of
a run that exits non-zero keeps the run from being committed: what served before
the run serves after it. -/
theorem failed_command_fails_run [Argh] {start : DaemonState}
    (hstart : DaemonState.Started os start)
    {acts : List ShellAct} {s : Shell} (hrun : (system os).run (of start) acts = some s)
    (htold : ∀ r act r', (system os).Takes (of start) acts r act r' → r.Told act) :
    s.FailsRuns := by
  have hinv : s.Inv := by
    exact System.invariant_along (I := Inv) (inv_of hstart)
      (fun _ _ _ hinv htold hstep => hinv.step htold hstep) hrun htold
  exact hinv.failsRuns

end doomed

/-! ### Two scripts -/

/-- A script that runs one command, whatever becomes of it, and exits zero. -/
def running (arguments : List String) (exchanges : List ShellAct) : List ShellAct :=
  [.around (.send (.reload none) 0), .around (.take DaemonState.anyMoment),
    .invoke ⟨true, some "1", arguments⟩] ++ exchanges ++
    [.around (.exit ⟨1⟩ .succeeded), .around (.settle DaemonState.anyMoment)]

/-- A rule whose value no port is. -/
def badValue : List ShellAct :=
  running ["require", "port", "http"] [.ask 0 DaemonState.anyMoment .answered]

/-- The daemon rejects it, and the run fails. -/
theorem failed_command_fails_run_badValue : ∃ s : Shell,
    (@system External.ascii Wire.json Argh.plain DaemonState.willing).run
        (of DaemonState.fresh) badValue = some s ∧
      s.clients = [⟨⟨0, ⟨1⟩⟩, .exited .invalidArgs⟩] ∧
      s.ended.map Ended.recorded = [some .failed] ∧ s.FailsRuns := by
  have hseen : ((@system External.ascii Wire.json Argh.plain DaemonState.willing).run
      (of DaemonState.fresh) badValue).map (fun s => (s.clients, s.ended.map Ended.recorded)) =
      some ([⟨⟨0, ⟨1⟩⟩, .exited .invalidArgs⟩], [some .failed]) := by
    decide +kernel
  obtain ⟨s, hrun, hs⟩ := Option.map_eq_some_iff.mp hseen
  obtain ⟨hclients, hended⟩ := Prod.mk.inj hs
  have htold : (@system External.ascii Wire.json Argh.plain DaemonState.willing).every
      (fun s act => decide (@Told External.ascii Wire.json Argh.plain s act))
      (of DaemonState.fresh) badValue = true := by
    decide +kernel
  refine ⟨s, hrun, hclients, hended, ?_⟩
  refine @failed_command_fails_run External.ascii DaemonState.willing Wire.json Argh.plain
    DaemonState.fresh (DaemonState.started_fresh rfl rfl) badValue s hrun ?_
  intro r act r' htakes
  have hmet := htakes.of_every htold
  exact of_decide_eq_true hmet

/-- A rule of a kind there is none of. -/
def badKind : List ShellAct := running ["require", "bogus", "example.com"] []

/-- The client refuses it, the daemon does not hear of it, and the run is
committed. -/
theorem badKind_commits : ¬∀ s : Shell,
    (@system External.ascii Wire.json Argh.plain DaemonState.willing).run
        (of DaemonState.fresh) badKind = some s → s.FailsRuns := by
  have hseen : ((@system External.ascii Wire.json Argh.plain DaemonState.willing).run
      (of DaemonState.fresh) badKind).map
      (fun s => (s.clients, s.ended.map fun ended => (ended.run.turn, ended.outcome, ended.recorded))) =
      some ([⟨⟨0, ⟨1⟩⟩, .exited .invalidArgs⟩], [(0, .succeeded, some .ok)]) := by
    decide +kernel
  obtain ⟨s, hrun, hs⟩ := Option.map_eq_some_iff.mp hseen
  obtain ⟨hclients, hended⟩ := Prod.mk.inj hs
  obtain ⟨ended, hmem, hone⟩ : ∃ ended ∈ s.ended,
      (ended.run.turn, ended.outcome, ended.recorded) = (0, .succeeded, some .ok) := by
    rw [← List.mem_map, hended]
    exact List.mem_singleton_self _
  simp only [Prod.mk.injEq] at hone
  obtain ⟨hturn, _, hrecorded⟩ := hone
  intro hfails
  have hkept : ended.Kept := by
    refine hfails s hrun ⟨⟨0, ⟨1⟩⟩, .exited .invalidArgs⟩ ?_ .invalidArgs rfl Exit.noConfusion
      ended hmem hturn
    rw [hclients]
    exact List.mem_singleton_self _
  exact hkept.1 hrecorded

end Shell

end Nhop.Cli
