import Nhop.Daemon.Clients

/-!
What clients have sent is answered.

Apart from letting clients in, every step there is leaves less to be done: fewer
bytes to be read, or a channel nearer to its reply, or a client nearer to its
answer. So there are only so many of them (`work`), whatever their order. Where
none is left, but for clients to send more or hang up, every command that clients
have sent has been answered once, and every client that was not lost has had its
whole conversation (`requests_settle`).
-/

namespace Nhop.Daemon

open Foundation Ipc
open Cli (lineLimit oversized)

/-- What is left to be done for the client of a connection. -/
def Connection.left (connection : Connection) : ℕ :=
  match connection.phase with
  | .reading => 8 * connection.unread.length + 2
  | .waiting _ _ _ => 8 * connection.unread.length + 4
  | .writing _ _ => 8 * connection.unread.length + 3
  | .refusing => 1
  | .over _ | .lost => 0

/-- The connection has read all there is: its client may send more or hang up. -/
def Connection.Idle (connection : Connection) : Prop :=
  connection.phase = .reading ∧ connection.unread = []

/-- Nothing more is done for the client unless it sends more or hangs up. -/
def Connection.Settled (connection : Connection) : Prop :=
  connection.phase = .lost ∨ connection.Idle ∨ ∃ ending, connection.phase = .over ending

namespace Clients

/-- What is left to be done: a command in the queue may start a script, the end of a
script may start a task, and the task sends a reply. -/
def work (s : Clients) : ℕ :=
  (s.connections.map Connection.left).sum + 5 * s.serve.inbox.length +
    4 * s.serve.scripts.length + 3 * s.serve.completions.length + 2 * s.tasks.length +
    s.replies.length

/-- The step is a client's: it connects, sends more or hangs up. -/
def Outside (s : Clients) : Turn → Prop
  | .accept _ => True
  | .read c _ => ∃ connection, s.connections[c]? = some connection ∧ connection.Idle
  | .task _ | .deliver _ | .hear _ | .write _ _ => False

section settles

variable [External] [Codec] {os : Os} {s s' : Clients} {c : ℕ} {connection after : Connection}

/-- No step can be taken but those of clients. -/
def AtRest (os : Os) (s : Clients) : Prop :=
  ∀ turn, ¬s.Outside turn → (system os).step s turn = none

/-! ### Less to be done -/

omit [External] [Codec] in
theorem work_put (hc : s.connections[c]? = some connection)
    (hless : after.left < connection.left) : (s.put c after).work < s.work := by
  have hsum := @sum_map_set _ Connection.left _ _ _ after hc
  simp only [work, put]
  omega

omit [External] [Codec] in
theorem work_ask [External] (hc : s.connections[c]? = some connection) {rest : Connection}
    {line : String} {command : Command} (hless : 8 * rest.unread.length + 9 < connection.left)
    (hask : s.ask c rest line command = some s') : s'.work < s.work := by
  unfold Clients.ask at hask
  split_ifs at hask
  obtain rfl := Option.some.inj hask
  have hsum := @sum_map_set _ Connection.left _ _ _
    { rest with phase := .waiting s.asks.length line command } hc
  have hleft : Connection.left { rest with phase := .waiting s.asks.length line command } =
      8 * rest.unread.length + 4 := rfl
  simp only [work, List.length_append, List.length_singleton]
  omega

theorem work_read (hc : s.connections[c]? = some connection)
    (hreading : connection.phase = .reading) (hread : s.readOne c connection = some s') :
    s'.work < s.work := by
  have hleft : connection.left = 8 * connection.unread.length + 2 := by
    rw [Connection.left, hreading]
  unfold readOne at hread
  cases hline : readLine connection.unread with
  | none =>
      rw [hline] at hread
      obtain rfl := Option.some.inj hread
      exact work_put hc (by rw [hleft]; exact Nat.succ_pos _)
  | some pair =>
      rw [hline] at hread
      obtain ⟨line, read⟩ := pair
      simp only at hread
      split_ifs at hread with hclosed hlong hblank
      · obtain rfl := Option.some.inj hread
        exact work_put hc (by rw [hleft]; exact Nat.succ_pos _)
      · obtain rfl := Option.some.inj hread
        exact work_put hc (by rw [hleft]; exact Nat.le_add_left _ _)
      all_goals have hshorter := length_drop_lt hline hclosed
      · obtain rfl := Option.some.inj hread
        refine work_put hc ?_
        simp only [Connection.left, hreading]
        omega
      · cases hcommand : Codec.read (trim (String.ofList line)) with
        | error failure =>
            rw [hcommand] at hread
            obtain rfl := Option.some.inj hread
            refine work_put hc ?_
            show 8 * (connection.unread.drop read).length + 3 < connection.left
            omega
        | ok command =>
            rw [hcommand] at hread
            by_cases hsubscribe : command = .subscribe
            · subst hsubscribe
              obtain rfl := Option.some.inj hread
              exact work_put hc (by rw [hleft]; exact Nat.succ_pos _)
            · have hask : s.ask c { connection with unread := connection.unread.drop read }
                  (trim (String.ofList line)) command = some s' := by
                cases command <;> first | exact hread | exact absurd rfl hsubscribe
              refine work_ask hc ?_ hask
              rw [hleft]
              simp only
              omega

omit [External] [Codec] in
theorem work_hear (hc : s.connections[c]? = some connection) {reply : ℕ} {line : String}
    {command : Command} (hphase : connection.phase = .waiting reply line command)
    (hhear : s.hearOne c connection reply line = some s') : s'.work < s.work := by
  unfold hearOne at hhear
  cases hfind : s.replies.find? fun sent => sent.1 == reply with
  | none => simp [hfind] at hhear
  | some sent =>
      rw [hfind] at hhear
      obtain rfl := Option.some.inj hhear
      have hmem := List.mem_of_find?_eq_some hfind
      have hpos := List.length_pos_of_mem hmem
      have hless : (s.put c { connection with phase := .writing line sent.2 }).work < s.work := by
        refine work_put hc ?_
        simp only [Connection.left, hphase]
        omega
      simp only [work, put, List.length_erase_of_mem hmem] at hless ⊢
      omega

omit [External] [Codec] in
theorem work_deliver {reply : ℕ} (hdeliver : s.deliverOne reply = some s') :
    s'.work < s.work := by
  unfold deliverOne at hdeliver
  cases hfind : s.tasks.find? fun answer => answer.1 == reply with
  | none => simp [hfind] at hdeliver
  | some answer =>
      rw [hfind] at hdeliver
      obtain rfl := Option.some.inj hdeliver
      have hmem := List.mem_of_find?_eq_some hfind
      have hpos := List.length_pos_of_mem hmem
      simp only [work, List.length_erase_of_mem hmem, List.length_append, List.length_singleton]
      omega

omit [External] [Codec] in
theorem work_dispatch {serve : Serve} {answers : List (ℕ × Response)}
    (hless : 5 * serve.inbox.length + 4 * serve.scripts.length + 3 * serve.completions.length +
        2 * answers.length <
      5 * s.serve.inbox.length + 4 * s.serve.scripts.length + 3 * s.serve.completions.length) :
    work { s.dispatch answers with serve := serve } < s.work := by
  have hparts := (List.filter_append_perm (fun answer : ℕ × Response =>
    DaemonState.readsProxy answer.2) answers).length_eq
  rw [List.length_append] at hparts
  simp only [work, dispatch, List.length_append]
  omega

omit [Codec] in
/-- A step of the state task, or the end of a script, leaves less to be done. -/
theorem work_task {act : Act} {serve : Serve} (hact : act.isSend = false)
    (hstep : s.serve.step os act = some serve) :
    work { s.dispatch (replied os s.serve act) with serve := serve } < s.work := by
  apply work_dispatch
  cases act with
  | send command reply => cases hact
  | take moment =>
      cases hinbox : s.serve.inbox with
      | nil => simp [Serve.step, hinbox] at hstep
      | cons request rest =>
          obtain ⟨command, reply⟩ := request
          simp only [Serve.step, hinbox, Option.some.injEq] at hstep
          subst hstep
          cases hhandle : s.serve.state.handle os moment command reply with
          | mk answer after =>
              cases answer with
              | some response =>
                  simp [replied, hinbox, Serve.takeOne, hhandle]
                  omega
              | none =>
                  have hone : after.inFlight.toList.length ≤ 1 := by
                    cases after.inFlight <;> simp
                  simp [replied, hinbox, Serve.takeOne, hhandle]
                  omega
  | exit id outcome =>
      simp only [Serve.step, Option.ite_none_right_eq_some, Option.some.injEq] at hstep
      obtain ⟨hmem, rfl⟩ := hstep
      have hpos := List.length_pos_of_mem hmem
      simp only [replied, List.length_nil, List.length_append, List.length_singleton,
        List.length_erase_of_mem hmem]
      omega
  | settle moment =>
      cases hhead : s.serve.completions with
      | nil => simp [Serve.step, hhead] at hstep
      | cons head more =>
          simp only [Serve.step, hhead, Option.some.injEq] at hstep
          subst hstep
          have hone : (s.serve.state.finish os moment head.2).1.toList.length ≤ 1 := by
            cases (s.serve.state.finish os moment head.2).1 <;> simp
          simp only [replied, hhead, List.length_cons]
          omega

/-- **Every step but a new client's leaves less to be done.** -/
theorem work_step {turn : Turn} (hturn : turn.isAccept = false)
    (hstep : (system os).step s turn = some s') : s'.work < s.work := by
  have hstep : s.step os turn = some s' := hstep
  cases turn with
  | accept sent => cases hturn
  | task act =>
      simp only [Clients.step, Option.ite_none_left_eq_some, Option.map_eq_some_iff] at hstep
      obtain ⟨hact, serve, hserve, rfl⟩ := hstep
      exact work_task (by simpa using hact) hserve
  | deliver reply => exact work_deliver hstep
  | read c granted =>
      simp only [Clients.step] at hstep
      cases hc : s.connections[c]? with
      | none => simp [hc] at hstep
      | some connection =>
          simp only [hc] at hstep
          cases hphase : connection.phase with
          | reading =>
              simp only [hphase] at hstep
              cases granted with
              | true => exact work_read hc hphase hstep
              | false =>
                  obtain rfl := Option.some.inj hstep
                  exact work_put hc (by simp [Connection.left, hphase])
          | _ => simp [hphase] at hstep
  | hear c =>
      simp only [Clients.step] at hstep
      cases hc : s.connections[c]? with
      | none => simp [hc] at hstep
      | some connection =>
          simp only [hc] at hstep
          cases hphase : connection.phase with
          | waiting reply line command =>
              simp only [hphase] at hstep
              exact work_hear hc hphase hstep
          | _ => simp [hphase] at hstep
  | write c granted =>
      simp only [Clients.step] at hstep
      cases hc : s.connections[c]? with
      | none => simp [hc] at hstep
      | some connection =>
          simp only [hc] at hstep
          cases hphase : connection.phase with
          | writing line response =>
              simp only [hphase] at hstep
              cases granted with
              | true | false =>
                  obtain rfl := Option.some.inj hstep
                  exact work_put hc (by simp [Connection.left, hphase])
          | refusing =>
              simp only [hphase] at hstep
              cases granted with
              | true | false =>
                  obtain rfl := Option.some.inj hstep
                  exact work_put hc (by simp [Connection.left, hphase])
          | _ => simp [hphase] at hstep

/-! ### Nothing left to be done -/

/-- No channel is on its way, and nothing more is done for any client. -/
structure Quiescent (s : Clients) : Prop where
  inbox : s.serve.inbox = []
  scripts : s.serve.scripts = []
  completions : s.serve.completions = []
  tasks : s.tasks = []
  connections : ∀ connection ∈ s.connections, connection.Settled

omit [External] in
theorem readOne_of_empty [External] (hinbox : s.serve.inbox = []) :
    ∃ s', s.readOne c connection = some s' := by
  unfold readOne
  cases hline : readLine connection.unread with
  | none => exact ⟨_, rfl⟩
  | some pair =>
      simp only
      split_ifs
      · exact ⟨_, rfl⟩
      · exact ⟨_, rfl⟩
      · exact ⟨_, rfl⟩
      · cases Codec.read (trim (String.ofList pair.1)) with
        | error failure => exact ⟨_, rfl⟩
        | ok command =>
            cases command <;> simp [Clients.ask, hinbox, requestCapacity]

theorem Inv.channels_nil (h : s.Inv) (hinbox : s.serve.inbox = [])
    (hscripts : s.serve.scripts = []) (hcompletions : s.serve.completions = []) :
    s.serve.channels = [] := by
  have houtstanding := h.serve.outstanding
  rw [hscripts, hcompletions, DaemonState.inFlight] at houtstanding
  cases hload : s.serve.state.load with
  | none => simp [Serve.channels, hinbox, hload]
  | some load => simp [hload] at houtstanding

/-- **Whoever waits can be answered**: where nothing can be done, nothing is left to
be done. -/
theorem Inv.quiescent (h : s.Inv) (hrest : AtRest os s) : s.Quiescent := by
  have hinbox : s.serve.inbox = [] := by
    have htake := hrest (.task (.take ⟨0, fun _ => false⟩)) id
    cases hinbox : s.serve.inbox with
    | nil => rfl
    | cons request rest => simp [system, Clients.step, Act.isSend, Serve.step, hinbox] at htake
  have hcompletions : s.serve.completions = [] := by
    have hsettle := hrest (.task (.settle ⟨0, fun _ => false⟩)) id
    cases hhead : s.serve.completions with
    | nil => rfl
    | cons head more => simp [system, Clients.step, Act.isSend, Serve.step, hhead] at hsettle
  have hscripts : s.serve.scripts = [] := by
    cases hscript : s.serve.scripts with
    | nil => rfl
    | cons id more =>
        -- a script that runs can always be killed for its time
        have hexit := hrest (.task (.exit id .timedOut)) (fun houtside => houtside)
        simp [system, Clients.step, Act.isSend, Serve.step, hscript] at hexit
  have htasks : s.tasks = [] := by
    cases htasks : s.tasks with
    | nil => rfl
    | cons answer more =>
        have hdeliver := hrest (.deliver answer.1) id
        simp [system, Clients.step, deliverOne, htasks] at hdeliver
  refine ⟨hinbox, hscripts, hcompletions, htasks, fun connection hmem => ?_⟩
  obtain ⟨c, hc⟩ := List.mem_iff_getElem?.mp hmem
  cases hphase : connection.phase with
  | reading =>
      by_cases hunread : connection.unread = []
      · exact Or.inr (Or.inl ⟨hphase, hunread⟩)
      · have hread := hrest (.read c true) (by
          rintro ⟨other, hother, _, hnone⟩
          rw [hc] at hother
          obtain rfl := Option.some.inj hother
          exact hunread hnone)
        obtain ⟨s', hs'⟩ := @readOne_of_empty _ s c connection _ hinbox
        simp [system, Clients.step, hc, hphase, hs'] at hread
  | waiting reply line command =>
      have hwaits : reply ∈ s.awaited :=
        List.mem_filterMap.mpr ⟨connection, hmem, awaits_waiting hphase⟩
      have hplaced := h.tracked.placed
      -- the channel is with no one else, so the reply has been delivered
      rw [h.channels_nil hinbox hscripts hcompletions, held, htasks] at hplaced
      obtain ⟨sent, hsent, hreply⟩ := List.mem_map.mp (hplaced.mem_iff.mpr hwaits)
      have hfound : (s.replies.find? fun sent => sent.1 == reply).isSome := by
        rw [List.find?_isSome]
        exact ⟨sent, hsent, by simpa using hreply⟩
      obtain ⟨found, hfind⟩ := Option.isSome_iff_exists.mp hfound
      have hhear := hrest (.hear c) id
      simp [system, Clients.step, hc, hphase, hearOne, hfind] at hhear
  | writing line response =>
      have hwrite := hrest (.write c true) id
      simp [system, Clients.step, hc, hphase] at hwrite
  | refusing =>
      have hwrite := hrest (.write c true) id
      simp [system, Clients.step, hc, hphase] at hwrite
  | lost => exact Or.inl hphase
  | _ => exact Or.inr (Or.inr ⟨_, hphase⟩)

/-- And where nothing is left to be done, nothing can be. -/
theorem Quiescent.atRest (h : s.Quiescent) : AtRest os s := by
  intro turn houtside
  have hsettled : ∀ {c : ℕ} {connection : Connection}, s.connections[c]? = some connection →
      connection.Settled := fun hc => h.connections _ (List.mem_of_getElem? hc)
  show s.step os turn = none
  cases turn with
  | accept sent => exact absurd trivial houtside
  | task act =>
      cases act with
      | send command reply => rfl
      | take moment => simp [Clients.step, Act.isSend, Serve.step, h.inbox]
      | exit id outcome => simp [Clients.step, Act.isSend, Serve.step, h.scripts]
      | settle moment => simp [Clients.step, Act.isSend, Serve.step, h.completions]
  | deliver reply => simp [Clients.step, deliverOne, h.tasks]
  | read c granted =>
      cases hc : s.connections[c]? with
      | none => simp [Clients.step, hc]
      | some connection =>
          rcases hsettled hc with hlost | hidle | ⟨ending, hover⟩
          · simp [Clients.step, hc, hlost]
          · exact absurd ⟨connection, hc, hidle⟩ houtside
          · simp [Clients.step, hc, hover]
  | hear c =>
      cases hc : s.connections[c]? with
      | none => simp [Clients.step, hc]
      | some connection =>
          rcases hsettled hc with hphase | ⟨hphase, _⟩ | ⟨ending, hphase⟩ <;>
            simp [Clients.step, hc, hphase]
  | write c granted =>
      cases hc : s.connections[c]? with
      | none => simp [Clients.step, hc]
      | some connection =>
          rcases hsettled hc with hphase | ⟨hphase, _⟩ | ⟨ending, hphase⟩ <;>
            simp [Clients.step, hc, hphase]

omit [External] in
/-- A client for which nothing more is done has had its conversation. -/
theorem converse_settled {call : ℕ → Command → Response} (hsettled : connection.Settled)
    (hlost : connection.phase ≠ .lost) (hfollows : connection.Follows call) :
    ∃ ending, converse call 0 connection.sent =
      ⟨connection.heard, connection.answers, ending⟩ := by
  rcases hsettled with hphase | ⟨hphase, hunread⟩ | ⟨ending, hover⟩
  · exact absurd hphase hlost
  · obtain ⟨talk, htalk, hconverse⟩ := hfollows
    have hline : readLine connection.unread = some ([], 0) := by
      rw [hunread]
      rfl
    have hrest : connection.rest call = some ⟨[], [], .closed⟩ := by
      rw [Connection.rest, hphase]
      simp only [converse_some hline, if_true]
    refine ⟨.closed, ?_⟩
    rcases htalk with hnone | hsome
    · rw [hrest] at hnone
      cases hnone
    · rw [hrest] at hsome
      obtain rfl := Option.some.inj hsome
      rw [hconverse, Talk.behind, List.append_nil, List.append_nil]
  · exact ⟨ending, hfollows.over hover⟩

/-- **Every command is answered, once.** After any run, the steps of the connections,
of the scripts and of the tasks can be taken in any order, and only so often. When
none of them is left, but for clients to send more or hang up, nobody waits for a
reply, exactly one was sent on every channel there ever was, and every client that
was not lost has been answered all it sent: its conversation is the one `converse`
has with it alone. -/
theorem requests_settle {start : DaemonState} (hstart : DaemonState.Started os start)
    (hreach : (system os).Reachable (of start) s) {turns : List Turn}
    (hturns : ∀ turn ∈ turns, turn.isAccept = false)
    (hrun : (system os).run s turns = some s') :
    turns.length ≤ s.work ∧
      (AtRest os s' →
        s'.awaited = [] ∧ s'.told.Perm (List.range s'.asks.length) ∧
        ∀ c connection, s'.connections[c]? = some connection → connection.phase ≠ .lost →
          ∃ call ending, s'.Agrees c call ∧
            converse call 0 connection.sent =
              ⟨connection.heard, connection.answers, ending⟩) := by
  refine ⟨?_, fun hrest => ?_⟩
  · have hwork := System.length_add_work_le (I := Inv) (fun _ _ _ h => h.step)
      (fun _ _ _ _ hturn hstep => work_step hturn hstep) (inv_of_reachable hstart hreach) hturns
      hrun
    omega
  · have hinv := inv_of_reachable hstart (hreach.append hrun)
    have hquiescent := hinv.quiescent hrest
    have hchannels := hinv.channels_nil hquiescent.inbox hquiescent.scripts
      hquiescent.completions
    have hawaited : s'.awaited = [] := by
      refine List.filterMap_eq_nil_iff.mpr fun connection hmem => ?_
      rcases hquiescent.connections connection hmem with hphase | ⟨hphase, _⟩ | ⟨ending, hphase⟩ <;>
        rw [Connection.awaits, hphase]
    have honce := hinv.tracked.once
    rw [hchannels, held, hquiescent.tasks] at honce
    refine ⟨hawaited, honce, fun c connection hc hlost => ?_⟩
    have hagrees := @Inv.agrees_callOf _ _ s' c hinv
    obtain ⟨ending, hconverse⟩ := converse_settled
      (hquiescent.connections connection (List.mem_of_getElem? hc)) hlost
      (hinv.follows c connection _ hc hagrees)
    exact ⟨_, ending, hagrees, hconverse⟩

end settles

theorem quiescent_twoClients {s : Clients} (h : visited (twoClients ++ answering) = some s) :
    s.Quiescent ∧ s.connections.map Connection.phase = [.reading, .over .closed] := by
  have hleft : (visited (twoClients ++ answering)).map (fun s => [s.serve.inbox.length,
      s.serve.scripts.length, s.serve.completions.length, s.tasks.length]) = some [0, 0, 0, 0] := by
    decide +kernel
  have hplaces : (visited (twoClients ++ answering)).map (fun s =>
      s.connections.map Connection.phase) = some [.reading, .over .closed] := by decide +kernel
  have hread : (visited (twoClients ++ answering)).map (fun s =>
      s.connections.map Connection.unread) = some [[], []] := by decide +kernel
  rw [h, Option.map_some, Option.some.injEq] at hleft hplaces hread
  simp only [List.cons.injEq, List.length_eq_zero_iff, and_true] at hleft
  obtain ⟨hinbox, hscripts, hcompletions, htasks⟩ := hleft
  refine ⟨⟨hinbox, hscripts, hcompletions, htasks, fun connection hmem => ?_⟩, hplaces⟩
  have hphase : connection.phase ∈ s.connections.map Connection.phase := List.mem_map_of_mem hmem
  have hunread : connection.unread ∈ s.connections.map Connection.unread :=
    List.mem_map_of_mem hmem
  simp only [hplaces, hread, List.mem_cons, List.not_mem_nil, or_false, or_self]
    at hphase hunread
  rcases hphase with hreading | hover
  · exact Or.inr (Or.inl ⟨hreading, hunread⟩)
  · exact Or.inr (Or.inr ⟨_, hover⟩)

/-- The client that has the init script run is answered by the task that reads the
system proxy, and nothing is left to be done then. -/
theorem requests_settle_twoClients : ∃ s s',
    visited twoClients = some s ∧
      (@system External.ascii Codec.brief DaemonState.willing).run s answering = some s' ∧
      answering.length ≤ s.work ∧ s'.awaited = [] ∧
      s'.told.Perm (List.range s'.asks.length) ∧
      ∃ connection call ending, s'.connections[0]? = some connection ∧ s'.Agrees 0 call ∧
        @converse Codec.brief call 0 connection.sent =
          ⟨connection.heard, connection.answers, ending⟩ := by
  have hvisited : (visited (twoClients ++ answering)).isSome = true := by decide +kernel
  obtain ⟨s', hs'⟩ := Option.isSome_iff_exists.mp hvisited
  obtain ⟨hquiescent, hphases⟩ := quiescent_twoClients hs'
  rw [visited, System.run_append] at hs'
  obtain ⟨s, hs, hrun⟩ := Option.bind_eq_some_iff.mp hs'
  have hstart : DaemonState.Started DaemonState.willing DaemonState.fresh :=
    DaemonState.started_fresh rfl rfl
  have hanswering : ∀ turn ∈ answering, turn.isAccept = false := by
    simp [answering, Turn.isAccept]
  obtain ⟨hlength, hsettled⟩ := @requests_settle External.ascii Codec.brief DaemonState.willing s s'
    DaemonState.fresh hstart ⟨_, hs⟩ answering hanswering hrun
  obtain ⟨hawaited, htold, hconversed⟩ := hsettled
    (@Quiescent.atRest External.ascii Codec.brief _ s' hquiescent)
  have hfirst : (s'.connections.map Connection.phase)[0]? = some .reading := by
    rw [hphases]
    rfl
  rw [List.getElem?_map] at hfirst
  obtain ⟨connection, hc, hreading⟩ := Option.map_eq_some_iff.mp hfirst
  obtain ⟨call, ending, hagrees, hconverse⟩ := hconversed 0 connection hc (by simp [hreading])
  exact ⟨s, s', hs, hrun, hlength, hawaited, htold, connection, call, ending, hc, hagrees,
    hconverse⟩

end Clients

end Nhop.Daemon
