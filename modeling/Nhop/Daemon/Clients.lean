import Nhop.Daemon.Conversation
import Nhop.Daemon.Isolation
import Nhop.Foundation.Draining

/-!
Every client at once.

Each connection reads a line, sends the command on it to the state task together
with a channel for the one reply, waits for that reply and writes it; the state
task takes the commands of all connections in the order they were sent, keeps the
channel of a reload until its script has ended, and leaves that of a report to the
task that reads the system proxy. The steps of the connections and of the tasks
come in any order, and so do the ends of scripts.

However they come, a connection talks to its client as if it were the only one
(`converse_alone`). It rests on where a channel can be: in the queue, with the run
in flight, with a task that reads the system proxy or answered, and waited for
until its reply is received.
-/

namespace Nhop.Daemon

open Foundation Ipc
open Cli (lineLimit oversized)

/-- How many requests the queue of the state task holds. -/
def requestCapacity : ℕ := 64

/-- Where a connection is in serving its client. -/
inductive Talking
  | reading
  /-- The command of a line was sent, to be answered on a channel. -/
  | waiting (reply : ℕ) (line : String) (command : Command)
  | writing (line : String) (response : Response)
  /-- A line was too long. -/
  | refusing
  | over (ending : Ending)
  /-- The client could not be read from, or not be written to. -/
  | lost
  deriving DecidableEq, Repr

/-- One connection: all that its client sends and what of it is not read, and the
lines it has answered with their answers. -/
structure Connection where
  sent : List UInt8
  unread : List UInt8
  phase : Talking
  heard : List String
  answers : List Response
  deriving DecidableEq, Repr

/-- What was asked on a channel: by which connection, behind how many lines it had
answered, and what. -/
structure Ask where
  connection : ℕ
  asked : ℕ
  command : Command
  deriving DecidableEq, Repr

/-- The state task and its clients. The last two fields are history: what was asked
on each channel, and the replies that were sent. -/
structure Clients where
  serve : Serve
  connections : List Connection
  /-- The tasks that read the system proxy: the channel each holds and its answer. -/
  tasks : List (ℕ × Response)
  /-- Replies sent on their channels and not yet received. -/
  replies : List (ℕ × Response)
  asks : List Ask
  log : List (ℕ × Response)

/-- Something a client, a connection, the state task or a script does. -/
inductive Turn
  | accept (sent : List UInt8)
  | read (connection : ℕ) (granted : Bool)
  | task (act : Act)
  /-- The system proxy was read by the task that holds the channel. -/
  | deliver (reply : ℕ)
  | hear (connection : ℕ)
  | write (connection : ℕ) (granted : Bool)

/-- A request is sent by a connection only. -/
def Act.isSend : Act → Bool
  | .send _ _ => true
  | .take _ | .exit _ _ | .settle _ => false

/-- A step that lets a client in. -/
def Turn.isAccept : Turn → Bool
  | .accept _ => true
  | .read _ _ | .task _ | .deliver _ | .hear _ | .write _ _ => false

/-- The channel a connection waits on. -/
def Connection.awaits (connection : Connection) : Option ℕ :=
  match connection.phase with
  | .waiting reply _ _ => some reply
  | .reading | .writing _ _ | .refusing | .over _ | .lost => none

/-- The channels of the commands in the queue, and that of the run in flight. -/
def Serve.channels (serve : Serve) : List ℕ :=
  serve.inbox.map Prod.snd ++ (serve.state.load.map InFlight.reply).toList

namespace Clients

def of (start : DaemonState) : Clients := ⟨.of start, [], [], [], [], []⟩

/-- A connection is somewhere else. -/
def put (s : Clients) (c : ℕ) (connection : Connection) : Clients :=
  { s with connections := s.connections.set c connection }

section system

variable [External]

/-- What one step of the state task comes to answer. -/
def replied (os : Os) (s : Serve) : Act → List (ℕ × Response)
  | .take moment =>
      match s.inbox with
      | [] => []
      | (command, reply) :: _ =>
          ((s.state.handle os moment command reply).1.map fun response => (reply, response)).toList
  | .settle moment =>
      match s.completions with
      | [] => []
      | (_, outcome) :: _ => (s.state.finish os moment outcome).1.toList
  | .send _ _ | .exit _ _ => []

/-- The state task sends an answer, or leaves it to a task that reads the system
proxy. -/
def dispatch (s : Clients) (answers : List (ℕ × Response)) : Clients :=
  let sent := answers.filter fun answer => !DaemonState.readsProxy answer.2
  { s with
    tasks := s.tasks ++ answers.filter fun answer => DaemonState.readsProxy answer.2
    replies := s.replies ++ sent
    log := s.log ++ sent }

/-- A task that has read the system proxy answers. -/
def deliverOne (s : Clients) (reply : ℕ) : Option Clients :=
  match s.tasks.find? fun answer => answer.1 == reply with
  | none => none
  | some answer =>
      some { s with
        tasks := s.tasks.erase answer
        replies := s.replies ++ [answer]
        log := s.log ++ [answer] }

/-- A connection sends the command of a line. -/
def ask (s : Clients) (c : ℕ) (connection : Connection) (line : String) (command : Command) :
    Option Clients :=
  -- where the queue is full the connection waits
  if s.serve.inbox.length < requestCapacity then
    some { s with
      serve := { s.serve with inbox := s.serve.inbox ++ [(command, s.asks.length)] }
      connections := s.connections.set c
        { connection with phase := .waiting s.asks.length line command }
      asks := s.asks ++ [⟨c, connection.heard.length, command⟩] }
  else none

variable [Codec]

/-- A connection reads a line. -/
def readOne (s : Clients) (c : ℕ) (connection : Connection) : Option Clients :=
  match readLine connection.unread with
  | none => some (s.put c { connection with phase := .over .failed })
  | some (line, read) =>
      -- nothing is left of the stream
      if read = 0 then some (s.put c { connection with phase := .over .closed })
      -- the line is longer than is read, so where it ends is not known
      else if read = lineLimit ∧ line.getLast? ≠ some '\n' then
        some (s.put c { connection with phase := .refusing })
      else
        let line := trim (String.ofList line)
        let rest := { connection with unread := connection.unread.drop read }
        if line = "" then some (s.put c rest)
        else
          match Codec.read line with
          | .ok .subscribe =>
              some (s.put c { rest with phase := .over .streams, heard := rest.heard ++ [line] })
          | .ok command => s.ask c rest line command
          | .error failure =>
              some (s.put c { rest with phase := .writing line (.err .invalidArgs failure) })

/-- A connection receives the reply it waits for. -/
def hearOne (s : Clients) (c : ℕ) (connection : Connection) (reply : ℕ) (line : String) :
    Option Clients :=
  match s.replies.find? fun sent => sent.1 == reply with
  | none => none
  | some sent =>
      some { s with
        connections := s.connections.set c { connection with phase := .writing line sent.2 }
        replies := s.replies.erase sent }

def step (os : Os) (s : Clients) : Turn → Option Clients
  | .accept sent =>
      some { s with connections := s.connections ++ [⟨sent, sent, .reading, [], []⟩] }
  | .read c granted =>
      match s.connections[c]? with
      | none => none
      | some connection =>
          match connection.phase with
          | .reading =>
              if granted then s.readOne c connection
              else some (s.put c { connection with phase := .lost })
          | .waiting _ _ _ | .writing _ _ | .refusing | .over _ | .lost => none
  | .task act =>
      if act.isSend then none
      else
        (s.serve.step os act).map fun serve =>
          { s.dispatch (replied os s.serve act) with serve := serve }
  | .deliver reply => s.deliverOne reply
  | .hear c =>
      match s.connections[c]? with
      | none => none
      | some connection =>
          match connection.phase with
          | .waiting reply line _ => s.hearOne c connection reply line
          | .reading | .writing _ _ | .refusing | .over _ | .lost => none
  | .write c granted =>
      match s.connections[c]? with
      | none => none
      | some connection =>
          match connection.phase with
          | .writing line response =>
              if granted then
                some (s.put c { connection with
                  phase := .reading
                  heard := connection.heard ++ [line]
                  answers := connection.answers ++ [response] })
              else some (s.put c { connection with phase := .lost })
          | .refusing =>
              if granted then
                some (s.put c { connection with
                  phase := .over .refused
                  answers := connection.answers ++ [oversized] })
              else some (s.put c { connection with phase := .lost })
          | .reading | .waiting _ _ _ | .over _ | .lost => none

/-- The clients and the state task as a system. -/
def system (os : Os) : System Clients Turn := ⟨step os⟩

end system

/-! ### Where a channel is -/

/-- The channels of the tasks that read the system proxy. -/
def held (s : Clients) : List ℕ := s.tasks.map Prod.fst

/-- The channels a reply was sent on. -/
def told (s : Clients) : List ℕ := s.log.map Prod.fst

/-- Those of them whose reply was not received. -/
def unheard (s : Clients) : List ℕ := s.replies.map Prod.fst

/-- The channels waited on. -/
def awaited (s : Clients) : List ℕ := s.connections.filterMap Connection.awaits

/-- Every channel is in the queue, with the run in flight, held by a task or was
replied on, and it is in one of these once; it is waited on until the reply is
received. -/
structure Tracked (s : Clients) : Prop where
  once : (s.serve.channels ++ s.held ++ s.told).Perm (List.range s.asks.length)
  placed : (s.serve.channels ++ s.held ++ s.unheard).Perm s.awaited
  logged : ∀ sent ∈ s.replies, sent ∈ s.log

section tracked

variable {os : Os} {s s' : Clients} {c : ℕ} {connection after : Connection}

theorem awaited_set (h : s.connections[c]? = some connection) :
    (connection.awaits.toList ++ (s.connections.set c after).filterMap Connection.awaits).Perm
      (after.awaits.toList ++ s.awaited) :=
  filterMap_set_perm Connection.awaits h

theorem Tracked.put (h : s.Tracked) (hc : s.connections[c]? = some connection)
    (hbefore : connection.awaits = none) (hafter : after.awaits = none) :
    (s.put c after).Tracked := by
  have hsame := @awaited_set s c connection after hc
  rw [hbefore, hafter, Option.toList_none, List.nil_append, List.nil_append] at hsame
  exact ⟨h.once, h.placed.trans hsame.symm, h.logged⟩

theorem Tracked.ask [External] (h : s.Tracked) {line : String} {command : Command}
    (hc : s.connections[c]? = some connection) (hreading : connection.awaits = none)
    {unread : List UInt8}
    (hask : s.ask c { connection with unread := unread } line command = some s') : s'.Tracked := by
  unfold Clients.ask at hask
  split_ifs at hask
  obtain rfl := Option.some.inj hask
  have hwaits := @awaited_set s c connection
    ⟨connection.sent, unread, .waiting s.asks.length line command, connection.heard,
      connection.answers⟩ hc
  rw [hreading, Option.toList_none, List.nil_append] at hwaits
  obtain ⟨honce, hplaced, hlogged⟩ := h
  rw [List.perm_iff_count] at honce hplaced hwaits
  refine ⟨?_, ?_, hlogged⟩
  · apply List.perm_iff_count.mpr
    intro reply
    have hreply := honce reply
    simp only [Serve.channels, held, told, List.map_append, List.map_cons, List.map_nil,
      List.length_append, List.length_singleton, List.range_succ, List.count_append] at hreply ⊢
    omega
  · apply List.perm_iff_count.mpr
    intro reply
    have hreply := hplaced reply
    have hwait := hwaits reply
    simp only [Serve.channels, held, unheard, awaited, Connection.awaits, List.map_append,
      List.map_cons, List.map_nil, List.count_append, Option.toList_some] at hreply hwait ⊢
    omega

theorem Tracked.hear (h : s.Tracked) {reply : ℕ} {line : String} {command : Command}
    (hc : s.connections[c]? = some connection)
    (hphase : connection.phase = .waiting reply line command)
    (hhear : s.hearOne c connection reply line = some s') : s'.Tracked := by
  unfold hearOne at hhear
  cases hfind : s.replies.find? fun sent => sent.1 == reply with
  | none => simp [hfind] at hhear
  | some sent =>
      rw [hfind] at hhear
      obtain rfl := Option.some.inj hhear
      have hmem := List.mem_of_find?_eq_some hfind
      have hreply : sent.1 = reply := by simpa using List.find?_some hfind
      have hawaits : connection.awaits = some reply := by rw [Connection.awaits, hphase]
      have hafter : ({ connection with phase := .writing line sent.2 } : Connection).awaits =
          none := rfl
      have hwaits := @awaited_set s c connection
        { connection with phase := .writing line sent.2 } hc
      rw [hawaits, hafter, Option.toList_some, Option.toList_none, List.nil_append] at hwaits
      have hremoved := (List.perm_cons_erase hmem).map Prod.fst
      obtain ⟨honce, hplaced, hlogged⟩ := h
      refine ⟨honce, ?_, ?_⟩
      · rw [List.perm_iff_count] at hplaced hwaits hremoved ⊢
        intro other
        have hother := hplaced other
        have hwait := hwaits other
        have hremove := hremoved other
        simp only [hreply, Serve.channels, held, unheard, awaited, List.map_cons, List.count_append,
          List.count_cons, List.count_nil] at hother hwait hremove ⊢
        omega
      · intro other hother
        exact hlogged other (List.mem_of_mem_erase hother)

end tracked

section task

variable [External] {os : Os} {s : Clients} {state : DaemonState} {moment : Moment}
variable {command : Command} {reply : ℕ} {rest : List (Command × ℕ)}

/-- A request is answered, and the run in flight keeps its channel, or its channel
is that of the run it starts. -/
theorem handle_reply (os : Os) (moment : Moment) (state : DaemonState) (command : Command)
    (reply : ℕ) :
    (∃ response, (state.handle os moment command reply).1 = some response ∧
      (state.handle os moment command reply).2.load.map InFlight.reply =
        state.load.map InFlight.reply) ∨
    (state.handle os moment command reply).1 = none ∧ state.load = none ∧
      (state.handle os moment command reply).2.load.map InFlight.reply = some reply := by
  cases hload : state.load with
  | some load =>
      obtain ⟨staged, hstaged⟩ := DaemonState.handle_inFlight os moment command reply hload
      left
      by_cases hid : command.load? = some (some load.id)
      · refine ⟨_, by rw [DaemonState.handle_staged hload hid], ?_⟩
        rw [hstaged]
        rfl
      · obtain ⟨response, hsame, _⟩ := DaemonState.handle_elsewhere os moment reply hload hid
        exact ⟨response, by rw [hsame], by rw [hsame, hload]⟩
  | none =>
      rcases DaemonState.handle_idle os moment command reply hload with
        ⟨response, after, hafter, hanswered⟩ | ⟨script, hscript⟩
      · left
        refine ⟨response, by rw [hafter], ?_⟩
        rw [hafter, hanswered.frame.1, hload]
      · right
        rw [hscript]
        exact ⟨rfl, rfl, rfl⟩

omit [External] in
theorem finish_reply {load : InFlight} (hload : state.load = some load) (os : Os)
    (moment : Moment) (outcome : ScriptOutcome) :
    ∃ response, (state.finish os moment outcome).1 = some (load.reply, response) := by
  unfold DaemonState.finish
  simp only [hload]
  split
  · exact ⟨_, rfl⟩
  · exact ⟨_, rfl⟩

theorem takeOne_frame (os : Os) (moment : Moment) (s : Serve) (command : Command) (reply : ℕ)
    (rest : List (Command × ℕ)) :
    (s.takeOne os moment command reply rest).inbox = rest ∧
      (s.takeOne os moment command reply rest).state =
        (s.state.handle os moment command reply).2 := by
  unfold Serve.takeOne
  rcases s.state.handle os moment command reply with ⟨_ | response, after⟩ <;> exact ⟨rfl, rfl⟩

theorem channels_take {serve : Serve} (hinbox : serve.inbox = (command, reply) :: rest) :
    ((serve.takeOne os moment command reply rest).channels ++
      (replied os serve (.take moment)).map Prod.fst).Perm serve.channels := by
  obtain ⟨hrest, hstate⟩ := takeOne_frame os moment serve command reply rest
  refine List.perm_iff_count.mpr fun other => ?_
  rcases handle_reply os moment serve.state command reply with
    ⟨response, hresponse, hrunning⟩ | ⟨hnone, hidle, hrunning⟩
  · simp only [replied, Serve.channels, hinbox, hrest, hstate, hresponse, hrunning,
      Option.map_some, Option.toList_some, List.map_cons, List.map_nil, List.count_append,
      List.count_cons, List.count_nil]
    omega
  · simp only [replied, Serve.channels, hinbox, hrest, hstate, hnone, hidle, hrunning,
      Option.map_none, Option.toList_none, Option.toList_some, List.map_cons, List.map_nil,
      List.count_append, List.count_cons, List.count_nil]
    omega

theorem channels_settle {serve : Serve} {id : LoadId} {outcome : ScriptOutcome}
    {more : List (LoadId × ScriptOutcome)} (hserve : serve.Inv)
    (hhead : serve.completions = (id, outcome) :: more) :
    (Serve.channels { serve with
        state := (serve.state.finish os moment outcome).2
        completions := more
        finished := serve.finished ++ serve.state.inFlight.toList } ++
      (replied os serve (.settle moment)).map Prod.fst).Perm serve.channels := by
  obtain ⟨_, _, hflight⟩ := hserve.completion hhead
  obtain ⟨load, hload, _⟩ := Option.map_eq_some_iff.mp hflight
  obtain ⟨response, hresponse⟩ := finish_reply hload os moment outcome
  have hnone : (serve.state.finish os moment outcome).2.load = none :=
    (DaemonState.finish_frame os moment).1
  refine List.perm_iff_count.mpr fun other => ?_
  simp only [replied, Serve.channels, hhead, hload, hnone, hresponse, Option.map_none,
    Option.map_some, Option.toList_none, Option.toList_some, List.map_cons, List.map_nil,
    List.append_nil, List.count_append]

/-- **The state task answers on the channels it has**, and takes nothing into the
queue. -/
theorem channels_step {act : Act} {serve serve' : Serve} (hserve : serve.Inv)
    (hact : act.isSend = false) (hstep : serve.step os act = some serve') :
    (serve'.channels ++ (replied os serve act).map Prod.fst).Perm serve.channels ∧
      serve'.inbox ⊆ serve.inbox := by
  cases act with
  | send command reply => cases hact
  | take moment =>
      cases hinbox : serve.inbox with
      | nil => simp [Serve.step, hinbox] at hstep
      | cons request rest =>
          simp only [Serve.step, hinbox, Option.some.injEq] at hstep
          subst hstep
          refine ⟨channels_take hinbox, ?_⟩
          rw [(takeOne_frame os moment serve request.1 request.2 rest).1]
          exact List.subset_cons_self _ _
  | exit id outcome =>
      simp only [Serve.step, Option.ite_none_right_eq_some, Option.some.injEq] at hstep
      obtain ⟨_, rfl⟩ := hstep
      refine ⟨?_, List.Subset.refl _⟩
      rw [replied, List.map_nil, List.append_nil]
      exact List.Perm.refl _
  | settle moment =>
      cases hhead : serve.completions with
      | nil => simp [Serve.step, hhead] at hstep
      | cons head more =>
          simp only [Serve.step, hhead, Option.some.injEq] at hstep
          subst hstep
          exact ⟨channels_settle hserve hhead, List.Subset.refl _⟩

omit [External] in
theorem count_dispatch (answers : List (ℕ × Response)) (other : ℕ) :
    ((answers.filter fun answer => DaemonState.readsProxy answer.2).map Prod.fst).count other +
      ((answers.filter fun answer => !DaemonState.readsProxy answer.2).map Prod.fst).count other =
        (answers.map Prod.fst).count other := by
  rw [← List.count_append, ← List.map_append]
  exact ((List.filter_append_perm _ answers).map Prod.fst).count_eq other

omit [External] in
/-- **What the state task answers is tracked.** -/
theorem Tracked.dispatch (h : s.Tracked) {serve : Serve} {answers : List (ℕ × Response)}
    (hmoved : (serve.channels ++ answers.map Prod.fst).Perm s.serve.channels) :
    Tracked { s.dispatch answers with serve := serve } := by
  obtain ⟨honce, hplaced, hlogged⟩ := h
  rw [List.perm_iff_count] at honce hplaced hmoved
  refine ⟨List.perm_iff_count.mpr fun other => ?_, List.perm_iff_count.mpr fun other => ?_, ?_⟩
  · have hother := honce other
    have hmove := hmoved other
    have hparts := count_dispatch answers other
    simp only [Clients.dispatch, held, told, List.map_append, List.count_append] at hother hmove ⊢
    omega
  · have hother := hplaced other
    have hmove := hmoved other
    have hparts := count_dispatch answers other
    simp only [Clients.dispatch, held, unheard, awaited, List.map_append, List.count_append]
      at hother hmove ⊢
    omega
  · intro sent hmem
    rcases List.mem_append.mp hmem with hold | hnew
    · exact List.mem_append_left _ (hlogged sent hold)
    · exact List.mem_append_right _ hnew

omit [External] in
/-- A task that answers moves its channel. -/
theorem Tracked.deliver (h : s.Tracked) {s' : Clients} (hdeliver : s.deliverOne reply = some s') :
    s'.Tracked := by
  unfold deliverOne at hdeliver
  cases hfind : s.tasks.find? fun answer => answer.1 == reply with
  | none => simp [hfind] at hdeliver
  | some answer =>
      rw [hfind] at hdeliver
      obtain rfl := Option.some.inj hdeliver
      have hremoved := (List.perm_cons_erase (List.mem_of_find?_eq_some hfind)).map Prod.fst
      obtain ⟨honce, hplaced, hlogged⟩ := h
      rw [List.perm_iff_count] at honce hplaced hremoved
      refine ⟨List.perm_iff_count.mpr fun other => ?_, List.perm_iff_count.mpr fun other => ?_, ?_⟩
      · have hother := honce other
        have hremove := hremoved other
        simp only [held, told, List.map_append, List.map_cons, List.map_nil, List.count_append,
          List.count_cons, List.count_nil] at hother hremove ⊢
        omega
      · have hother := hplaced other
        have hremove := hremoved other
        simp only [held, unheard, awaited, List.map_append, List.map_cons, List.map_nil,
          List.count_append, List.count_cons, List.count_nil] at hother hremove ⊢
        omega
      · intro sent hmem
        rcases List.mem_append.mp hmem with hold | hnew
        · exact List.mem_append_left _ (hlogged sent hold)
        · exact List.mem_append_right _ hnew

end task

end Clients

/-! ### What a connection is in the middle of -/

/-- The conversation behind what was heard and answered before. -/
def Talk.behind (talk : Talk) (heard : List String) (answers : List Response) : Talk :=
  ⟨heard ++ talk.heard, answers ++ talk.answers, talk.ending⟩

namespace Connection

section follows

variable [Codec] {call : ℕ → Command → Response} {connection : Connection}

/-- What is left of the conversation, unless the client is lost. -/
def rest (call : ℕ → Command → Response) (connection : Connection) : Option Talk :=
  let asked := connection.heard.length
  match connection.phase with
  | .reading => some (converse call asked connection.unread)
  | .waiting _ line command =>
      some ((converse call (asked + 1) connection.unread).after line (call asked command))
  | .writing line response =>
      some ((converse call (asked + 1) connection.unread).after line response)
  | .refusing => some ⟨[], [oversized], .refused⟩
  | .over ending => some ⟨[], [], ending⟩
  | .lost => none

/-- The connection is in the middle of the conversation its client would have
alone. -/
def Follows (call : ℕ → Command → Response) (connection : Connection) : Prop :=
  ∃ talk, (connection.rest call = none ∨ connection.rest call = some talk) ∧
    converse call 0 connection.sent = talk.behind connection.heard connection.answers

theorem follows_start (sent : List UInt8) : Follows call ⟨sent, sent, .reading, [], []⟩ :=
  ⟨converse call 0 sent, Or.inr rfl, rfl⟩

theorem Follows.lose (h : connection.Follows call) :
    Follows call { connection with phase := .lost } := by
  obtain ⟨talk, _, htalk⟩ := h
  exact ⟨talk, Or.inl rfl, htalk⟩

theorem Follows.to {talk : Talk} {after : Connection} (h : connection.Follows call)
    (hrest : connection.rest call = some talk) (hsent : after.sent = connection.sent)
    {later : Talk} (hlater : after.rest call = some later)
    (hbehind : talk.behind connection.heard connection.answers =
      later.behind after.heard after.answers) : after.Follows call := by
  obtain ⟨talk', htalk', hconverse⟩ := h
  rcases htalk' with hnone | hsome
  · rw [hrest] at hnone
    cases hnone
  · obtain rfl : talk = talk' := by
      rw [hrest] at hsome
      exact Option.some.inj hsome
    exact ⟨later, Or.inr hlater, by rw [hsent, hconverse, hbehind]⟩

theorem Follows.prefixes (h : connection.Follows call) :
    connection.heard <+: (converse call 0 connection.sent).heard ∧
      connection.answers <+: (converse call 0 connection.sent).answers := by
  obtain ⟨talk, _, htalk⟩ := h
  rw [htalk]
  exact ⟨List.prefix_append _ _, List.prefix_append _ _⟩

theorem Follows.over (h : connection.Follows call) {ending : Ending}
    (hover : connection.phase = .over ending) :
    converse call 0 connection.sent = ⟨connection.heard, connection.answers, ending⟩ := by
  obtain ⟨talk, htalk, hconverse⟩ := h
  have hrest : connection.rest call = some ⟨[], [], ending⟩ := by rw [rest, hover]
  rcases htalk with hnone | hsome
  · rw [hrest] at hnone
    cases hnone
  · rw [hrest] at hsome
    obtain rfl := Option.some.inj hsome
    rw [hconverse, Talk.behind, List.append_nil, List.append_nil]

end follows

end Connection

namespace Clients

/-! ### The invariant -/

section inv

variable [External] [Codec] {os : Os} {s s' : Clients} {c : ℕ} {connection after : Connection}

/-- The answers to what a connection asked are those that were sent it. -/
def Agrees (s : Clients) (c : ℕ) (call : ℕ → Command → Response) : Prop :=
  ∀ reply ask response, s.asks[reply]? = some ask → ask.connection = c →
    (reply, response) ∈ s.log → call ask.asked ask.command = response

/-- Channels are tracked, the queue holds what was asked on each, a connection waits
on the channel it asked on, no connection asks twice behind the same lines, and each
is in the middle of the conversation its client would have alone. -/
structure Inv (s : Clients) : Prop where
  serve : s.serve.Inv
  tracked : s.Tracked
  queue : ∀ command reply, (command, reply) ∈ s.serve.inbox →
    ∃ ask, s.asks[reply]? = some ask ∧ ask.command = command
  asker : ∀ (c : ℕ) (connection : Connection) reply line command,
    s.connections[c]? = some connection → connection.phase = .waiting reply line command →
      s.asks[reply]? = some (⟨c, connection.heard.length, command⟩ : Ask)
  earlier : ∀ ask ∈ s.asks, ∃ connection, s.connections[ask.connection]? = some connection ∧
    (ask.asked < connection.heard.length ∨
      ask.asked = connection.heard.length ∧ connection.phase ≠ .reading)
  distinct : (s.asks.map fun ask => (ask.connection, ask.asked)).Nodup
  follows : ∀ c connection call, s.connections[c]? = some connection → s.Agrees c call →
    connection.Follows call

theorem inv_of {start : DaemonState} (h : DaemonState.Started os start) : (of start).Inv where
  serve := Serve.inv_of h
  tracked := by
    refine ⟨?_, ?_, ?_⟩ <;>
      simp [of, Serve.of, Serve.channels, held, told, unheard, awaited,
        DaemonState.load_of_started h]
  queue := by simp [of, Serve.of]
  asker := by simp [of]
  earlier := by simp [of]
  distinct := by simp [of]
  follows := by simp [of]

/-- A connection does something without asking the state task. -/
structure Quiet (connection after : Connection) : Prop where
  idle : connection.awaits = none
  answered : after.awaits = none
  heard : connection.heard.length ≤ after.heard.length
  reading : after.phase = .reading →
    connection.phase = .reading ∨ connection.heard.length < after.heard.length
  follows : ∀ call, connection.Follows call → after.Follows call

omit [External] [Codec] in
theorem getElem?_set (hc : s.connections[c]? = some connection) {i : ℕ} {other : Connection}
    (h : (s.connections.set c after)[i]? = some other) :
    i = c ∧ other = after ∨ i ≠ c ∧ s.connections[i]? = some other := by
  have hlt : c < s.connections.length := (List.getElem?_eq_some_iff.mp hc).1
  rw [List.getElem?_set] at h
  split_ifs at h with hi
  · exact Or.inl ⟨hi.symm, (Option.some.inj h).symm⟩
  · exact Or.inr ⟨Ne.symm hi, h⟩

omit [External] [Codec] in
theorem awaits_waiting {reply : ℕ} {line : String} {command : Command}
    (h : connection.phase = .waiting reply line command) : connection.awaits = some reply := by
  rw [Connection.awaits, h]

/-- Where the connections are heard of once one of them is somewhere else. -/
theorem Inv.earlier_set (h : s.Inv) (hc : s.connections[c]? = some connection)
    (hheard : connection.heard.length ≤ after.heard.length)
    (hreading : after.phase = .reading →
      connection.phase = .reading ∨ connection.heard.length < after.heard.length) :
    ∀ ask ∈ s.asks, ∃ other, (s.connections.set c after)[ask.connection]? = some other ∧
      (ask.asked < other.heard.length ∨
        ask.asked = other.heard.length ∧ other.phase ≠ .reading) := by
  intro ask hask
  obtain ⟨other, hother, hasked⟩ := h.earlier ask hask
  by_cases hi : ask.connection = c
  · have hlt : c < s.connections.length := (List.getElem?_eq_some_iff.mp hc).1
    rw [hi, hc] at hother
    obtain rfl := Option.some.inj hother
    refine ⟨after, by rw [hi, List.getElem?_set_self hlt], ?_⟩
    rcases hasked with hlt | ⟨heq, hphase⟩
    · exact Or.inl (hlt.trans_le hheard)
    · rcases Nat.lt_or_ge connection.heard.length after.heard.length with hmore | hsame
      · exact Or.inl (heq ▸ hmore)
      · refine Or.inr ⟨heq.trans (le_antisymm hheard hsame), ?_⟩
        intro hafter
        rcases hreading hafter with hbefore | hmore
        · exact hphase hbefore
        · omega
  · exact ⟨other, by rw [List.getElem?_set_ne (Ne.symm hi), hother], hasked⟩

theorem Inv.put (h : s.Inv) (hc : s.connections[c]? = some connection)
    (hquiet : Quiet connection after) : (s.put c after).Inv where
  serve := h.serve
  tracked := h.tracked.put hc hquiet.idle hquiet.answered
  queue := h.queue
  asker i other reply line command hi hphase := by
    rcases getElem?_set hc hi with ⟨_, rfl⟩ | ⟨_, hother⟩
    · have hnone := hquiet.answered
      rw [awaits_waiting hphase] at hnone
      cases hnone
    · exact h.asker i other reply line command hother hphase
  earlier := h.earlier_set hc hquiet.heard hquiet.reading
  distinct := h.distinct
  follows i other call hi hagrees := by
    rcases getElem?_set hc hi with ⟨rfl, rfl⟩ | ⟨_, hother⟩
    · exact hquiet.follows call (h.follows i connection call hc hagrees)
    · exact h.follows i other call hother hagrees

omit [External] [Codec] in
theorem ask_of_lt {asks : List Ask} {ask : Ask} {reply : ℕ} {new : Ask}
    (h : asks[reply]? = some ask) : (asks ++ [new])[reply]? = some ask := by
  rw [List.getElem?_append_left (List.getElem?_eq_some_iff.mp h).1, h]

/-- A connection sends the command of the line it has read. -/
theorem Inv.ask (h : s.Inv) (hc : s.connections[c]? = some connection)
    (hreading : connection.phase = .reading) {unread : List UInt8} {line : String}
    {command : Command}
    (hfollows : ∀ call, connection.Follows call → Connection.Follows call
      { connection with unread := unread, phase := .waiting s.asks.length line command })
    (hask : s.ask c { connection with unread := unread } line command = some s') : s'.Inv := by
  have hidle : connection.awaits = none := by rw [Connection.awaits, hreading]
  have htracked := h.tracked.ask hc hidle hask
  unfold Clients.ask at hask
  split_ifs at hask
  obtain rfl := Option.some.inj hask
  have hnew : (s.asks ++ [⟨c, connection.heard.length, command⟩])[s.asks.length]? =
      some (⟨c, connection.heard.length, command⟩ : Ask) := by simp
  refine ⟨h.serve.frame h.serve.outstanding h.serve.records h.serve.consistent rfl rfl, htracked,
    ?_, ?_, ?_, ?_, ?_⟩
  · intro other reply hmem
    rcases List.mem_append.mp hmem with hold | hlast
    · obtain ⟨ask, hask, hcommand⟩ := h.queue other reply hold
      exact ⟨ask, ask_of_lt hask, hcommand⟩
    · obtain ⟨rfl, rfl⟩ := Prod.mk.inj (List.mem_singleton.mp hlast)
      exact ⟨_, hnew, rfl⟩
  · intro i other reply line' command' hi hphase
    rcases getElem?_set hc hi with ⟨rfl, rfl⟩ | ⟨_, hother⟩
    · cases hphase
      exact hnew
    · exact ask_of_lt (h.asker i other reply line' command' hother hphase)
  · intro ask hmem
    rcases List.mem_append.mp hmem with hold | hlast
    · refine h.earlier_set hc ?_ ?_ ask hold
      · exact Nat.le_refl _
      · exact fun _ => Or.inl hreading
    · obtain rfl := List.mem_singleton.mp hlast
      have hlt : c < s.connections.length := (List.getElem?_eq_some_iff.mp hc).1
      refine ⟨_, List.getElem?_set_self hlt, Or.inr ⟨rfl, ?_⟩⟩
      simp
  · rw [List.map_append, List.nodup_append]
    refine ⟨h.distinct, List.nodup_singleton _, ?_⟩
    rintro _ hold _ hlast rfl
    obtain ⟨ask, hask, hsame⟩ := List.mem_map.mp hold
    obtain ⟨hconnection, hasked⟩ := Prod.mk.inj (hsame.trans (List.mem_singleton.mp hlast))
    obtain ⟨other, hother, hearlier⟩ := h.earlier ask hask
    rw [hconnection, hc] at hother
    obtain rfl := Option.some.inj hother
    rcases hearlier with hlt | ⟨_, hphase⟩
    -- an earlier request of this line would have the connection waiting, and it reads
    · exact absurd hasked hlt.ne
    · exact hphase hreading
  · intro i other call hi hagrees
    have hbefore : s.Agrees i call := by
      intro reply ask response hask
      exact hagrees reply ask response (ask_of_lt hask)
    rcases getElem?_set hc hi with ⟨rfl, rfl⟩ | ⟨_, hother⟩
    · exact hfollows call (h.follows i connection call hc hbefore)
    · exact h.follows i other call hother hbefore

/-- A connection reads a line that is not blank. -/
theorem Inv.readCommand (h : s.Inv) (hc : s.connections[c]? = some connection)
    (hreading : connection.phase = .reading) {line : List Char} {read : ℕ}
    (hclosed : read ≠ 0) (hlong : ¬(read = lineLimit ∧ line.getLast? ≠ some '\n'))
    (hblank : trim (String.ofList line) ≠ "")
    (hline : readLine connection.unread = some (line, read))
    (hread : (match Codec.read (trim (String.ofList line)) with
      | .ok .subscribe => some (s.put c { connection with
          unread := connection.unread.drop read
          phase := .over .streams
          heard := connection.heard ++ [trim (String.ofList line)] })
      | .ok command => s.ask c { connection with unread := connection.unread.drop read }
          (trim (String.ofList line)) command
      | .error failure => some (s.put c { connection with
          unread := connection.unread.drop read
          phase := .writing (trim (String.ofList line)) (.err .invalidArgs failure) })) = some s') :
    s'.Inv := by
  have hidle : connection.awaits = none := by rw [Connection.awaits, hreading]
  have hrest : ∀ call : ℕ → Command → Response, connection.rest call =
      some (converse call connection.heard.length connection.unread) := by
    intro call
    rw [Connection.rest, hreading]
  have hconverse := fun call => @converse_some _ _ _ connection.heard.length _ call hline
  simp only [if_neg hclosed, if_neg hlong, if_neg hblank] at hconverse
  cases hcommand : Codec.read (trim (String.ofList line)) with
  | error failure =>
      rw [hcommand] at hread
      simp only [hcommand] at hconverse
      obtain rfl := Option.some.inj hread
      refine h.put hc ⟨hidle, rfl, le_rfl, by simp, fun call hfollows => ?_⟩
      refine hfollows.to (hrest call) rfl rfl ?_
      rw [hconverse]
  | ok command =>
      rw [hcommand] at hread
      simp only [hcommand] at hconverse
      -- a connection that subscribes asks nothing of the state task
      by_cases hsubscribe : command = .subscribe
      · subst hsubscribe
        simp only at hread
        obtain rfl := Option.some.inj hread
        refine h.put hc ⟨hidle, rfl, by simp, by simp, fun call hfollows => ?_⟩
        refine hfollows.to (hrest call) rfl rfl ?_
        rw [hconverse]
        simp [Talk.behind]
      · have hask : s.ask c { connection with unread := connection.unread.drop read }
            (trim (String.ofList line)) command = some s' := by
          cases command <;> first | exact hread | exact absurd rfl hsubscribe
        refine h.ask hc hreading (fun call hfollows => ?_) hask
        refine hfollows.to (hrest call) rfl rfl ?_
        rw [hconverse]
        cases command <;> first | rfl | exact absurd rfl hsubscribe

theorem Inv.read (h : s.Inv) (hc : s.connections[c]? = some connection)
    (hreading : connection.phase = .reading) (hread : s.readOne c connection = some s') :
    s'.Inv := by
  have hidle : connection.awaits = none := by rw [Connection.awaits, hreading]
  have hrest : ∀ call : ℕ → Command → Response, connection.rest call =
      some (converse call connection.heard.length connection.unread) := by
    intro call
    rw [Connection.rest, hreading]
  unfold readOne at hread
  cases hline : readLine connection.unread with
  | none =>
      rw [hline] at hread
      obtain rfl := Option.some.inj hread
      refine h.put hc ⟨hidle, rfl, le_rfl, by simp, fun call hfollows => ?_⟩
      refine hfollows.to (hrest call) rfl rfl ?_
      rw [converse_none hline]
  | some pair =>
      rw [hline] at hread
      obtain ⟨line, read⟩ := pair
      simp only at hread
      have hconverse := fun call => @converse_some _ _ _ connection.heard.length _ call hline
      split_ifs at hread with hclosed hlong hblank
      · obtain rfl := Option.some.inj hread
        refine h.put hc ⟨hidle, rfl, le_rfl, by simp, fun call hfollows => ?_⟩
        refine hfollows.to (hrest call) rfl rfl ?_
        rw [hconverse, if_pos hclosed]
      · obtain rfl := Option.some.inj hread
        refine h.put hc ⟨hidle, rfl, le_rfl, by simp, fun call hfollows => ?_⟩
        refine hfollows.to (hrest call) rfl rfl ?_
        rw [hconverse, if_neg hclosed, if_pos hlong]
      · obtain rfl := Option.some.inj hread
        refine h.put hc ⟨hidle, ?_, le_rfl, fun _ => Or.inl hreading, fun call hfollows => ?_⟩
        · show Connection.awaits { connection with unread := _ } = none
          rw [Connection.awaits, hreading]
        · have hlater : Connection.rest call
              { connection with unread := connection.unread.drop read } =
                some (converse call connection.heard.length (connection.unread.drop read)) := by
            rw [Connection.rest, hreading]
          refine hfollows.to (hrest call) rfl hlater ?_
          rw [hconverse, if_neg hclosed, if_neg hlong, if_pos hblank]
      · exact h.readCommand hc hreading hclosed hlong hblank hline hread

theorem Inv.hear (h : s.Inv) (hc : s.connections[c]? = some connection) {reply : ℕ}
    {line : String} {command : Command} (hphase : connection.phase = .waiting reply line command)
    (hhear : s.hearOne c connection reply line = some s') : s'.Inv := by
  have htracked := h.tracked.hear hc hphase hhear
  have hasked := h.asker c connection reply line command hc hphase
  unfold hearOne at hhear
  cases hfind : s.replies.find? fun sent => sent.1 == reply with
  | none => simp [hfind] at hhear
  | some sent =>
      rw [hfind] at hhear
      obtain rfl := Option.some.inj hhear
      have hreply : sent.1 = reply := by simpa using List.find?_some hfind
      have hlogged := h.tracked.logged sent (List.mem_of_find?_eq_some hfind)
      refine ⟨h.serve, htracked, h.queue, ?_, ?_, h.distinct, ?_⟩
      · intro i other reply' line' command' hi hother
        rcases getElem?_set hc hi with ⟨_, rfl⟩ | ⟨_, hsame⟩
        · cases hother
        · exact h.asker i other reply' line' command' hsame hother
      · exact h.earlier_set hc (Nat.le_refl _) (by simp)
      · intro i other call hi hagrees
        rcases getElem?_set hc hi with ⟨rfl, rfl⟩ | ⟨_, hother⟩
        · have hanswer : call connection.heard.length command = sent.2 := by
            apply hagrees reply ⟨i, connection.heard.length, command⟩ sent.2 hasked rfl
            rw [← hreply]
            exact hlogged
          have hfollows := h.follows i connection call hc hagrees
          have hrest : connection.rest call =
              some ((converse call (connection.heard.length + 1) connection.unread).after line
                (call connection.heard.length command)) := by
            rw [Connection.rest, hphase]
          refine hfollows.to hrest rfl rfl ?_
          rw [hanswer]
        · exact h.follows i other call hother hagrees

theorem Inv.lose (h : s.Inv) (hc : s.connections[c]? = some connection)
    (hidle : connection.awaits = none) : (s.put c { connection with phase := .lost }).Inv :=
  h.put hc ⟨hidle, rfl, le_rfl, by simp, fun _ hfollows => hfollows.lose⟩

theorem Inv.write (h : s.Inv) (hc : s.connections[c]? = some connection) {line : String}
    {response : Response} (hphase : connection.phase = .writing line response) :
    (s.put c { connection with
      phase := .reading
      heard := connection.heard ++ [line]
      answers := connection.answers ++ [response] }).Inv := by
  have hidle : connection.awaits = none := by rw [Connection.awaits, hphase]
  refine h.put hc ⟨hidle, rfl, by simp, fun _ => Or.inr (by simp), fun call hfollows => ?_⟩
  have hrest : connection.rest call =
      some ((converse call (connection.heard.length + 1) connection.unread).after line
        response) := by
    rw [Connection.rest, hphase]
  refine hfollows.to hrest rfl rfl ?_
  simp [Talk.behind, Talk.after]

theorem Inv.refuse (h : s.Inv) (hc : s.connections[c]? = some connection)
    (hphase : connection.phase = .refusing) :
    (s.put c { connection with
      phase := .over .refused
      answers := connection.answers ++ [oversized] }).Inv := by
  have hidle : connection.awaits = none := by rw [Connection.awaits, hphase]
  refine h.put hc ⟨hidle, rfl, by simp, by simp, fun call hfollows => ?_⟩
  have hrest : connection.rest call = some ⟨[], [oversized], .refused⟩ := by
    rw [Connection.rest, hphase]
  refine hfollows.to hrest rfl rfl ?_
  simp [Talk.behind]

theorem Inv.accept (h : s.Inv) (sent : List UInt8) :
    Inv { s with connections := s.connections ++ [⟨sent, sent, .reading, [], []⟩] } := by
  have hsplit : ∀ {i : ℕ} {other : Connection},
      (s.connections ++ [⟨sent, sent, .reading, [], []⟩])[i]? = some other →
        s.connections[i]? = some other ∨ other = ⟨sent, sent, .reading, [], []⟩ := by
    intro i other hi
    rcases Nat.lt_or_ge i s.connections.length with hlt | hge
    · rw [List.getElem?_append_left hlt] at hi
      exact Or.inl hi
    · rw [List.getElem?_append_right hge] at hi
      right
      exact List.mem_singleton.mp (List.mem_of_getElem? hi)
  refine ⟨h.serve, ⟨h.tracked.once, ?_, h.tracked.logged⟩, h.queue, ?_, ?_, h.distinct, ?_⟩
  · have hnone : ([⟨sent, sent, .reading, [], []⟩] : List Connection).filterMap
        Connection.awaits = [] := rfl
    have hplaced := h.tracked.placed
    rw [awaited] at hplaced ⊢
    rw [List.filterMap_append, hnone, List.append_nil]
    exact hplaced
  · intro i other reply line command hi hphase
    rcases hsplit hi with hold | rfl
    · exact h.asker i other reply line command hold hphase
    · cases hphase
  · intro ask hask
    obtain ⟨other, hother, hearlier⟩ := h.earlier ask hask
    refine ⟨other, ?_, hearlier⟩
    rw [List.getElem?_append_left (List.getElem?_eq_some_iff.mp hother).1, hother]
  · intro i other call hi hagrees
    rcases hsplit hi with hold | rfl
    · exact h.follows i other call hold hagrees
    · exact Connection.follows_start sent

omit [External] [Codec] in
theorem Agrees.of_log {call : ℕ → Command → Response} (h : s'.Agrees c call)
    (hasks : s'.asks = s.asks) (hlog : s.log ⊆ s'.log) : s.Agrees c call := by
  intro reply ask response hask hconnection hlogged
  exact h reply ask response (by rw [hasks, hask]) hconnection (hlog hlogged)

theorem Inv.task (h : s.Inv) {act : Act} {serve : Serve} (hact : act.isSend = false)
    (hserve : s.serve.step os act = some serve) :
    Inv { s.dispatch (replied os s.serve act) with serve := serve } := by
  obtain ⟨hmoved, hinbox⟩ := channels_step h.serve hact hserve
  refine ⟨h.serve.step hserve, h.tracked.dispatch hmoved, ?_, h.asker, h.earlier, h.distinct, ?_⟩
  · intro command reply hmem
    exact h.queue command reply (hinbox hmem)
  · intro c connection call hc hagrees
    exact h.follows c connection call hc (hagrees.of_log rfl (List.subset_append_left _ _))

theorem Inv.deliver (h : s.Inv) {reply : ℕ} (hdeliver : s.deliverOne reply = some s') :
    s'.Inv := by
  have htracked := h.tracked.deliver hdeliver
  unfold deliverOne at hdeliver
  cases hfind : s.tasks.find? fun answer => answer.1 == reply with
  | none => simp [hfind] at hdeliver
  | some answer =>
      rw [hfind] at hdeliver
      obtain rfl := Option.some.inj hdeliver
      refine ⟨h.serve, htracked, h.queue, h.asker, h.earlier, h.distinct, ?_⟩
      intro c connection call hc hagrees
      exact h.follows c connection call hc (hagrees.of_log rfl (List.subset_append_left _ _))

/-- **Every step keeps the invariant.** -/
theorem Inv.step (h : s.Inv) {turn : Turn} (hstep : (system os).step s turn = some s') :
    s'.Inv := by
  have hstep : s.step os turn = some s' := hstep
  cases turn with
  | accept sent =>
      obtain rfl := Option.some.inj hstep
      exact h.accept sent
  | task act =>
      simp only [Clients.step, Option.ite_none_left_eq_some, Option.map_eq_some_iff] at hstep
      obtain ⟨hact, serve, hserve, rfl⟩ := hstep
      exact h.task (by simpa using hact) hserve
  | deliver reply => exact h.deliver hstep
  | read c granted =>
      simp only [Clients.step] at hstep
      cases hc : s.connections[c]? with
      | none => simp [hc] at hstep
      | some connection =>
          simp only [hc] at hstep
          cases hphase : connection.phase with
          | reading =>
              simp only [hphase] at hstep
              cases granted with
              | true => exact h.read hc hphase hstep
              | false =>
                  obtain rfl := Option.some.inj hstep
                  exact h.lose hc (by rw [Connection.awaits, hphase])
          | _ => simp [hphase] at hstep
  | hear c =>
      simp only [Clients.step] at hstep
      cases hc : s.connections[c]? with
      | none => simp [hc] at hstep
      | some connection =>
          simp only [hc] at hstep
          cases hphase : connection.phase with
          | waiting reply line command =>
              simp only [hphase] at hstep
              exact h.hear hc hphase hstep
          | _ => simp [hphase] at hstep
  | write c granted =>
      simp only [Clients.step] at hstep
      cases hc : s.connections[c]? with
      | none => simp [hc] at hstep
      | some connection =>
          simp only [hc] at hstep
          cases hphase : connection.phase with
          | writing line response =>
              simp only [hphase] at hstep
              cases granted with
              | true =>
                  obtain rfl := Option.some.inj hstep
                  exact h.write hc hphase
              | false =>
                  obtain rfl := Option.some.inj hstep
                  exact h.lose hc (by rw [Connection.awaits, hphase])
          | refusing =>
              simp only [hphase] at hstep
              cases granted with
              | true =>
                  obtain rfl := Option.some.inj hstep
                  exact h.refuse hc hphase
              | false =>
                  obtain rfl := Option.some.inj hstep
                  exact h.lose hc (by rw [Connection.awaits, hphase])
          | _ => simp [hphase] at hstep

theorem inv_of_reachable {start : DaemonState} (hstart : DaemonState.Started os start)
    (h : (system os).Reachable (of start) s) : s.Inv :=
  System.invariant (inv_of hstart) (fun _ _ _ h => h.step) h

/-! ### Each client alone -/

/-- The answers that were sent to what a connection asked. -/
def callOf (s : Clients) (c : ℕ) (asked : ℕ) (command : Command) : Response :=
  ((s.log.find? fun sent => s.asks[sent.1]? == some ⟨c, asked, command⟩).map Prod.snd).getD .ok

omit [External] [Codec] in
theorem Tracked.log_unique (h : s.Tracked) {reply : ℕ} {response response' : Response}
    (hlog : (reply, response) ∈ s.log) (hlog' : (reply, response') ∈ s.log) :
    response = response' := by
  have hnodup : s.told.Nodup :=
    (List.nodup_append.mp (h.once.nodup_iff.mpr List.nodup_range)).2.1
  have hsame := List.inj_on_of_nodup_map hnodup hlog hlog' rfl
  exact (Prod.mk.inj hsame).2

/-- No connection asks twice behind the same lines, so there are answers that agree
with those sent. -/
theorem Inv.agrees_callOf (h : s.Inv) : s.Agrees c (s.callOf c) := by
  rintro reply ⟨i, asked, command⟩ response hask hi hlogged
  obtain rfl : i = c := hi
  have hsome : ∃ sent, s.log.find? (fun sent =>
      s.asks[sent.1]? == some ⟨i, asked, command⟩) = some sent := by
    rw [← Option.isSome_iff_exists, List.find?_isSome]
    exact ⟨_, hlogged, by simp [hask]⟩
  obtain ⟨sent, hfind⟩ := hsome
  have hsent : s.asks[sent.1]? = some ⟨i, asked, command⟩ := by
    simpa using List.find?_some hfind
  have hreply : sent.1 = reply := by
    obtain ⟨hlt, hget⟩ := List.getElem?_eq_some_iff.mp hsent
    obtain ⟨hlt', hget'⟩ := List.getElem?_eq_some_iff.mp hask
    have hdistinct := List.nodup_iff_injective_getElem.mp h.distinct
    have hfin := @hdistinct ⟨sent.1, by simpa using hlt⟩ ⟨reply, by simpa using hlt'⟩
      (by simp [hget, hget'])
    exact congrArg Fin.val hfin
  have hmem := List.mem_of_find?_eq_some hfind
  obtain ⟨_, answer⟩ := sent
  obtain rfl : _ = reply := hreply
  rw [callOf, hfind]
  exact h.tracked.log_unique hmem hlogged

/-- **Every connection talks to its client as if it were the only one.** Whatever the
others ask and whenever the task, the scripts and the connections take their steps,
what a connection has heard and answered is the beginning of the conversation
`converse` has with its client, and all of it once the connection is over; and what
it answers a command is the reply that was sent on the channel the command was sent
with. -/
theorem converse_alone {start : DaemonState} (hstart : DaemonState.Started os start)
    (hreach : (system os).Reachable (of start) s) (hc : s.connections[c]? = some connection) :
    ∃ call, s.Agrees c call ∧
      connection.heard <+: (converse call 0 connection.sent).heard ∧
      connection.answers <+: (converse call 0 connection.sent).answers ∧
      ∀ ending, connection.phase = .over ending →
        converse call 0 connection.sent = ⟨connection.heard, connection.answers, ending⟩ := by
  have hinv := inv_of_reachable hstart hreach
  have hfollows := hinv.follows c connection (s.callOf c) hc hinv.agrees_callOf
  refine ⟨s.callOf c, hinv.agrees_callOf, hfollows.prefixes.1, hfollows.prefixes.2, ?_⟩
  intro ending hover
  exact hfollows.over hover

end inv

/-- A client that has the init script run and one that asks for the rules. -/
def twoClients : List Turn :=
  [.accept (utf8Bytes "\x7b\"cmd\":\"on\"\x7d\n".toList),
    .accept (utf8Bytes "\x7b\"cmd\":\"rules\"\x7d\n".toList), .read 0 true, .read 1 true]

/-- The second is answered before the first. -/
def answering : List Turn :=
  [.task (.take DaemonState.anyMoment), .task (.take DaemonState.anyMoment), .hear 1, .write 1 true,
    .read 1 true, .task (.exit ⟨1⟩ .succeeded), .task (.settle DaemonState.anyMoment), .deliver 0,
    .hear 0, .write 0 true]

/-- What the two clients and the state task come to. -/
def visited (turns : List Turn) : Option Clients :=
  (@system External.ascii Codec.brief DaemonState.willing).run (of DaemonState.fresh) turns

/-- The client that asks for the rules, after it was answered. -/
theorem converse_alone_twoClients : ∃ s connection call,
    visited (twoClients ++ answering) = some s ∧
      s.connections[1]? = some connection ∧ connection.answers = [.rules []] ∧ s.Agrees 1 call ∧
      connection.answers <+: (@converse Codec.brief call 0 connection.sent).answers := by
  have hvisited : (visited (twoClients ++ answering)).bind (fun s =>
      s.connections[1]?.map Connection.answers) = some [.rules []] := by decide +kernel
  obtain ⟨s, hs, hsecond⟩ := Option.bind_eq_some_iff.mp hvisited
  obtain ⟨connection, hc, hanswers⟩ := Option.map_eq_some_iff.mp hsecond
  have hstart : DaemonState.Started DaemonState.willing DaemonState.fresh :=
    DaemonState.started_fresh rfl rfl
  obtain ⟨call, hagrees, _, hprefix, _⟩ := @converse_alone External.ascii Codec.brief
    DaemonState.willing s 1 connection DaemonState.fresh hstart ⟨_, hs⟩ hc
  exact ⟨s, connection, call, hs, hc, hanswers, hagrees, hprefix⟩

end Clients

end Nhop.Daemon
