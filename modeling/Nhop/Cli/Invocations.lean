import Nhop.Cli.Client
import Nhop.Daemon.Isolation

/-!
The commands an init script runs, among everything else the daemon is asked.

A command can fail on either side of the socket. What the daemon refuses marks the
run in flight, and a marked run is never committed. What the client refuses by
itself, or fails to get across, the daemon does not hear of, and the run is
committed as if the command had not been there. The one exception is a refused
list of upstreams, which the client follows by an address no daemon reads.

`Shell.Told` is the condition under which a step keeps the two sides together: a
client that gives up has left its run marked, or the run was lost already.
-/

namespace Nhop.Cli

open Foundation Ipc Rules Proxy Upstream Daemon

/-! ### Clients -/

/-- A command line the script runs. -/
structure Invocation where
  /-- Whether the paths of the installation are found. -/
  located : Bool
  /-- The id of the run, as the environment has it. -/
  loadId : Option String
  arguments : List String
  deriving DecidableEq, Repr

/-- What the network and the daemon let a client see of one exchange. -/
inductive Conversation
  /-- The command never arrives. -/
  | unsent (failure : Unreachable)
  | answered
  /-- The command arrives, and its answer does not. -/
  | unheard (failure : Unreachable)
  deriving DecidableEq, Repr

/-- Where a client is. -/
inductive Phase
  | asking (command : Command)
  /-- A list of upstreams was refused, and the run is still to be failed. -/
  | refused (exit : Exit)
  | exited (exit : Exit)
  deriving DecidableEq, Repr

/-- A run, by how many ended before it and the id it carries. Ids recur, so the
first is what tells it from every other. -/
structure Run where
  turn : ℕ
  id : LoadId
  deriving DecidableEq, Repr

/-- A client run by the script of a run. -/
structure Client where
  run : Run
  phase : Phase
  deriving DecidableEq, Repr

/-- The code `main` exits with when it does not find the paths. -/
def internalExit : Exit := .failed

/-- What a client does up to its first command. A command line that changes no
configuration is not one of these. -/
def Invocation.phase? [External] [Argh] (invocation : Invocation) (load : LoadId) :
    Option Phase :=
  if invocation.located then
    match Argh.fromArgs readers invocation.arguments with
    | .error early => some (.exited (if early.asked then .success else .invalidArgs))
    | .ok subcommand => (subcommand.command? (some load)).map .asking
  else some (.exited internalExit)

def loadOfEnv (text : Option String) : Option LoadId := text.bind LoadId.parse

/-- What a client does once it has its answer, or has none. -/
def Phase.after (command : Command) : Except Unreachable Response → Phase
  | .error failure => .exited (.ofUnreachable failure)
  | .ok response =>
      match command, response with
      | .setUpstreams _ _ (some _), .err .invalidArgs _ => .refused (render response)
      | _, _ => .exited (render response)

theorem Phase.after_ok (command : Command) (response : Response) :
    Phase.after command (.ok response) = .exited (render response) ∨
      Phase.after command (.ok response) = .refused (render response) := by
  unfold Phase.after
  split
  · next h => cases h
  · next h =>
      cases h
      split
      · exact Or.inr rfl
      · exact Or.inl rfl

/-! ### Runs -/

instance (taken : List Taken) : Decidable (Ledger.NoneRejected taken) :=
  inferInstanceAs (Decidable (∀ entry ∈ taken, _))

/-- How a run ended, for the record. -/
structure Ended where
  run : Run
  outcome : ScriptOutcome
  taken : List Taken
  recorded : Option LoadOutcome
  before : Serving
  after : Serving

/-- The script failed, or one of the commands was rejected. -/
def Ended.Lost (ended : Ended) : Prop :=
  ¬(ended.outcome = .succeeded ∧ Ledger.NoneRejected ended.taken)

/-- The run was not committed, and what served before it serves after it. -/
def Ended.Kept (ended : Ended) : Prop :=
  ended.recorded ≠ some .ok ∧ ended.after = ended.before

/-- The run in flight. -/
def current (s : Serve) : Option Run :=
  s.state.inFlight.map fun id => ⟨s.finished.length, id⟩

/-- The daemon, the clients the scripts have run, and how the runs so far ended. -/
structure Shell where
  serve : Serve
  clients : List Client
  ended : List Ended

inductive ShellAct
  /-- Something that no client of a script does. -/
  | around (act : Act)
  | invoke (invocation : Invocation)
  /-- A client says what it has to say next. -/
  | ask (client : ℕ) (moment : Moment) (conversation : Conversation)

namespace Shell

def of (start : DaemonState) : Shell := ⟨.of start, [], []⟩

/-- What the end of a script that is taken next leaves for the record. -/
def ends (s s' : Serve) : Act → List Ended
  | .settle _ =>
      match s.completions with
      | [] => []
      | (_, outcome) :: _ => (current s).toList.map fun run =>
          ⟨run, outcome, s.taken, s'.state.recorded, s.state.serving, s'.state.serving⟩
  | _ => []

section system

variable [External]

/-- The state task takes a command and answers it. The answer of a command that
starts a run comes later. -/
def taking (os : Os) (moment : Moment) (s : Serve) (command : Command) :
    Option (Response × Serve) :=
  match s.state.handle os moment command 0 with
  | (some response, _) => some (response, s.takeOne os moment command 0 s.inbox)
  | (none, _) => none

variable [Wire]

/-- The line a command travels as. -/
def wire (command : Command) : List Char := Wire.line command ++ ['\n']

/-- One exchange between a client and the daemon. -/
def converse (os : Os) (moment : Moment) (s : Serve) (command : Command) :
    Conversation → Option (Except Unreachable Response × Serve)
  | .unsent failure => some (.error failure, s)
  | .answered =>
      match hear (wire command) with
      | .hangUp => some (.error .closed, s)
      | .oversized => some (.ok oversized, s)
      | .whole => (taking os moment s command).map fun took => (.ok took.1, took.2)
  | .unheard failure =>
      match hear (wire command) with
      | .hangUp | .oversized => some (.error failure, s)
      | .whole => (taking os moment s command).map fun took => (.error failure, took.2)

variable [Argh]

def step (os : Os) (s : Shell) : ShellAct → Option Shell
  | .around act => (Serve.step os s.serve act).map fun serve =>
      { s with serve := serve, ended := s.ended ++ ends s.serve serve act }
  | .invoke invocation =>
      match loadOfEnv invocation.loadId with
      | none => none
      | some id =>
          if id ∈ s.serve.scripts then
            (invocation.phase? id).map fun phase =>
              { s with clients := s.clients ++ [⟨⟨s.serve.finished.length, id⟩, phase⟩] }
          else none
  | .ask n moment conversation =>
      match s.clients[n]? with
      | some ⟨run, .asking command⟩ =>
          (converse os moment s.serve command conversation).map fun heard =>
            { s with
              serve := heard.2
              clients := s.clients.set n ⟨run, .after command heard.1⟩ }
      | some ⟨run, .refused exit⟩ =>
          (converse os moment s.serve (.unreadableUpstream run.id) conversation).map fun heard =>
            { s with
              serve := heard.2
              clients := s.clients.set n ⟨run, .exited exit⟩ }
      | _ => none

/-- The daemon and the scripts it runs as a system. -/
def system (os : Os) : System Shell ShellAct := ⟨step os⟩

end system

/-- Every client that exited non-zero belongs to a run that is not committed. -/
def FailsRuns (s : Shell) : Prop :=
  ∀ client ∈ s.clients, ∀ exit, client.phase = .exited exit → exit ≠ .success →
    ∀ ended ∈ s.ended, ended.run.turn = client.run.turn → ended.Kept

/-! ### When a failed command reaches its run -/

/-- The run cannot be committed any more, or ended without being committed. -/
def Doomed (s : Shell) (run : Run) : Prop :=
  (current s.serve = some run ∧ ¬Ledger.NoneRejected s.serve.taken) ∨
    (run.turn < s.serve.finished.length ∧
      ∀ ended ∈ s.ended, ended.run.turn = run.turn → ended.Lost)

/-- Whether the command names a list of upstreams. -/
def isList : Command → Bool
  | .setUpstreams _ _ (some _) => true
  | _ => false

section told

variable [External]

/-- The arguments are read, or ask for help. -/
def readable [Argh] (invocation : Invocation) : Bool :=
  invocation.located &&
    match Argh.fromArgs readers invocation.arguments with
    | .ok _ => true
    | .error early => early.asked

variable [Wire]

/-- The line of a command is short enough to be read. -/
def Fits (command : Command) : Prop := byteCount (Wire.line command) < lineLimit

/-- The line is too long, and is refused rather than dropped. -/
def Overflows (command : Command) : Prop :=
  lineLimit ≤ byteCount (Wire.line command) ∧ (takeBytes lineLimit (Wire.line command)).isSome

/-- The run in flight would reject the command. -/
def rejects (s : Shell) (command : Command) : Bool :=
  s.serve.state.load.any fun load => (load.staged.take command).1.isErr

/-- A client's first command gets to the run it belongs to, and back if the run
accepts it. A list of upstreams need not, as long as it is refused. -/
def Reaches (s : Shell) (run : Run) (command : Command) : Conversation → Prop
  | .unsent _ => False
  | .answered =>
      (current s.serve = some run ∧ Fits command) ∨
        (isList command = true ∧ Overflows command)
  | .unheard _ =>
      current s.serve = some run ∧ Fits command ∧ s.rejects command = true

/-- The address no daemon reads gets to the run. -/
def Follows (s : Shell) (run : Run) : Conversation → Prop
  | .unsent _ => False
  | .answered | .unheard _ =>
      current s.serve = some run ∧ Fits (.unreadableUpstream run.id)

/-- What the client says next gets to its run. -/
def Conveyed (s : Shell) (conversation : Conversation) : Option Client → Prop
  | some ⟨run, .asking command⟩ => s.Doomed run ∨ s.Reaches run command conversation
  | some ⟨run, .refused _⟩ => s.Doomed run ∨ s.Follows run conversation
  | some ⟨_, .exited _⟩ | none => True

/-- A client that gives up in this step leaves its run marked. -/
def Told [Argh] (s : Shell) : ShellAct → Prop
  | .around _ => True
  | .invoke invocation =>
      readable invocation = true ∨ ∀ id ∈ loadOfEnv invocation.loadId,
        s.Doomed ⟨s.serve.finished.length, id⟩
  | .ask n _ conversation => s.Conveyed conversation s.clients[n]?

instance (ended : Ended) : Decidable ended.Lost := inferInstanceAs (Decidable (¬_))

instance (s : Shell) (run : Run) : Decidable (s.Doomed run) :=
  inferInstanceAs (Decidable (_ ∨ _))

instance (command : Command) : Decidable (Fits command) := inferInstanceAs (Decidable (_ < _))

instance (command : Command) : Decidable (Overflows command) :=
  inferInstanceAs (Decidable (_ ∧ _))

instance (s : Shell) (run : Run) (command : Command) :
    (conversation : Conversation) → Decidable (s.Reaches run command conversation)
  | .unsent _ => inferInstanceAs (Decidable False)
  | .answered => inferInstanceAs (Decidable (_ ∨ _))
  | .unheard _ => inferInstanceAs (Decidable (_ ∧ _))

instance (s : Shell) (run : Run) :
    (conversation : Conversation) → Decidable (s.Follows run conversation)
  | .unsent _ => inferInstanceAs (Decidable False)
  | .answered | .unheard _ => inferInstanceAs (Decidable (_ ∧ _))

instance (s : Shell) (conversation : Conversation) :
    (client : Option Client) → Decidable (s.Conveyed conversation client)
  | some ⟨_, .asking _⟩ | some ⟨_, .refused _⟩ => inferInstanceAs (Decidable (_ ∨ _))
  | some ⟨_, .exited _⟩ | none => inferInstanceAs (Decidable True)

instance [Argh] (s : Shell) : (act : ShellAct) → Decidable (s.Told act)
  | .around _ => inferInstanceAs (Decidable True)
  | .invoke _ => inferInstanceAs (Decidable (_ ∨ _))
  | .ask _ _ _ => inferInstanceAs (Decidable (Conveyed _ _ _))

end told

end Shell

end Nhop.Cli
