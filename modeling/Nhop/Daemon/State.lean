import Nhop.Cli.Report
import Nhop.Daemon.Frontends
import Nhop.Daemon.Staging

/-!
The task that owns every piece of mutable daemon state.

It takes one command at a time and answers it, except that a reload is answered
when the run it starts has finished. Commands that belong to the run in flight
are staged; a run whose script succeeded and none of whose commands was rejected
is committed. Where the code reads the clock, asks for a file or binds an
address, the reading is a parameter.

The answer to `doctor` is left empty and `status` leaves out the settings read
from macOS; neither is decided here.
-/

namespace Nhop.Daemon

open Foundation Ipc Rules Proxy Upstream Cli

/-- How an init-script run ended. -/
inductive ScriptOutcome
  | succeeded
  | exited (code : Option ℤ)
  | timedOut
  | notRun (failure : OsError)
  deriving DecidableEq, Repr

/-- One init-script run the daemon is executing, and the request it answers. -/
structure InFlight where
  id : LoadId
  staged : Staging
  reply : ℕ
  deriving DecidableEq, Repr

/-- Where a mutating command applies. -/
inductive Target
  | staged
  | live
  | refused (response : Response)
  deriving DecidableEq, Repr

/-- How a finished run ended, as recorded and as answered. -/
structure Settled where
  outcome : LoadOutcome
  command : Option String
  message : Option String
  deriving DecidableEq, Repr

/-- Listener a committing run could not open. -/
inductive CannotBind
  | frontEnds (failure : OsError)
  | forward (failure : OsError)
  deriving DecidableEq, Repr

def CannotBind.command : CannotBind → FailedCommand
  | .frontEnds _ => .setListen
  | .forward _ => .addForward

def CannotBind.message : CannotBind → String
  | .frontEnds failure => "the init script could not move the front ends: " ++ toString failure
  | .forward failure => "the init script could not open a forward: " ++ toString failure

/-- What a request meets: the clock and the files there are. -/
structure Moment where
  now : ℤ
  isFile : String → Bool

structure DaemonState where
  initFile : String
  rules : Ruleset
  upstream : Arc UpstreamEntries
  cells : Verdicts
  frontends : Frontends
  httpListen : SocketAddr
  socksListen : SocketAddr
  forwards : Forwards
  unconfigured : Health
  initPath : Option String
  lastLoad : Option LastLoadView
  loadIds : LoadIds
  load : Option InFlight
  loadTimeout : ℕ
  hold : ℕ
  /-- How many times an address has been bound. -/
  calls : ℕ

/-! ### Answers -/

def inProgress (message : String) : Response := .err .loadInProgress message

def refused (message : String) : Target := .refused (inProgress message)

def invalid (failure : InvalidRule) : Response := .err failure.errKind failure.message

def unreadable [External] (failure : UnusableUpstreams) : Response :=
  .err .invalidArgs failure.display

def unbindable (failure : OsError) : Response :=
  .err .internal ("cannot move the front ends: " ++ toString failure)

def unopenable (failure : OsError) : Response :=
  .err .internal ("cannot open the forward: " ++ toString failure)

def duplicate (failure : DuplicateForward) : Response := .err .invalidArgs (toString failure)

def streamed : Response :=
  .err .internal "subscribe is served by the connection it arrives on, not by the state task"

def vanished : Response :=
  .err .internal "the init run ended while this command was in flight"

/-- The answer to a command a run was given, beside what the run has built then. -/
def replied {ε : Type} (failed : ε → Response) (result : Except ε Unit × Staging) :
    Response × Staging :=
  match result with
  | (.ok _, staged) => (.ok, staged)
  | (.error failure, staged) => (failed failure, staged)

def named (failed : Option FailedCommand) : Option String := failed.map FailedCommand.name

namespace DaemonState

/-- The addresses the front ends bind until the init script moves them. -/
def defaultListen : Listen := ⟨.v4 0x7f000001#32 7890, .v4 0x7f000001#32 7891⟩

/-- How long an init-script run may take, in seconds. -/
def defaultLoadTimeout : ℕ := 30

/-- What the state task starts with, over front ends that hold `listen`. -/
def new (initFile : String) (frontends : Frontends) (listen : Listen) (loadTimeout hold : ℕ)
    (calls : ℕ) (now : ℤ) : DaemonState where
  initFile := initFile
  rules := .empty
  upstream := ⟨1, .empty⟩
  cells := Cells.empty ⟨⟨""⟩, .down, now⟩
  frontends := frontends
  httpListen := listen.http
  socksListen := listen.socks
  forwards := .empty
  unconfigured := ⟨.down, now⟩
  initPath := none
  lastLoad := none
  loadIds := ⟨0⟩
  load := none
  loadTimeout := loadTimeout
  hold := hold
  calls := calls

/-- Binds the front ends and starts the state task over them. -/
def spawn (os : Os) (initFile : String) (listen : Listen) (hold : ℕ) (now : ℤ) :
    Except OsError DaemonState :=
  match Frontends.bind os listen with
  | (.error failure, _) => .error failure
  | (.ok frontends, calls) =>
      .ok (new initFile frontends (frontends.listening.getD listen) defaultLoadTimeout hold calls
        now)

/-! ### Reports -/

def listen (state : DaemonState) : Listen := ⟨state.httpListen, state.socksListen⟩

/-- Whether the front ends hold the addresses they are configured to bind. -/
def bindState (state : DaemonState) : Bool :=
  match state.frontends with
  | .unbound => false
  | .bound _ => true

/-- The first entry's address and verdict. -/
def first (state : DaemonState) (list : UpstreamEntries) : UpstreamAddr × Health :=
  match list.first with
  | none => (⟨""⟩, state.unconfigured)
  | some entry => (entry.upstream.written, entry.health.verdict state.cells)

def report (moment : Moment) (state : DaemonState) : Response :=
  let list := state.upstream.val
  let (upstream, health) := state.first list
  let selected := list.selected state.cells moment.now state.hold
  .status
    { httpListen := state.httpListen
      httpBound := state.bindState
      socksListen := state.socksListen
      socksBound := state.bindState
      forwards := state.forwards.views
      upstream := upstream
      health := health.state
      healthChangedAt := health.changedAt
      upstreams := upstreamViews list state.cells selected
      initPath := state.initPath
      lastLoad := state.lastLoad
      rules :=
        { require := counted (state.rules.count .require)
          prefer := counted (state.rules.count .prefer)
          never := counted (state.rules.count .never) } }

def decision [External] (moment : Moment) (state : DaemonState) (host : Host) (port : Port) :
    DecisionView :=
  let list := state.upstream.val
  let selected := list.selected state.cells moment.now state.hold
  let upstream := (list.required selected).map fun entry => entry.upstream.written
  decisionView state.rules upstream host port

/-! ### Publication -/

/-- Swaps in the entries for a list, in a new allocation. -/
def adoptUpstream (now : ℤ) (state : DaemonState) (upstreams : Option Upstreams) : DaemonState :=
  match upstreams with
  | none => state
  | some upstreams =>
      let adopted := state.upstream.val.adopted upstreams now state.cells
      { state with
        upstream := ⟨state.upstream.ptr + 1, adopted.1⟩
        cells := adopted.2 }

def publish (now : ℤ) (state : DaemonState) (rules : Ruleset) (upstream : Option Upstreams) :
    DaemonState :=
  adoptUpstream now { state with rules := rules } upstream

def rebind (os : Os) (state : DaemonState) (listen : Listen) : Except OsError Unit × DaemonState :=
  match state.frontends.rebind os state.calls listen with
  | (.error failure, frontends, calls) =>
      (.error failure, { state with frontends := frontends, calls := calls })
  | (.ok bound, frontends, calls) =>
      (.ok (), { state with
        frontends := frontends
        calls := calls
        httpListen := bound.http
        socksListen := bound.socks })

def rebindForwards (os : Os) (state : DaemonState) (forwards : Forwards) :
    Except OsError Unit × DaemonState :=
  match state.frontends.rebindForwards os state.calls forwards with
  | (.error failure, frontends, calls) =>
      (.error failure, { state with frontends := frontends, calls := calls })
  | (.ok bound, frontends, calls) =>
      (.ok (), { state with frontends := frontends, calls := calls, forwards := bound })

/-! ### Commands -/

def inFlight (state : DaemonState) : Option LoadId := state.load.map InFlight.id

/-- Where a mutating command that carries `load` applies. -/
def target (state : DaemonState) (load : Option LoadId) : Target :=
  match state.inFlight with
  | none =>
      match load with
      | none => .live
      | some stale => refused ("init run " ++ toString stale ++ " is no longer in progress")
  | some id =>
      match load with
      | some carried =>
          if carried = id then .staged
          else refused ("init run " ++ toString id ++ " is in progress, this command carries " ++
            toString carried)
      | none => refused ("init run " ++ toString id ++ " is in progress")

/-- Applies a command to the run in flight. -/
def staged (state : DaemonState) (apply : Staging → Response × Staging) :
    Response × DaemonState :=
  match state.load with
  | none => (vanished, state)
  | some load =>
      let (response, staged) := apply load.staged
      (response, { state with load := some { load with staged := staged } })

def turnOff (state : DaemonState) : Response × DaemonState :=
  match state.inFlight with
  | none => (.ok, { state with rules := .empty })
  | some id => (inProgress ("init run " ++ toString id ++ " is in progress"), state)

variable [External]

def addRule (state : DaemonState) (ruleClass : RuleClass) (kind : RuleKind) (value : RuleValue)
    (load : Option LoadId) : Response × DaemonState :=
  match state.target load with
  | .refused refusal => (refusal, state)
  | .staged => state.staged fun staged => replied invalid (staged.pushRule ruleClass kind value)
  | .live =>
      match state.rules.push ruleClass kind value with
      | .ok (_, rules) => (.ok, { state with rules := rules })
      | .error failure => (invalid failure, state)

def clearRules (state : DaemonState) (load : Option LoadId) : Response × DaemonState :=
  match state.target load with
  | .refused refusal => (refusal, state)
  | .staged => state.staged fun staged => (.ok, staged.clearRules)
  | .live => (.ok, { state with rules := .empty })

def setUpstream (moment : Moment) (state : DaemonState) (addr : UpstreamAddr)
    (fallbacks : List UpstreamAddr) (load : Option LoadId) : Response × DaemonState :=
  match state.target load with
  | .refused refusal => (refusal, state)
  | .staged => state.staged fun staged => replied unreadable (staged.setUpstream addr fallbacks)
  | .live =>
      match Upstreams.parse addr fallbacks with
      | .error failure => (unreadable failure, state)
      | .ok upstreams => (.ok, state.adoptUpstream moment.now (some upstreams))

def setListen (os : Os) (state : DaemonState) (listen : Listen) (load : Option LoadId) :
    Response × DaemonState :=
  match state.target load with
  | .refused refusal => (refusal, state)
  | .staged => state.staged fun staged => (.ok, staged.setListen listen)
  | .live =>
      match state.rebind os listen with
      | (.ok _, state) => (.ok, state)
      | (.error failure, state) => (unbindable failure, state)

def addForward (os : Os) (state : DaemonState) (forward : Forward) (load : Option LoadId) :
    Response × DaemonState :=
  match state.target load with
  | .refused refusal => (refusal, state)
  | .staged => state.staged fun staged => replied duplicate (staged.pushForward forward)
  | .live =>
      match state.forwards.push forward with
      | .error failure => (duplicate failure, state)
      | .ok forwards =>
          match state.rebindForwards os forwards with
          | (.ok _, state) => (.ok, state)
          | (.error failure, state) => (unopenable failure, state)

/-- Starts a run, to be answered when it has finished. -/
def reload (moment : Moment) (state : DaemonState) (path : Option String) (reply : ℕ) :
    Option Response × DaemonState :=
  match state.inFlight with
  | some id => (some (inProgress ("init run " ++ toString id ++ " is in progress")), state)
  | none =>
      let path :=
        match path with
        | some path => path
        | none => state.initPath.getD state.initFile
      if moment.isFile path then
        let (id, loadIds) := state.loadIds.issue
        (none, { state with
          loadIds := loadIds
          initPath := some path
          load := some ⟨id, .empty, reply⟩ })
      -- a path without a file uses up no id
      else (some (.err .notFound ("no init script at " ++ path)), state)

/-- An answer given at once. -/
def answered (result : Response × DaemonState) : Option Response × DaemonState :=
  (some result.1, result.2)

/-- An answer that takes the settings of the system proxy. A task of its own reads
them, holding the reply channel, and answers; the state task goes on meanwhile. -/
def readsProxy : Response → Bool
  | .status _ | .doctor => true
  | .ok | .rules _ | .decision _ | .err _ _ => false

/-- Takes one command and comes to the answer to it, unless it starts a run. The
answer is sent at once where it is not one that `readsProxy`. -/
def handle (os : Os) (moment : Moment) (state : DaemonState) (command : Command) (reply : ℕ) :
    Option Response × DaemonState :=
  match command with
  | .status => (some (state.report moment), state)
  | .rules => (some (.rules (ruleViews state.rules)), state)
  | .addRule ruleClass kind value load => answered (state.addRule ruleClass kind value load)
  | .clearRules load => answered (state.clearRules load)
  | .setUpstream addr load => answered (state.setUpstream moment addr [] load)
  | .setUpstreams addr fallbacks load => answered (state.setUpstream moment addr fallbacks load)
  | .setListen http socks load => answered (state.setListen os ⟨http, socks⟩ load)
  | .addForward listen host port load =>
      answered (state.addForward os ⟨listen, ⟨host, port⟩⟩ load)
  | .reload path => state.reload moment path reply
  | .on => state.reload moment none reply
  | .off => answered state.turnOff
  | .test host port => (some (.decision (state.decision moment host port)), state)
  | .doctor => (some .doctor, state)
  | .subscribe => (some streamed, state)

/-! ### The end of a run -/

/-- Makes what a run staged the live configuration. -/
def commit (os : Os) (now : ℤ) (state : DaemonState) (staged : Staging) :
    Except CannotBind Unit × DaemonState :=
  let committed := staged.commit
  let (moved, state) : Except OsError Unit × DaemonState :=
    match committed.listen with
    | none => (.ok (), state)
    | some listen => state.rebind os listen
  match moved with
  | .error failure => (.error (.frontEnds failure), state)
  | .ok _ =>
      match state.rebindForwards os committed.forwards with
      -- the front ends that moved stay where they are
      | (.error failure, state) => (.error (.forward failure), state)
      | (.ok _, state) => (.ok (), state.publish now committed.rules committed.upstream)

/-- Decides how a finished run ended, committing it when it may be. -/
def settle (os : Os) (now : ℤ) (state : DaemonState) (staged : Staging)
    (outcome : ScriptOutcome) : Settled × DaemonState :=
  match outcome with
  | .succeeded =>
      match staged.failure with
      -- the script may have gone on and succeeded after the command that failed
      | some failed =>
          (⟨.failed, some failed.name, some ("the init script was rejected on " ++ failed.name)⟩,
            state)
      | none =>
          match state.commit os now staged with
          | (.ok _, state) => (⟨.ok, none, none⟩, state)
          | (.error failure, state) =>
              (⟨.failed, some failure.command.name, some failure.message⟩, state)
  | .exited code =>
      let ended :=
        match code with
        | some code => "exited with status " ++ toString code
        | none => "was killed by a signal"
      (⟨.failed, named staged.failure,
        some ("the init script " ++ ended ++ ", its rules were discarded")⟩, state)
  | .timedOut =>
      (⟨.timedOut, none, some ("the init script did not finish within " ++
        toString state.loadTimeout ++ "s and was killed")⟩, state)
  | .notRun failure =>
      (⟨.failed, none, some ("the init script could not be run: " ++ toString failure)⟩, state)

/-- Ends the run in flight, answering the request that started it. -/
def finish (os : Os) (moment : Moment) (state : DaemonState) (outcome : ScriptOutcome) :
    Option (ℕ × Response) × DaemonState :=
  match state.load with
  | none => (none, state)
  | some load =>
      -- no run is in flight while this one is committed
      let (settled, state) := { state with load := none }.settle os moment.now load.staged outcome
      let state := { state with
        lastLoad := some ⟨moment.now, settled.outcome, settled.command⟩ }
      match settled.message with
      | none => (some (load.reply, state.report moment), state)
      | some message => (some (load.reply, .err .internal message), state)

end DaemonState

end Nhop.Daemon
