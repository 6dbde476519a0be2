import Nhop.Foundation.Standard

/-!
The wire contract shared by the daemon and its command-line client: the
commands a client sends, and what it is answered with.

A mutating command carries the id of the init run it belongs to, or none. Of
the status snapshot, the uptime and the settings macOS reports are left out:
nothing the daemon decides reads them.
-/

namespace Nhop.Ipc

open Foundation

/-- Identifier of a single init-script run. -/
structure LoadId where
  id : ℕ
  deriving DecidableEq, Repr

instance : ToString LoadId := ⟨fun load => toString load.id⟩

/-- Reads a load id the way the client reads it from its environment. -/
def LoadId.parse (text : String) : Option LoadId :=
  (parseUnsigned (2 ^ 64) (trim text)).map LoadId.mk

/-- Hostname or IP literal a connection is destined for. -/
structure Host where
  name : String
  deriving DecidableEq, Repr

abbrev Port := UInt16

/-- Right-hand side of a rule, interpreted according to its kind. -/
structure RuleValue where
  text : String
  deriving DecidableEq, Repr

/-- Address of an upstream as the operator wrote it. -/
structure UpstreamAddr where
  text : String
  deriving DecidableEq, Repr

/-- How a connection matching a rule is routed. -/
inductive RuleClass
  | require | prefer | never
  deriving DecidableEq, Repr

/-- What part of a destination a rule matches on. -/
inductive RuleKind
  | suffix | cidr | port | keyword
  deriving DecidableEq, Repr

/-- One request sent to the daemon. -/
inductive Command
  | addRule (ruleClass : RuleClass) (kind : RuleKind) (value : RuleValue)
      (load : Option LoadId)
  | clearRules (load : Option LoadId)
  | setUpstream (addr : UpstreamAddr) (load : Option LoadId)
  | setUpstreams (addr : UpstreamAddr) (fallbacks : List UpstreamAddr)
      (load : Option LoadId)
  | setListen (http socks : SocketAddr) (load : Option LoadId)
  | addForward (listen : SocketAddr) (host : Host) (port : Port) (load : Option LoadId)
  | reload (path : Option String)
  | on
  | off
  | status
  | rules
  | test (host : Host) (port : Port)
  | doctor
  | subscribe
  deriving DecidableEq, Repr

/-- The command pointing the router at `addr` followed by `fallbacks`. -/
def Command.upstreams (addr : UpstreamAddr) (fallbacks : List UpstreamAddr)
    (load : Option LoadId) : Command :=
  if fallbacks.isEmpty then .setUpstream addr load
  else .setUpstreams addr fallbacks load

/-- The address no daemon reads, worded for the error it comes back in. -/
def unreadableUpstreamText : String := "upstream fallbacks need a newer nhop daemon"

/-- A `set_upstream` that fails the run it belongs to. -/
def Command.unreadableUpstream (load : LoadId) : Command :=
  .setUpstream ⟨unreadableUpstreamText⟩ (some load)

/-- The run a mutating command belongs to; absent for a command that changes no
configuration by itself. -/
def Command.load? : Command → Option (Option LoadId)
  | .addRule _ _ _ load => some load
  | .clearRules load => some load
  | .setUpstream _ load => some load
  | .setUpstreams _ _ load => some load
  | .setListen _ _ load => some load
  | .addForward _ _ _ load => some load
  | .reload _ | .on | .off | .status | .rules | .test _ _ | .doctor | .subscribe => none

theorem Command.load?_unreadableUpstream (load : LoadId) :
    (Command.unreadableUpstream load).load? = some (some load) := rfl

/-! ### Answers -/

/-- Category of a failed command. -/
inductive ErrKind
  | notFound | upstreamDown | invalidArgs | loadInProgress | internal
  deriving DecidableEq, Repr

/-- Which side of the router serves a destination. -/
inductive DecisionKind
  | direct | never | upstream
  deriving DecidableEq, Repr

/-- Which way the bytes of a connection actually travelled. -/
inductive EffectiveHop
  | direct | upstream | fallbackDirect
  deriving DecidableEq, Repr

/-- Verdict on whether an upstream is usable. -/
inductive HealthState
  | up | down
  deriving DecidableEq, Repr

/-- How the most recent init-script run ended. -/
inductive LoadOutcome
  | ok | failed | timedOut
  deriving DecidableEq, Repr

structure RuleView where
  index : ℕ
  ruleClass : RuleClass
  kind : RuleKind
  value : RuleValue
  deriving DecidableEq, Repr

structure DecisionView where
  decision : DecisionKind
  ruleIndex : Option ℕ
  ruleClass : Option RuleClass
  nextHop : String
  deriving DecidableEq, Repr

structure LastLoadView where
  stamp : ℤ
  outcome : LoadOutcome
  command : Option String
  deriving DecidableEq, Repr

structure RuleCountsView where
  require : ℕ
  prefer : ℕ
  never : ℕ
  deriving DecidableEq, Repr

structure ForwardView where
  listen : SocketAddr
  host : Host
  port : Port
  deriving DecidableEq, Repr

structure UpstreamView where
  addr : UpstreamAddr
  health : HealthState
  healthChangedAt : ℤ
  selected : Bool
  deriving DecidableEq, Repr

/-- Snapshot of what the daemon knows about itself. -/
structure StatusView where
  httpListen : SocketAddr
  httpBound : Bool
  socksListen : SocketAddr
  socksBound : Bool
  forwards : List ForwardView
  upstream : UpstreamAddr
  health : HealthState
  healthChangedAt : ℤ
  upstreams : List UpstreamView
  initPath : Option String
  lastLoad : Option LastLoadView
  rules : RuleCountsView
  deriving DecidableEq, Repr

/-- One routing decision, as it is published and logged. -/
structure EventView where
  host : Host
  port : Port
  decision : DecisionKind
  ruleIndex : Option ℕ
  ruleClass : Option RuleClass
  upstream : HealthState
  connectMs : Option ℕ
  hop : Option EffectiveHop
  via : Option UpstreamAddr
  durationMs : ℕ
  error : Option String
  deriving DecidableEq, Repr

/-- One reply written by the daemon. -/
inductive Response
  | ok
  | rules (views : List RuleView)
  | status (view : StatusView)
  | decision (view : DecisionView)
  | doctor
  | err (kind : ErrKind) (message : String)
  deriving DecidableEq, Repr

/-- Whether the answer reports a failure. -/
def Response.isErr : Response → Bool
  | .err _ _ => true
  | _ => false

end Nhop.Ipc
