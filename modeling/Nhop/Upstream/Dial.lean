import Nhop.Upstream.Select

/-!
Dialling a destination the way its rule asks for.

`require` goes through the selected upstream, or the first one while none is
selected, and never around it. `prefer` goes through the selected upstream and
falls back to the destination itself. Everything else goes straight to the
destination. What the network answers is a parameter, and a dial leaves a trace
of what it did beside its result: the selection it recorded, the connections it
attempted and the verdicts it wrote, in order.
-/

namespace Nhop.Upstream

open Foundation Ipc Proxy Rules

/-! ### The network -/

/-- An open connection. -/
structure TcpStream where
  id : ℕ
  deriving DecidableEq, Repr

/-- Failures of a SOCKS5 client. -/
inductive SocksError
  | io (failure : OsError)
  | parseError
  | proxyServerUnreachable
  | invalidResponseVersion
  | noAcceptableAuthMethods
  | unknownAuthMethod
  | generalSocksServerFailure
  | connectionNotAllowedByRuleset
  | networkUnreachable
  | hostUnreachable
  | connectionRefused
  | ttlExpired
  | commandNotSupported
  | addressTypeNotSupported
  | unknownError
  | invalidReservedByte
  | unknownAddressType
  | invalidAuthValues (text : String)
  | passwordAuthFailure (code : UInt8)
  | authorizationRequired
  | identdAuthFailure
  | invalidUserIdAuthFailure
  | invalidTargetAddress (text : String)
  deriving DecidableEq, Repr

/-- What a SOCKS5 dial ends in, `none` when its budget ran out first. -/
abbrev SocksAnswer := Option (Except SocksError TcpStream)

/-- What the network answers a connect, and a dial through an upstream that is
given up after a budget. -/
structure Network where
  connect : Host → Port → Except OsError TcpStream
  socks : SocketAddr → Host → Port → ℕ → SocksAnswer

/-! ### Failures -/

/-- The upstream a `require` rule needed is not usable. -/
structure UpstreamDown where
  addr : SocketAddr
  rule : RuleId
  deriving DecidableEq, Repr

def UpstreamDown.display (down : UpstreamDown) : String :=
  "nhop: upstream " ++ toString down.addr ++ " is down (require rule " ++
    toString down.rule.index ++ ")"

/-- A failed dial. -/
inductive IoError
  | os (failure : OsError)
  | other (failure : SocksError)
  | timedOut (text : String)
  | hostUnreachable (down : UpstreamDown)
  deriving DecidableEq, Repr

/-- Why one dial through the upstream did not produce a connection. -/
inductive DialFailure
  | upstream (failure : IoError)
  | destination (failure : IoError)
  | unsent (failure : IoError)
  deriving DecidableEq, Repr

/-- Splits a dial failure by whether the upstream answered at all. -/
def failedDial (failure : SocksError) : DialFailure :=
  match failure with
  | .generalSocksServerFailure | .connectionNotAllowedByRuleset | .networkUnreachable
  | .hostUnreachable | .connectionRefused | .ttlExpired | .addressTypeNotSupported
  | .commandNotSupported | .unknownAuthMethod => .destination (.other failure)
  | .invalidTargetAddress _ => .unsent (.other failure)
  | .io _ | .parseError | .proxyServerUnreachable | .invalidResponseVersion
  | .noAcceptableAuthMethods | .unknownError | .invalidReservedByte | .unknownAddressType
  | .invalidAuthValues _ | .passwordAuthFailure _ | .authorizationRequired
  | .identdAuthFailure | .invalidUserIdAuthFailure => .upstream (.other failure)

/-! ### Budgets -/

/-- How long one dial through the upstream may take, chosen by the class of the
rule that sent it. -/
inductive UpstreamBudget
  | prefer | require
  deriving DecidableEq, Repr

def preferConnectTimeout : ℕ := 2

def requireConnectTimeout : ℕ := 10

/-- The budget in seconds. -/
def UpstreamBudget.allowance : UpstreamBudget → ℕ
  | .prefer => preferConnectTimeout
  | .require => requireConnectTimeout

/-! ### The trace of a dial -/

/-- One thing a dial did. -/
inductive Effect
  | observed (list : Arc UpstreamEntries) (selected : Option ℕ)
  | dialled (upstream : SocketAddr) (host : Host) (port : Port)
  | connected (host : Host) (port : Port)
  | wrote (health : HealthHandle) (state : HealthState) (cause : VerdictCause)
  deriving DecidableEq, Repr

/-- What one dial did, which way it went, and the connection it produced. -/
inductive Dialled
  | refused (failure : IoError)
  | attempted (hop : EffectiveHop) (via : Option UpstreamAddr) (next : Except IoError TcpStream)
  deriving DecidableEq

/-- The entry a verdict is written to, the verdict, and its cause. -/
def Effect.verdict? : Effect → Option (HealthHandle × HealthState × VerdictCause)
  | .wrote health state cause => some (health, state, cause)
  | _ => none

/-- The upstream a connection was attempted through. -/
def Effect.upstream? : Effect → Option SocketAddr
  | .dialled upstream _ _ => some upstream
  | _ => none

/-- The destination a direct connection was attempted to. -/
def Effect.direct? : Effect → Option (Host × Port)
  | .connected host port => some (host, port)
  | _ => none

/-! ### Dialling -/

variable (net : Network)

def direct (host : Host) (port : Port) : Except IoError TcpStream × List Effect :=
  ((net.connect host port).mapError IoError.os, [.connected host port])

def through (host : Host) (port : Port) (upstream : SocketAddr) (budget : UpstreamBudget) :
    Except DialFailure TcpStream × List Effect :=
  let effects := [.dialled upstream host port]
  match net.socks upstream host port (seconds budget.allowance) with
  | none =>
      (.error (.upstream (.timedOut
        ("the upstream " ++ toString upstream ++ " did not answer within " ++
          toString budget.allowance ++ "s"))), effects)
  | some (.ok dialled) => (.ok dialled, effects)
  | some (.error failure) => (.error (failedDial failure), effects)

/-- What a probe through an upstream to itself says about it. -/
def probe (answer : SocksAnswer) : HealthState :=
  match answer with
  | none => .down
  | some (.ok _) => .up
  | some (.error failure) =>
      match failedDial failure with
      -- an upstream that refuses the destination has answered
      | .destination _ => .up
      | .unsent _ => .down
      | .upstream _ => .down

/-- Records what one real dial saw about the entry it was made against. -/
def observed (dialled : UpstreamEntry) (state : HealthState) (cause : VerdictCause) :
    List Effect :=
  [.wrote dialled.health state cause]

def carriedBy (dialled : UpstreamEntry) : UpstreamAddr := dialled.upstream.written

def required (host : Host) (port : Port) (rule : RuleId) (dialled : Option UpstreamEntry) :
    Dialled × List Effect :=
  match dialled with
  | none => (.refused (.hostUnreachable ⟨noUpstream, rule⟩), [])
  | some dialled =>
      let upstream := dialled.upstream.socket
      let (reached, effects) := through net host port upstream .require
      let (next, verdict) : Except IoError TcpStream × List Effect :=
        match reached with
        | .ok next => (.ok next, observed dialled .up .dial)
        | .error (.destination failure) => (.error failure, observed dialled .up .dial)
        -- nothing was sent, so nothing is learnt of the upstream
        | .error (.unsent failure) => (.error failure, [])
        | .error (.upstream _) =>
            (.error (.hostUnreachable ⟨upstream, rule⟩), observed dialled .down .dial)
      (.attempted .upstream (some (carriedBy dialled)) next, effects ++ verdict)

def fallenBack (host : Host) (port : Port) : Dialled × List Effect :=
  let (next, effects) := direct net host port
  (.attempted .fallbackDirect none next, effects)

def preferred (host : Host) (port : Port) (selected : Option UpstreamEntry) :
    Dialled × List Effect :=
  match selected with
  | none => fallenBack net host port
  | some dialled =>
      let upstream := dialled.upstream.socket
      let (reached, effects) := through net host port upstream .prefer
      match reached with
      | .ok next =>
          (.attempted .upstream (some (carriedBy dialled)) (.ok next),
            effects ++ observed dialled .up .dial)
      | .error (.destination _) =>
          let (fallen, more) := fallenBack net host port
          (fallen, effects ++ observed dialled .up .dial ++ more)
      | .error (.unsent _) =>
          let (fallen, more) := fallenBack net host port
          (fallen, effects ++ more)
      | .error (.upstream _) =>
          let (fallen, more) := fallenBack net host port
          (fallen, effects ++ observed dialled .down .dial ++ more)

/-- Dials an upstream-class decision through the entry selected for this one
connection, from the list published when the dial begins. -/
def routed (list : Arc UpstreamEntries) (cells : Verdicts) (now : ℤ) (hold : ℕ) (host : Host)
    (port : Port) (ruleClass : RuleClass) (rule : RuleId) : Dialled × List Effect :=
  let selected := list.val.selected cells now hold
  let (dialled, effects) :=
    match ruleClass with
    | .never =>
        let (next, effects) := direct net host port
        (Dialled.attempted .direct none next, effects)
    | .require => required net host port rule (list.val.required selected)
    | .prefer => preferred net host port (list.val.get selected)
  (dialled, .observed list selected :: effects)

/-- Connects to the destination, through the upstream or directly. -/
def dial (list : Arc UpstreamEntries) (cells : Verdicts) (now : ℤ) (hold : ℕ) (host : Host)
    (port : Port) (decision : Decision) : Dialled × List Effect :=
  match decision with
  | .direct | .never _ =>
      let (next, effects) := direct net host port
      (.attempted .direct none next, effects)
  | .upstream ruleClass rule => routed net list cells now hold host port ruleClass rule

end Nhop.Upstream
