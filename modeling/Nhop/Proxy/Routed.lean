import Nhop.Upstream.Dial

/-!
One routed connection, from its decision to the line it leaves in the log.

The record is begun when the decision is made, is told once what the dial phase
cost, and becomes the single event of the connection when that has ended. A
destination that is the address the connection was accepted on is never dialled:
the comparison folds IPv4-mapped addresses, takes an unspecified address for the
listening one and reads no name but `localhost`.

Two routines are parameters: what a failed SOCKS5 dial is reported as, and the
lower-casing `NormalizedHost` rests on. The queues events are fanned out to are
left out; publishing is one action of the front end.
-/

namespace Nhop.Proxy

open Foundation Ipc Rules Nhop.Upstream

/-! ### The destination that is the front end itself -/

def localhost : String := "localhost"

/-- Folds an IPv4-mapped IPv6 address back to IPv4. -/
def canonical : IpAddr → IpAddr
  | .v4 bits => .v4 bits
  | .v6 bits =>
      match Ipv6.toIpv4Mapped bits with
      | some bits => .v4 bits
      | none => .v6 bits

/-- Whether a destination is the address the connection was accepted on. -/
def dialsItself [External] (destination : Host) (port : Port) (listening : SocketAddr) : Bool :=
  if port ≠ listening.port then false
  else
    let listening := canonical listening.ip
    let destination := NormalizedHost.new destination
    match destination.address with
    | none => destination.host == localhost && listening.isLoopback
    | some address =>
        let address := canonical address
        address.isUnspecified || address == listening

/-- Whether the destination is the address this connection was accepted on. -/
inductive Loop
  | own (listening : SocketAddr)
  /-- Somewhere else, or the accepted socket could not name itself. -/
  | elsewhere
  deriving DecidableEq, Repr

/-- Refusal to dial the address the connection was accepted on. -/
structure DialsItself where
  listening : SocketAddr
  deriving DecidableEq, Repr

def DialsItself.display (refused : DialsItself) : String :=
  "nhop: refusing to dial my own listening address " ++ toString refused.listening

/-! ### Failures -/

/-- What serving a connection fails with. -/
inductive Failure
  | os (failure : OsError)
  | dial (failure : IoError)
  | dialsItself (refused : DialsItself)
  deriving DecidableEq, Repr

/-- The text of a failed SOCKS5 dial. -/
class SocksText where
  display : SocksError → String

def IoError.display [SocksText] : IoError → String
  | .os failure => toString failure
  | .other failure => SocksText.display failure
  | .timedOut text => text
  | .hostUnreachable down => down.display

def Failure.display [SocksText] : Failure → String
  | .os failure => toString failure
  | .dial failure => IoError.display failure
  | .dialsItself refused => refused.display

/-- The refusal a dial failure carries, absent when it failed for another reason. -/
def UpstreamDown.carriedBy : Failure → Option UpstreamDown
  | .dial (.hostUnreachable down) => some down
  | _ => none

/-! ### The dial -/

/-- What the dial phase of one connection cost. -/
inductive Connect
  | refused
  | attempted (took : ℕ) (hop : EffectiveHop) (via : Option UpstreamAddr)
  deriving DecidableEq, Repr

/-- Splits what a dial did into what the dial phase cost and the connection it
produced. -/
def timed (dialled : Dialled) (took : ℕ) : Connect × Except Failure TcpStream :=
  match dialled with
  | .refused failure => (.refused, .error (.dial failure))
  | .attempted hop via next => (.attempted took hop via, next.mapError .dial)

/-- Opens the connection a decision calls for, and reports whether new
connections have an upstream. -/
structure NextHop where
  dial : Host → Port → Decision → Dialled × List Effect
  verdict : HealthState

/-- What an upstream is selected from: the published list, the verdicts and the
clock. -/
structure Moment where
  list : Arc UpstreamEntries
  cells : Verdicts
  now : ℤ

/-- The next hop of the daemon. The verdict is read when the decision is made and
the dial begins later, when another list may have been published. -/
def upstreamHop (net : Network) (hold : ℕ) (decided dialling : Moment) : NextHop where
  dial := Upstream.dial net dialling.list dialling.cells dialling.now hold
  verdict :=
    match decided.list.val.selected decided.cells decided.now hold with
    | some _ => .up
    | none => .down

/-! ### The record -/

/-- Everything one accepted connection is routed by. -/
structure ConnCtx where
  rules : Ruleset

/-- One connection, from the decision that routed it. -/
structure Routed where
  host : Host
  port : Port
  decision : Decision
  upstream : HealthState
  connect : Option ℕ
  hop : Option EffectiveHop
  via : Option UpstreamAddr
  deriving DecidableEq, Repr

/-- Whole milliseconds, as far as 64 bits hold them. -/
def millis (took : ℕ) : ℕ := min (took / 1000000) (2 ^ 64 - 1)

def matchedIndex (decision : Decision) : Option ℕ :=
  decision.rule.map fun rule => min rule.index (2 ^ 32 - 1)

namespace Routed

def begun (upstream : HealthState) (host : Host) (port : Port) (decision : Decision) : Routed :=
  ⟨host, port, decision, upstream, none, none, none⟩

/-- Records what the dial phase cost. -/
def dialled (routed : Routed) (connect : Connect) : Routed :=
  let (connect, hop, via) :=
    match connect with
    | .refused => (none, none, none)
    | .attempted took hop via => (some took, some hop, via)
  { routed with connect, hop, via }

/-- The single event of a connection that lasted `lasted` and failed with
`failure`, if it did. -/
def ended [SocksText] (routed : Routed) (failure : Option Failure) (lasted : ℕ) : EventView where
  host := routed.host
  port := routed.port
  decision := routed.decision.kind
  ruleIndex := matchedIndex routed.decision
  ruleClass := routed.decision.ruleClass
  upstream := routed.upstream
  connectMs := routed.connect.map millis
  hop := routed.hop
  via := routed.via
  durationMs := millis lasted
  error := failure.map Failure.display

end Routed

end Nhop.Proxy
