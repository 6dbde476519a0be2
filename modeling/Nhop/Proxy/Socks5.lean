import Nhop.Proxy.Session

/-!
The SOCKS5 front end: a greeting, one `CONNECT` request, and the relay.

A name travels to the next hop as the client wrote it.
-/

namespace Nhop.Proxy.Socks5

open Foundation Ipc Rules Nhop.Upstream

def version : UInt8 := 0x05

def noAuth : UInt8 := 0x00

def noAcceptableMethod : UInt8 := 0xff

def reserved : UInt8 := 0x00

def connect : UInt8 := 0x01

def atypIpv4 : UInt8 := 0x01

def atypDomain : UInt8 := 0x03

def atypIpv6 : UInt8 := 0x04

/-- Authentication the front end agreed on with the client. -/
inductive Greeting
  | noAuth
  /-- The client speaks another version, or no method the front end serves. -/
  | rejected
  deriving DecidableEq, Repr

/-- Code the front end answers a request with. -/
inductive Reply
  | granted | failure | notAllowed | hostUnreachable | commandNotSupported
  | addressNotSupported
  deriving DecidableEq, Repr

def Reply.code : Reply → UInt8
  | .granted => 0x00
  | .failure => 0x01
  | .notAllowed => 0x02
  | .hostUnreachable => 0x04
  | .commandNotSupported => 0x07
  | .addressNotSupported => 0x08

/-- What the client asked for, or why it cannot be served. -/
inductive Requested
  | connect (host : Host) (port : Port)
  | refused (reply : Reply)
  deriving DecidableEq, Repr

/-! ### Reading -/

/-- The number a run of octets stands for, the most significant one first. -/
def bigEndian (octets : List UInt8) : ℕ := digitsValue 256 (octets.map UInt8.toNat)

def greet : Session Greeting := do
  let greeting ← readExact 2
  if greeting.head? ≠ some version then pure .rejected
  else do
    let offered ← readExact ((greeting.getD 1 0).toNat)
    pure (if noAuth ∈ offered then .noAuth else .rejected)

/-- The destination of a request of an address type, or the reply to one that
cannot be read. -/
def destination (atyp : UInt8) : Session (Except Reply Host) :=
  if atyp = atypIpv4 then do
    let octets ← readExact 4
    pure (.ok ⟨Ipv4.display (BitVec.ofNat 32 (bigEndian octets))⟩)
  else if atyp = atypDomain then do
    let len ← readExact 1
    let name ← readExact (bigEndian len)
    pure (match String.fromUTF8? ⟨name.toArray⟩ with
      | none => .error .failure
      | some name => if name.isEmpty then .error .failure else .ok ⟨name⟩)
  else if atyp = atypIpv6 then do
    let octets ← readExact 16
    pure (.ok ⟨Ipv6.display (BitVec.ofNat 128 (bigEndian octets))⟩)
  else pure (.error .addressNotSupported)

def request : Session Requested := do
  let head ← readExact 4
  if head.head? ≠ some version then pure (.refused .failure)
  else if head.getD 1 0 ≠ connect then pure (.refused .commandNotSupported)
  else do
    match ← destination (head.getD 3 0) with
    | .error reply => pure (.refused reply)
    | .ok host => do
        let port ← readExact 2
        pure (.connect host (UInt16.ofNat (bigEndian port)))

/-! ### Answers -/

def refusal (failure : Failure) : Reply :=
  match UpstreamDown.carriedBy failure with
  | none => .failure
  | some _ => .hostUnreachable

def chosen (method : UInt8) : Session Unit := tell .chosen [version, method]

def answerBytes (reply : Reply) : List UInt8 :=
  [version, reply.code, reserved, atypIpv4, 0, 0, 0, 0, 0, 0]

/-- Which of the two answers a reply is. -/
def Reply.word : Reply → Word
  | .granted => .granted
  | .failure | .notAllowed | .hostUnreachable | .commandNotSupported | .addressNotSupported =>
      .refusal

def answer (reply : Reply) : Session Unit := tell reply.word (answerBytes reply)

/-! ### Serving -/

def refuseLoop (listening : SocketAddr) : Session Unit :=
  refuseLoopBy (fun _ => answer .notAllowed) listening

def carry : Session Unit := do
  answer .granted
  copyBidirectional

def relay (host : Host) (port : Port) (hop : NextHop) (decision : Decision) : Session Unit :=
  relayBy hop host port decision (fun failure => answer (refusal failure)) carry

/-- Serves one connection of the SOCKS5 front end. -/
def serve [External] [SocksText] (ctx : ConnCtx) (hop : NextHop) : Session Unit := do
  match ← greet with
  | .rejected => chosen noAcceptableMethod
  | .noAuth => do
      chosen noAuth
      match ← request with
      | .refused reply => answer reply
      | .connect host port => route ctx hop host port refuseLoop (relay host port hop)

end Nhop.Proxy.Socks5
