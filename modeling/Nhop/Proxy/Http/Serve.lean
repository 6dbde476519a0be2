import Nhop.Proxy.Http.Head
import Nhop.Proxy.Session

/-!
The HTTP front end: one request read, decided, and tunnelled or forwarded.

The head is read into a buffer of fixed size, so what was read may go on behind
it. Of that, and of what the client sends later, a request with a length takes
as many bytes as it announced; a `CONNECT` tunnel and a body that only its own
framing delimits take everything.
-/

namespace Nhop.Proxy.Http

open Foundation Ipc Rules Nhop.Upstream

/-- Largest request head the front end reads, in bytes. -/
def headLimit : ℕ := 8192

def utf8 (text : String) : List UInt8 := text.toUTF8.data.toList

def established : List UInt8 := utf8 "HTTP/1.1 200 Connection established\r\n\r\n"

def badRequest : String := "400 Bad Request"

def badGateway : String := "502 Bad Gateway"

/-! ### The head -/

/-- What the reads of the client left in the buffer, and where the head in it
ends. -/
structure Head where
  buffer : List UInt8
  last : ℕ
  deriving DecidableEq, Repr

/-- The line end that ends the last field and the one that ends the head. -/
def blankLine : List UInt8 := [13, 10, 13, 10]

def headEnd (buffer : List UInt8) : Option ℕ :=
  (splitOnce blankLine buffer).map fun split => split.1.length + blankLine.length

/-- The reading loop. Every round reads a byte or ends it, so that it takes no
more rounds than the buffer has room. -/
def readHeadWithin : ℕ → List UInt8 → Session (Option Head)
  | 0, _ => pure none
  | rounds + 1, buffer =>
      if buffer.length = headLimit then pure none
      else do
        let taken ← read (headLimit - buffer.length)
        if taken = [] then pure none
        else
          match headEnd (buffer ++ taken) with
          | none => readHeadWithin rounds (buffer ++ taken)
          | some last => pure (some ⟨buffer ++ taken, last⟩)

def readHead : Session (Option Head) := readHeadWithin (headLimit + 1) []

/-! ### The body -/

/-- How much of the request body has still to come from the client. -/
inductive Rest
  | bytes (count : ℕ)
  /-- Only the client can end it. -/
  | streamed
  deriving DecidableEq, Repr

/-- How many bytes are copied at most: as far as 64 bits count, where the client
ends the body. -/
def Rest.limit : Rest → ℕ
  | .bytes count => count
  | .streamed => 2 ^ 64 - 1

def behindTheHead (rest : List UInt8) (method : Method) (body : Body) : List UInt8 :=
  match method with
  | .connect => rest
  | .absolute =>
      match body with
      | .streamed => rest
      | .sized len => rest.take (min len rest.length)

def restOfBody (method : Method) (body : Body) (behind : List UInt8) : Rest :=
  match method with
  | .connect => .streamed
  | .absolute =>
      match body with
      | .streamed => .streamed
      | .sized len => .bytes (len - behind.length)

/-- The bytes of one request, as the next hop receives them. -/
structure Forwarded where
  method : Method
  head : List UInt8
  behind : List UInt8
  rest : Rest
  deriving DecidableEq, Repr

/-! ### Answers -/

def answerText (status body : String) : String :=
  "HTTP/1.1 " ++ status ++ "\r\nContent-Type: text/plain\r\nContent-Length: " ++
    toString body.utf8ByteSize ++ "\r\nConnection: close\r\n\r\n" ++ body

def respond (status body : String) : Session Unit := tell .refusal (utf8 (answerText status body))

def refuse (host : Host) (port : Port) (failure : Failure) : Session Unit :=
  match UpstreamDown.carriedBy failure with
  | none =>
      respond badGateway ("nhop: cannot reach " ++ host.name ++ ":" ++ toString port.toNat)
  | some down => respond badGateway down.display

/-- Every failure is told in one refusal. -/
theorem refuse_eq_tell (host : Host) (port : Port) (failure : Failure) :
    ∃ bytes, refuse host port failure = tell .refusal bytes := by
  unfold refuse
  cases UpstreamDown.carriedBy failure with
  | none => exact ⟨_, rfl⟩
  | some down => exact ⟨_, rfl⟩

def refuseLoop [SocksText] (listening : SocketAddr) : Session Unit :=
  refuseLoopBy (fun refused => respond badGateway refused.display) listening

/-! ### Serving -/

def tunnel (behind : List UInt8) : Session Unit := do
  tell .granted established
  send .behind behind
  copyBidirectional

/-- Forwards one request and its answer, and reads no further request from the
client. -/
def forwarded (head behind : List UInt8) (rest : Rest) : Session Unit := do
  send .head head
  send .behind behind
  copy rest.limit

def carry (forward : Forwarded) : Session Unit :=
  match forward.method with
  | .connect => tunnel forward.behind
  | .absolute => forwarded forward.head forward.behind forward.rest

def relay (forward : Forwarded) (host : Host) (port : Port) (hop : NextHop)
    (decision : Decision) : Session Unit :=
  relayBy hop host port decision (refuse host port) (carry forward)

/-- The head the next hop receives: none through a tunnel. -/
def rebuilt (method : Method) (head : List UInt8) (host : Host) (port : Port) :
    Option (List UInt8) :=
  match method with
  | .connect => some []
  | .absolute => rewritten head host port

/-- Serves one connection of the HTTP front end. -/
def serve [External] [SocksText] (ctx : ConnCtx) (hop : NextHop) : Session Unit := do
  match ← readHead with
  -- a client that is gone and a head over the limit are closed without a word
  | none => pure ()
  | some ⟨buffer, last⟩ =>
      let head := buffer.take last
      match parseHead head with
      | none => respond badRequest "nhop: malformed request"
      | some ⟨method, host, port, body⟩ =>
          match rebuilt method head host port with
          | none => respond badRequest "nhop: malformed request"
          | some rebuilt =>
              let behind := behindTheHead (buffer.drop last) method body
              let forward := ⟨method, rebuilt, behind, restOfBody method body behind⟩
              route ctx hop host port refuseLoop (relay forward host port hop)

end Nhop.Proxy.Http
