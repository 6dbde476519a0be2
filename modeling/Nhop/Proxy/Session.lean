import Nhop.Foundation.Script
import Nhop.Proxy.Routed

/-!
What the three front ends have in common, as programs over a client connection.

Everything a front end asks of its surroundings is in `Wire`: what the client
sends is part of the connection, but how it arrives, which reads, writes and
transfers fail, and how much had moved by then, is for the wire to say. Of one
run at most one answer of each kind is written and at most one transfer of each
kind is made, so the wire names their outcomes by kind; the reads are counted.

What the front end does is its trace. The decision is in it too, though nobody
outside sees it being made.
-/

namespace Nhop.Proxy

open Foundation Ipc Rules Nhop.Upstream

/-! ### The surroundings of one connection -/

/-- What the client is told. -/
inductive Word
  /-- The authentication method of a SOCKS5 greeting. -/
  | chosen
  /-- The destination is connected. -/
  | granted
  /-- The request is turned away. -/
  | refusal
  deriving DecidableEq, Repr

/-- One transfer of bytes to the next hop. -/
inductive Stretch
  | head | behind | rest
  deriving DecidableEq, Repr

/-- How a transfer went: of one that failed, `moved` bytes had arrived. -/
structure Passage where
  moved : ℕ
  failure : Option OsError
  deriving DecidableEq, Repr

def Passage.carries (passage : Passage) (bytes : List UInt8) : List UInt8 :=
  match passage.failure with
  | none => bytes
  | some _ => bytes.take passage.moved

structure Wire where
  /-- The address the connection was accepted on. -/
  accepted : SocketAddr
  /-- Why the accepted socket cannot name itself, when it cannot. -/
  unnamed : Option OsError
  /-- How many bytes a read finds, or why it fails. -/
  reads : ℕ → Except OsError ℕ
  /-- Why the client could not be told something. -/
  hears : Word → Option OsError
  passes : Stretch → Passage
  /-- What comes back from the next hop. -/
  answered : List UInt8
  /-- How long the dial took. -/
  took : ℕ
  /-- How long the connection lasted since its decision. -/
  lasted : ℕ

/-- One thing a front end does. -/
inductive Action
  | told (word : Word) (bytes : List UInt8) (failure : Option OsError)
  | decided (host : Host) (port : Port) (decision : Decision)
  | dialled (dialled : Dialled) (effects : List Effect)
  | sent (bytes : List UInt8)
  | relayed (up down : List UInt8)
  | published (event : EventView)
  deriving DecidableEq

/-- A client connection: what the client has yet to send, how often it was read,
the record it is routed under and what was done about it. -/
structure Connection where
  incoming : List UInt8
  reads : ℕ
  routed : Option Routed
  trace : List Action

/-- A connection that was just accepted. -/
def Connection.accepted (incoming : List UInt8) : Connection := ⟨incoming, 0, none, []⟩

abbrev Session := Script Wire Connection Failure

/-! ### Surroundings to run the model in -/

/-- A connection accepted on `accepted` on which nothing fails. -/
def Wire.smooth (accepted : SocketAddr) : Wire where
  accepted := accepted
  unnamed := none
  reads _ := .ok 8192
  hears _ := none
  passes _ := ⟨0, none⟩
  answered := []
  took := 0
  lasted := 0

/-- No upstream is configured. -/
def Moment.unconfigured : Moment :=
  ⟨⟨0, UpstreamEntries.empty⟩, Cells.empty ⟨⟨""⟩, ⟨.down, 0⟩⟩, 0⟩

/-- A network on which every dial succeeds. -/
def openNetwork : Network := ⟨fun _ _ => .ok ⟨0⟩, fun _ _ _ _ => some (.ok ⟨0⟩)⟩

/-- Texts of the failures no run of ours meets. -/
@[reducible] def SocksText.silent : SocksText := ⟨fun _ => ""⟩

/-! ### Input and output -/

def checked (failure : Option OsError) : Session Unit :=
  match failure with
  | none => pure ()
  | some failure => Script.fail (.os failure)

def act (action : Action) : Session Unit :=
  Script.modify fun conn => { conn with trace := conn.trace ++ [action] }

/-- Writes to the client and flushes. -/
def tell (word : Word) (bytes : List UInt8) : Session Unit := do
  let failure ← Script.ask fun wire _ => wire.hears word
  act (.told word bytes failure)
  checked failure

/-- Writes to the next hop. -/
def send (stretch : Stretch) (bytes : List UInt8) : Session Unit := do
  let passage ← Script.ask fun wire _ => wire.passes stretch
  act (.sent (passage.carries bytes))
  checked passage.failure

/-- Reads at most `space` bytes, and none only when the client has no more to
say. -/
def read (space : ℕ) : Session (List UInt8) := fun wire conn =>
  let after := { conn with reads := conn.reads + 1 }
  match wire.reads conn.reads with
  | .error failure => (.error (.os failure), after)
  | .ok size =>
      let size := min space (max 1 size)
      (.ok (conn.incoming.take size), { after with incoming := conn.incoming.drop size })

def earlyEof : OsError := ⟨"early eof"⟩

/-- Reads `size` bytes or fails. Reading nothing is not a read. -/
def readExact (size : ℕ) : Session (List UInt8) := fun wire conn =>
  if size = 0 then (.ok [], conn)
  else
    let after := { conn with reads := conn.reads + 1 }
    match wire.reads conn.reads with
    | .error failure => (.error (.os failure), after)
    | .ok _ =>
        if conn.incoming.length < size then
          (.error (.os earlyEof), { after with incoming := [] })
        else
          (.ok (conn.incoming.take size), { after with incoming := conn.incoming.drop size })

/-- Relays both ways, at most `limit` bytes towards the next hop. -/
def copy (limit : ℕ) : Session Unit := do
  let (passage, up, down) ← Script.ask fun wire conn =>
    let passage := wire.passes .rest
    (passage, passage.carries (conn.incoming.take limit), wire.answered)
  act (.relayed up down)
  checked passage.failure

/-- Relays both ways until both sides are done. -/
def copyBidirectional : Session Unit := do
  let (passage, up, down) ← Script.ask fun wire conn =>
    let passage := wire.passes .rest
    (passage, passage.carries conn.incoming, wire.answered)
  act (.relayed up down)
  checked passage.failure

/-! ### The record -/

/-- Reads the address the client reached and compares the destination with it. -/
def ownAddress [External] (host : Host) (port : Port) : Session Loop :=
  Script.ask fun wire _ =>
    match wire.unnamed with
    | some _ => .elsewhere
    | none => if dialsItself host port wire.accepted then .own wire.accepted else .elsewhere

def begun (upstream : HealthState) (host : Host) (port : Port) (decision : Decision) :
    Session Unit :=
  Script.modify fun conn =>
    { conn with
      routed := some (Routed.begun upstream host port decision)
      trace := conn.trace ++ [.decided host port decision] }

def dialled (connect : Connect) : Session Unit :=
  Script.modify fun conn => { conn with routed := conn.routed.map (·.dialled connect) }

/-- Publishes the event of the record, which is spent by it. -/
def ended [SocksText] (failure : Option Failure) : Session Unit := fun wire conn =>
  match conn.routed with
  | none => (.ok (), conn)
  | some routed =>
      (.ok (), { conn with
        routed := none
        trace := conn.trace ++ [.published (routed.ended failure wire.lasted)] })

/-- Dials, and records what the dial phase cost. -/
def dialNext (hop : NextHop) (host : Host) (port : Port) (decision : Decision) :
    Session (Except Failure TcpStream) := fun wire conn =>
  let (outcome, effects) := hop.dial host port decision
  let (connect, next) := timed outcome wire.took
  (.ok next, { conn with
    routed := conn.routed.map (·.dialled connect)
    trace := conn.trace ++ [.dialled outcome effects] })

/-! ### Routing -/

/-- The failure a connection ended with. -/
def failureOf : Except Failure Unit → Option Failure
  | .ok () => none
  | .error failure => some failure

/-- Refuses a loop: the front end answers in its own way, and fails. -/
def refuseLoopBy (answer : Failure → Session Unit) (listening : SocketAddr) : Session Unit := do
  dialled .refused
  answer (.dialsItself ⟨listening⟩)
  Script.fail (.dialsItself ⟨listening⟩)

/-- Dials, and hands the connection to `carry` or the failure to `answer`. -/
def relayBy (hop : NextHop) (host : Host) (port : Port) (decision : Decision)
    (answer : Failure → Session Unit) (carry : Session Unit) : Session Unit := do
  match ← dialNext hop host port decision with
  | .ok _ => carry
  | .error failure => do
      answer failure
      Script.fail failure

/-- What follows the request: the decision, the refusal or the relay, and the
event. -/
def route [External] [SocksText] (ctx : ConnCtx) (hop : NextHop) (host : Host) (port : Port)
    (refuseLoop : SocketAddr → Session Unit) (relay : Decision → Session Unit) :
    Session Unit := do
  let decision := ctx.rules.decide host port
  begun hop.verdict host port decision
  let served ← Script.settle do
    match ← ownAddress host port with
    | .own listening => refuseLoop listening
    | .elsewhere => relay decision
  ended (failureOf served)
  Script.ofExcept served

end Nhop.Proxy
