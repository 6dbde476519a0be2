import Nhop.Cli.Exit
import Nhop.Rules.Matcher

/-!
What the client reads on its command line, and the command each subcommand
stands for.

Taking the arguments apart is the work of a parser outside the program, which is
handed the readers of the positional arguments and answers with a subcommand or
with an early exit. It is a parameter here: what follows holds whatever it makes
of a list of arguments.
-/

namespace Nhop.Cli

open Foundation Ipc Rules

/-! ### Positional arguments -/

/-- Destination a routing question is asked about, written as `host:port`. -/
structure Destination where
  host : Host
  port : Port
  deriving DecidableEq, Repr

/-- Rejection of a text that is no destination. -/
structure InvalidDestination where
  text : String
  deriving DecidableEq, Repr

def Destination.parse (target : String) : Except InvalidDestination Destination :=
  match splitLast ':' target with
  | none => .error ⟨target⟩
  | some (host, port) =>
      let host := (stripStart "[" host).getD host
      let host := (stripEnd "]" host).getD host
      match parseUnsigned 65536 port with
      | none => .error ⟨target⟩
      | some port =>
          if host.isEmpty then .error ⟨target⟩
          else .ok ⟨⟨host⟩, UInt16.ofNat port⟩

/-- A rejection quotes the text that was given. -/
theorem Destination.parse_error {target : String} {failure : InvalidDestination}
    (h : Destination.parse target = .error failure) : failure.text = target := by
  unfold Destination.parse at h
  split at h
  · cases h
    rfl
  · dsimp only at h
    split at h
    · cases h
      rfl
    · split at h
      · cases h
        rfl
      · cases h

theorem Destination.parse_ok {target : String} {destination : Destination}
    (h : Destination.parse target = .ok destination) : destination.host.name ≠ "" := by
  unfold Destination.parse at h
  split at h
  · cases h
  · dsimp only at h
    split at h
    · cases h
    · split at h
      · cases h
      · rename_i hempty
        cases h
        simpa using hempty

section readers

variable [External]

def InvalidDestination.message (failure : InvalidDestination) : String :=
  "expected host:port, got " ++ External.debug failure.text

def parseKind (kind : String) : Except String RuleKind :=
  match kind with
  | "suffix" => .ok .suffix
  | "cidr" => .ok .cidr
  | "port" => .ok .port
  | "keyword" => .ok .keyword
  | unknown => .error
      ("unknown rule kind " ++ External.debug unknown ++
        ", expected suffix, cidr, port or keyword")

theorem parseKind_eq_ok {text : String} {kind : RuleKind} :
    parseKind text = .ok kind ↔ text = kindName kind := by
  constructor
  · intro h
    unfold parseKind at h
    split at h <;> cases h <;> rfl
  · rintro rfl
    cases kind <;> rfl

/-- The daemon judges the value. -/
def parseValue (value : String) : Except String RuleValue := .ok ⟨value⟩

/-- The daemon judges the address. -/
def parseUpstream (addr : String) : Except String UpstreamAddr := .ok ⟨addr⟩

def parseSocketAddr (text : String) : Except String SocketAddr :=
  match SocketAddr.parse text with
  | some addr => .ok addr
  | none => .error "invalid socket address syntax"

def parseForwardListen (listen : String) : Except String SocketAddr :=
  match SocketAddr.parse listen with
  | some addr => .ok addr
  | none =>
      match parseUnsigned 65536 listen with
      | none => .error
          ("expected an address like 127.0.0.1:19000 or a bare port, got " ++
            External.debug listen)
      | some port => .ok (SocketAddr.ofIp IpAddr.localhost (UInt16.ofNat port))

/-- The readers of positional arguments the subcommands declare. -/
structure Readers where
  kind : String → Except String RuleKind
  value : String → Except String RuleValue
  upstream : String → Except String UpstreamAddr
  socketAddr : String → Except String SocketAddr
  forwardListen : String → Except String SocketAddr
  destination : String → Except String Destination

def readers : Readers where
  kind := parseKind
  value := parseValue
  upstream := parseUpstream
  socketAddr := parseSocketAddr
  forwardListen := parseForwardListen
  destination text := (Destination.parse text).mapError InvalidDestination.message

end readers

/-! ### Subcommands -/

/-- What the arguments ask for. The subcommands that change no configuration are
one. -/
inductive Subcommand
  | require (kind : RuleKind) (value : RuleValue)
  | prefer (kind : RuleKind) (value : RuleValue)
  | never (kind : RuleKind) (value : RuleValue)
  | upstream (addr : UpstreamAddr) (fallbacks : List UpstreamAddr)
  | listen (http socks : SocketAddr)
  | forward (listen : SocketAddr) (target : Destination)
  | other
  deriving DecidableEq, Repr

/-- The parser stops before the program runs. -/
structure EarlyExit where
  output : String
  /-- Whether the text was asked for, as help is. -/
  asked : Bool
  deriving DecidableEq, Repr

/-- The parser of command lines. -/
class Argh where
  fromArgs : Readers → List String → Except EarlyExit Subcommand

/-- A parser that hands each word to its reader, in order, to run the model with. -/
@[reducible] def Argh.plain : Argh where
  fromArgs readers arguments :=
    let refused : String → EarlyExit := fun message => ⟨message, false⟩
    let rule : String → String → Except EarlyExit (RuleKind × RuleValue) := fun kind value => do
      let kind ← (readers.kind kind).mapError refused
      let value ← (readers.value value).mapError refused
      return (kind, value)
    match arguments with
    | ["require", kind, value] => (rule kind value).map fun rule => .require rule.1 rule.2
    | ["prefer", kind, value] => (rule kind value).map fun rule => .prefer rule.1 rule.2
    | ["never", kind, value] => (rule kind value).map fun rule => .never rule.1 rule.2
    | "upstream" :: addr :: fallbacks => do
        let addr ← (readers.upstream addr).mapError refused
        let fallbacks ← fallbacks.mapM fun addr => (readers.upstream addr).mapError refused
        return .upstream addr fallbacks
    | ["listen", http, socks] => do
        let http ← (readers.socketAddr http).mapError refused
        let socks ← (readers.socketAddr socks).mapError refused
        return .listen http socks
    | ["forward", listen, target] => do
        let listen ← (readers.forwardListen listen).mapError refused
        let target ← (readers.destination target).mapError refused
        return .forward listen target
    | _ => .error ⟨"", false⟩

def addRule (ruleClass : RuleClass) (kind : RuleKind) (value : RuleValue)
    (load : Option LoadId) : Command :=
  .addRule ruleClass kind value load

/-- The command a subcommand sends first, absent when it changes no
configuration. -/
def Subcommand.command? (load : Option LoadId) : Subcommand → Option Command
  | .require kind value => some (Cli.addRule .require kind value load)
  | .prefer kind value => some (Cli.addRule .prefer kind value load)
  | .never kind value => some (Cli.addRule .never kind value load)
  | .upstream addr fallbacks => some (.upstreams addr fallbacks load)
  | .listen http socks => some (.setListen http socks load)
  | .forward addr target => some (.addForward addr target.host target.port load)
  | .other => none

theorem Subcommand.load?_of_command? {load : Option LoadId} {subcommand : Subcommand}
    {command : Command} (h : subcommand.command? load = some command) :
    command.load? = some load := by
  cases subcommand with
  | upstream addr fallbacks =>
      cases h
      unfold Command.upstreams
      split <;> rfl
  | other => cases h
  | _ =>
      cases h
      rfl

end Nhop.Cli
