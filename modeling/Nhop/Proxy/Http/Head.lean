import Nhop.Foundation.Split
import Nhop.Ipc.Command

/-!
The head of the one request an HTTP connection carries.

`parseHead` reads where the request is for, and `rewritten` rebuilds an
absolute-form one as the origin must receive it: the target becomes origin-form,
`Host` is regenerated from the destination that was read, the fields that belong
to one hop are dropped and `Connection: close` is added. The reader looks at the
authority of the target, or at `Host` when the target names none.

A head is text inside the two functions and bytes outside them.
-/

namespace Nhop.Proxy.Http

open Foundation Ipc

/-! ### Text -/

/-- A run of text that is taken apart. -/
abbrev Text := List Char

def fromUtf8 (bytes : List UInt8) : Option Text :=
  (String.fromUTF8? ⟨bytes.toArray⟩).map String.toList

def intoBytes (text : Text) : List UInt8 := (String.ofList text).toUTF8.data.toList

def crlf : Text := ['\r', '\n']

/-- The text without surrounding blanks. -/
def trimmed (text : Text) : Text :=
  ((text.dropWhile isWhitespace).reverse.dropWhile isWhitespace).reverse

/-- The text behind `head`, absent when the text does not begin with it. -/
def stripHead (head text : Text) : Option Text :=
  if head.isPrefixOf text then some (text.drop head.length) else none

def asciiLowercase (text : Text) : Text := text.map Char.toLower

def parseU16 (text : Text) : Option Port :=
  (parseUnsigned 65536 (String.ofList text)).map UInt16.ofNat

def parseUsize (text : Text) : Option ℕ := parseUnsigned (2 ^ 64) (String.ofList text)

/-! ### The request -/

/-- What the client asked the front end to do with its connection. -/
inductive Method
  | connect | absolute
  deriving DecidableEq, Repr

/-- How much of what arrived behind the head belongs to the request the head
opened. -/
inductive Body
  /-- A `Content-Length` body. -/
  | sized (len : ℕ)
  /-- A body only its own framing delimits. -/
  | streamed
  deriving DecidableEq, Repr

/-- The single request one client connection carries. -/
structure Request where
  method : Method
  host : Host
  port : Port
  body : Body
  deriving DecidableEq, Repr

def defaultPort : Port := 80

/-- Fields that belong to one hop and must not reach the origin. -/
def hopByHop : List Text :=
  ["connection".toList, "proxy-connection".toList, "keep-alive".toList,
    "proxy-authenticate".toList, "proxy-authorization".toList, "te".toList, "trailer".toList,
    "upgrade".toList]

/-! ### Reading -/

/-- The value of the first field of a name. -/
def headerIn : List Text → Text → Option Text
  | [], _ => none
  | line :: lines, name =>
      match splitOnce [':'] line with
      | none => headerIn lines name
      | some (field, value) =>
          if asciiLowercase (trimmed field) = asciiLowercase name then some (trimmed value)
          else headerIn lines name

def header (headers : Text) (name : Text) : Option Text := headerIn (pieces crlf headers) name

def named (host : Text) (port : Port) : Option (Host × Port) :=
  if host = [] then none else some (⟨String.ofList host⟩, port)

def splitAuthority (authority : Text) (fallback : Option Port) : Option (Host × Port) :=
  match stripHead ['['] authority with
  | none =>
      match splitOnceLast ':' authority with
      | none => fallback.bind (named authority)
      | some (host, port) => (parseU16 port).bind (named host)
  | some bracketed => do
      let (host, rest) ← splitOnce [']'] bracketed
      match stripHead [':'] rest with
      | none => fallback.bind (named host)
      | some port => (parseU16 port).bind (named host)

def http : Text := "http://".toList

def absoluteAuthority (target : Text) : Option Text :=
  (stripHead http target).map fun rest =>
    match splitOnce ['/'] rest with
    | none => rest
    | some (authority, _) => authority

def bodyOf (headers : Text) : Body :=
  match header headers "transfer-encoding".toList with
  | some _ => .streamed
  | none =>
      match header headers "content-length".toList with
      | none => .sized 0
      | some len => .sized ((parseUsize len).getD 0)

/-- Reads the request a head opens. -/
def parseHead (head : List UInt8) : Option Request := do
  let head ← fromUtf8 head
  let (line, headers) ← splitOnce crlf head
  match pieces [' '] line with
  | [method, target, version] =>
      if !"HTTP/".toList.isPrefixOf version then none
      else if method = "CONNECT".toList then do
        let (host, port) ← splitAuthority target none
        return ⟨.connect, host, port, .streamed⟩
      else do
        let authority ← (absoluteAuthority target).or (header headers "host".toList)
        let (host, port) ← splitAuthority authority (some defaultPort)
        return ⟨.absolute, host, port, bodyOf headers⟩
  | _ => none

/-! ### Rebuilding -/

def originForm (target : Text) : Text :=
  match stripHead http target with
  | none => target
  | some rest =>
      match splitOnce ['/'] rest with
      | none => ['/']
      | some (_, path) => '/' :: path

/-- The authority the origin is told: the name, and the port unless it is the
default one. -/
def hostField (host : Host) (port : Port) : Text :=
  host.name.toList ++
    (if port ≠ defaultPort then ':' :: (toString port.toNat).toList else [])

/-- The fields that reach the origin as they came. -/
def keptFields : List Text → Text
  | [] => []
  | field :: fields =>
      match splitOnce [':'] field with
      | none => keptFields fields
      | some (label, _) =>
          let label := asciiLowercase (trimmed label)
          if label = "host".toList ∨ label ∈ hopByHop then keptFields fields
          else field ++ crlf ++ keptFields fields

/-- Rebuilds an absolute-form request as the origin must receive it. -/
def rewritten (head : List UInt8) (host : Host) (port : Port) : Option (List UInt8) := do
  let head ← fromUtf8 head
  let (line, headers) ← splitOnce crlf head
  match pieces [' '] line with
  | method :: target :: _ =>
      return intoBytes (method ++ " ".toList ++ originForm target ++ " HTTP/1.1".toList ++ crlf ++
        "Host: ".toList ++ hostField host port ++ crlf ++ keptFields (pieces crlf headers) ++
        "Connection: close".toList ++ crlf ++ crlf)
  | _ => none

end Nhop.Proxy.Http
