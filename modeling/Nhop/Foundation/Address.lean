import Mathlib

/-!
IP addresses, socket addresses, and their text.

This is the part of the standard library every address of a configuration goes
through. Reading follows the standard parser, which is a recursive descent that
never looks back: each reader consumes a prefix of the text and hands on the
rest, and an address is accepted when nothing is left over. Decimal fields of
an IPv4 literal take no superfluous leading zero; a group of an IPv6 literal is
up to four hexadecimal digits; `::` stands for at least one zero group; the last
two groups may be written as an IPv4 literal.

Writing is the standard `Display`: the longest run of at least two zero groups
is compressed, the first one on a tie, and an IPv4-mapped address keeps its
dotted tail.
-/

namespace Nhop.Foundation

/-- An IP address of either family, as its bits. -/
inductive IpAddr
  | v4 (bits : BitVec 32)
  | v6 (bits : BitVec 128)
  deriving DecidableEq, Repr

/-- A socket address. Flow label and scope are part of an IPv6 one and of its
identity. -/
inductive SocketAddr
  | v4 (ip : BitVec 32) (port : UInt16)
  | v6 (ip : BitVec 128) (port : UInt16) (flowinfo scopeId : UInt32)
  deriving DecidableEq, Repr

namespace SocketAddr

def ip : SocketAddr → IpAddr
  | .v4 ip _ => .v4 ip
  | .v6 ip _ _ _ => .v6 ip

def port : SocketAddr → UInt16
  | .v4 _ port => port
  | .v6 _ port _ _ => port

/-- A socket address with neither flow label nor scope. -/
def ofIp : IpAddr → UInt16 → SocketAddr
  | .v4 ip, port => .v4 ip port
  | .v6 ip, port => .v6 ip port 0 0

end SocketAddr

/-- `127.0.0.1`. -/
def IpAddr.localhost : IpAddr := .v4 0x7f000001#32

/-- `0.0.0.0` or `::`. -/
def IpAddr.isUnspecified : IpAddr → Bool
  | .v4 bits => bits == 0
  | .v6 bits => bits == 0

/-- `127.0.0.0/8` or `::1`. -/
def IpAddr.isLoopback : IpAddr → Bool
  | .v4 bits => bits >>> 24 == 127
  | .v6 bits => bits == 1

/-- The IPv4 address inside an IPv4-mapped IPv6 one. -/
def Ipv6.toIpv4Mapped (bits : BitVec 128) : Option (BitVec 32) :=
  if bits >>> 32 = 0xffff then some (bits.truncate 32) else none

/-! ### Readers

A reader takes the text and returns what it read with the text behind it. -/

abbrev Reader (α : Type) := List Char → Option (α × List Char)

/-- The value of a digit in a radix of at most 36. -/
def digitOf (radix : ℕ) (c : Char) : Option ℕ :=
  let value :=
    if '0' ≤ c ∧ c ≤ '9' then c.toNat - '0'.toNat
    else if 'a' ≤ c ∧ c ≤ 'z' then c.toNat - 'a'.toNat + 10
    else if 'A' ≤ c ∧ c ≤ 'Z' then c.toNat - 'A'.toNat + 10
    else radix
  if value < radix then some value else none

/-- The longest prefix of digits. -/
def takeDigits (radix : ℕ) : List Char → List ℕ × List Char
  | [] => ([], [])
  | c :: cs =>
      match digitOf radix c with
      | some d => ((d :: (takeDigits radix cs).1), (takeDigits radix cs).2)
      | none => ([], c :: cs)

def digitsValue (radix : ℕ) (digits : List ℕ) : ℕ :=
  digits.foldl (fun value digit => value * radix + digit) 0

/-- One unsigned number below `bound`: at least one digit, at most `maxDigits`
where a maximum is set, and no superfluous leading zero where none is allowed. -/
def readNumber (radix : ℕ) (maxDigits : Option ℕ) (zeroPrefix : Bool) (bound : ℕ) :
    Reader ℕ := fun cs =>
  let (digits, rest) := takeDigits radix cs
  if digits = [] then none
  else if maxDigits.any (· < digits.length) then none
  else if !zeroPrefix && digits.head? == some 0 && digits.length != 1 then none
  else if digitsValue radix digits < bound then some (digitsValue radix digits, rest)
  else none

def readGiven (c : Char) : Reader Unit
  | c' :: cs => if c' = c then some ((), cs) else none
  | [] => none

/-- Reads a separator in front of every element but the first. -/
def readSeparated {α : Type} (separator : Char) (first : Bool) (read : Reader α) :
    Reader α := fun cs =>
  if first then read cs else (readGiven separator cs).bind fun (_, rest) => read rest

def readOctet : Reader ℕ := readNumber 10 (some 3) false 256

def readIpv4 : Reader (BitVec 32) := fun cs => do
  let (a, cs) ← readOctet cs
  let (b, cs) ← readSeparated '.' false readOctet cs
  let (c, cs) ← readSeparated '.' false readOctet cs
  let (d, cs) ← readSeparated '.' false readOctet cs
  return (BitVec.ofNat 32 (((a * 256 + b) * 256 + c) * 256 + d), cs)

/-- Reads up to `limit` groups of an IPv6 literal, and tells whether the last
two came from an embedded IPv4 literal, which needs two groups of room. -/
def readGroups (first : Bool) : ℕ → List Char → List ℕ × Bool × List Char
  | 0, cs => ([], false, cs)
  | limit + 1, cs =>
      match if limit = 0 then none else readSeparated ':' first readIpv4 cs with
      | some (v4, rest) => ([v4.toNat / 65536, v4.toNat % 65536], true, rest)
      | none =>
          match readSeparated ':' first (readNumber 16 (some 4) true 65536) cs with
          | some (group, rest) =>
              let (groups, embedded, rest) := readGroups false limit rest
              (group :: groups, embedded, rest)
          | none => ([], false, cs)

def ofGroups (groups : List ℕ) : BitVec 128 := BitVec.ofNat 128 (digitsValue 65536 groups)

def readIpv6 : Reader (BitVec 128) := fun cs =>
  let (head, embedded, rest) := readGroups true 8 cs
  if head.length = 8 then some (ofGroups head, rest)
  else if embedded then none
  else do
    let (_, rest) ← readGiven ':' rest
    let (_, rest) ← readGiven ':' rest
    -- `::` stands for at least one group, so the tail has one group less room
    let (tail, _, rest) := readGroups true (8 - (head.length + 1)) rest
    let zeros := List.replicate (8 - head.length - tail.length) 0
    return (ofGroups (head ++ zeros ++ tail), rest)

def readIpAddr : Reader IpAddr := fun cs =>
  match readIpv4 cs with
  | some (v4, rest) => some (.v4 v4, rest)
  | none => (readIpv6 cs).map fun (v6, rest) => (.v6 v6, rest)

def readPort : Reader UInt16 := fun cs => do
  let (_, cs) ← readGiven ':' cs
  let (port, cs) ← readNumber 10 none true 65536 cs
  return (UInt16.ofNat port, cs)

def readScopeId : Reader UInt32 := fun cs => do
  let (_, cs) ← readGiven '%' cs
  let (scope, cs) ← readNumber 10 none true 4294967296 cs
  return (UInt32.ofNat scope, cs)

def readSocketAddrV4 : Reader SocketAddr := fun cs => do
  let (ip, cs) ← readIpv4 cs
  let (port, cs) ← readPort cs
  return (.v4 ip port, cs)

def readSocketAddrV6 : Reader SocketAddr := fun cs => do
  let (_, cs) ← readGiven '[' cs
  let (ip, cs) ← readIpv6 cs
  let (scope, cs) := (readScopeId cs).getD (0, cs)
  let (_, cs) ← readGiven ']' cs
  let (port, cs) ← readPort cs
  return (.v6 ip port 0 scope, cs)

def readSocketAddr : Reader SocketAddr := fun cs =>
  match readSocketAddrV4 cs with
  | some read => some read
  | none => readSocketAddrV6 cs

/-- Accepts what a reader reads when it reads everything. -/
def parseWith {α : Type} (read : Reader α) (text : String) : Option α :=
  match read text.toList with
  | some (value, []) => some value
  | _ => none

def IpAddr.parse (text : String) : Option IpAddr := parseWith readIpAddr text

def SocketAddr.parse (text : String) : Option SocketAddr := parseWith readSocketAddr text

/-- An unsigned machine integer below `bound`, with the optional plus sign the
integer parser takes. -/
def parseUnsigned (bound : ℕ) (text : String) : Option ℕ :=
  match text.toList with
  | '+' :: cs => (readNumber 10 none true bound cs).bind finished
  | cs => (readNumber 10 none true bound cs).bind finished
where
  finished : ℕ × List Char → Option ℕ
    | (value, []) => some value
    | _ => none

section decimal

variable {n bound : ℕ} {cs : List Char} {c : Char}

theorem digitOf_isDigit (h : c.isDigit = true) : digitOf 10 c = some (c.toNat - '0'.toNat) := by
  have hc : '0' ≤ c ∧ c ≤ '9' := by
    rw [Char.le_def, Char.le_def]
    simpa [Char.isDigit] using h
  have hvalue : c.toNat - '0'.toNat < 10 := by
    have hlast : c.toNat ≤ '9'.toNat := hc.2
    have : '9'.toNat = 57 := rfl
    have : '0'.toNat = 48 := rfl
    omega
  unfold digitOf
  simp only [hc, and_self, if_true, hvalue]

theorem takeDigits_isDigit (h : ∀ c ∈ cs, c.isDigit = true) :
    takeDigits 10 cs = (cs.map fun c => c.toNat - '0'.toNat, []) := by
  induction cs with
  | nil => rfl
  | cons c cs ih =>
      have hrest := ih fun c' hmem => h c' (List.mem_cons_of_mem c hmem)
      simp only [takeDigits, digitOf_isDigit (h c (List.mem_cons_self ..)), hrest, List.map_cons]

theorem isDigit_of_mem_toString (h : c ∈ (toString n).toList) : c.isDigit = true := by
  rw [Nat.toString_eq_ofList_toDigits, String.toList_ofList] at h
  exact Nat.isDigit_of_mem_toDigits (by omega) (by omega) h

theorem digitsValue_toString :
    digitsValue 10 ((toString n).toList.map fun c => c.toNat - '0'.toNat) = n := by
  have hstep : (fun (value : ℕ) (c : Char) => value * 10 + (c.toNat - '0'.toNat)) =
      fun value c => 10 * value + (c.toNat - '0'.toNat) := by
    funext value c
    omega
  rw [Nat.toString_eq_ofList_toDigits, String.toList_ofList, digitsValue, List.foldl_map, hstep]
  exact Nat.ofDigitChars_ten_toDigits

/-- **A number is read back from its decimal text.** -/
theorem parseUnsigned_toString (h : n < bound) : parseUnsigned bound (toString n) = some n := by
  have hdigits : ∀ c ∈ (toString n).toList, c.isDigit = true := fun c => isDigit_of_mem_toString
  have hread : readNumber 10 none true bound (toString n).toList = some (n, []) := by
    simp only [readNumber, takeDigits_isDigit hdigits, digitsValue_toString]
    simp [h]
  unfold parseUnsigned
  split
  · next cs hplus =>
      have hdigit := hdigits '+' (by rw [hplus]; exact List.mem_cons_self ..)
      cases hdigit
  · rw [hread]
    rfl

end decimal

/-! ### Display -/

def Ipv4.display (bits : BitVec 32) : String :=
  let octet (i : ℕ) := toString (bits.toNat / 256 ^ i % 256)
  octet 3 ++ "." ++ octet 2 ++ "." ++ octet 1 ++ "." ++ octet 0

/-- The eight groups of an IPv6 address, the most significant one first. -/
def groupsOf (bits : BitVec 128) : List ℕ :=
  (List.range 8).map fun i => bits.toNat / 65536 ^ (7 - i) % 65536

/-- Start and length of the first longest run of zero groups. -/
def longestZeros (groups : List ℕ) : ℕ × ℕ :=
  (List.range groups.length).foldl
    (fun best start =>
      let run := ((groups.drop start).takeWhile (· == 0)).length
      if best.2 < run then (start, run) else best)
    (0, 0)

def displayGroups (groups : List ℕ) : String :=
  ":".intercalate (groups.map fun group => String.ofList (Nat.toDigits 16 group))

def Ipv6.display (bits : BitVec 128) : String :=
  if bits.toNat / 2 ^ 32 = 0xffff then
    "::ffff:" ++ Ipv4.display (BitVec.ofNat 32 (bits.toNat % 2 ^ 32))
  else
    let groups := groupsOf bits
    let (start, run) := longestZeros groups
    if 1 < run then
      displayGroups (groups.take start) ++ "::" ++ displayGroups (groups.drop (start + run))
    else displayGroups groups

def IpAddr.display : IpAddr → String
  | .v4 bits => Ipv4.display bits
  | .v6 bits => Ipv6.display bits

def SocketAddr.display : SocketAddr → String
  | .v4 ip port => Ipv4.display ip ++ ":" ++ toString port.toNat
  | .v6 ip port _ scope =>
      let zone := if scope = 0 then "" else "%" ++ toString scope.toNat
      "[" ++ Ipv6.display ip ++ zone ++ "]:" ++ toString port.toNat

instance : ToString IpAddr := ⟨IpAddr.display⟩

instance : ToString SocketAddr := ⟨SocketAddr.display⟩

end Nhop.Foundation
