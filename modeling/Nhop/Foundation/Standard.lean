import Nhop.Foundation.Address

/-!
The rest of the standard library the model rests on: wall-clock instants, shared
allocations, I/O failures, and the text routines of `str`.

Two routines read tables the standard library carries, Unicode lower-casing and
the escaping of a debug rendering, and the reading of a network is a library
routine as well. They are the fields of `External`, which asks of them only what
their documentation says and the model uses; every result holds whatever they
answer beyond that.
-/

namespace Nhop.Foundation

/-! ### Time

A wall-clock instant is a number of nanoseconds since the epoch, which it may
precede; a length of time is a number of nanoseconds. -/

/-- How long ago `earlier` was, absent when it is later than `now`. -/
def durationSince (now earlier : ℤ) : Option ℕ :=
  if earlier ≤ now then some (now - earlier).toNat else none

theorem durationSince_eq_some {now earlier : ℤ} {length : ℕ} :
    durationSince now earlier = some length ↔ earlier ≤ now ∧ now - earlier = length := by
  unfold durationSince
  split <;> simp <;> omega

def seconds (n : ℕ) : ℕ := n * 1000000000

/-! ### Shared allocations

A reference-counted value is the value and the allocation it lives in: two
handles point to the same value exactly when their allocations agree. -/

structure Arc (α : Type) where
  ptr : ℕ
  val : α
  deriving DecidableEq, Repr

def Arc.ptrEq {α : Type} (a b : Arc α) : Bool := a.ptr == b.ptr

/-! ### Failures -/

/-- A failed system call, by the text it is reported with. -/
structure OsError where
  text : String
  deriving DecidableEq, Repr

instance : ToString OsError := ⟨OsError.text⟩

/-! ### Text -/

/-- The characters with the Unicode property `White_Space`. -/
def isWhitespace (c : Char) : Bool :=
  let n := c.toNat
  (9 ≤ n && n ≤ 13) || n == 32 || n == 0x85 || n == 0xa0 || n == 0x1680 ||
    (0x2000 ≤ n && n ≤ 0x200a) || n == 0x2028 || n == 0x2029 || n == 0x202f ||
    n == 0x205f || n == 0x3000

theorem isWhitespace_of_isDigit {c : Char} (h : c.isDigit = true) : isWhitespace c = false := by
  have hrange : 48 ≤ c.toNat ∧ c.toNat ≤ 57 := by
    simpa [Char.isDigit, UInt32.le_iff_toNat_le] using h
  simp only [isWhitespace, Bool.or_eq_false_iff, Bool.and_eq_false_iff, decide_eq_false_iff_not,
    beq_eq_false_iff_ne]
  omega

def trim (text : String) : String :=
  String.ofList (((text.toList.dropWhile isWhitespace).reverse.dropWhile isWhitespace).reverse)

/-- The text behind `head`, absent when the text does not start with it. -/
def stripStart (head text : String) : Option String :=
  if head.toList.isPrefixOf text.toList then
    some (String.ofList (text.toList.drop head.toList.length))
  else none

/-- The text before `tail`, absent when the text does not end with it. -/
def stripEnd (tail text : String) : Option String :=
  if tail.toList.isSuffixOf text.toList then
    some (String.ofList (text.toList.take (text.toList.length - tail.toList.length)))
  else none

/-- Whether `part` occurs in the text. -/
def containsText (part text : String) : Bool := decide (part.toList <:+: text.toList)

/-- Splits at the last occurrence of a character, which is dropped. -/
def splitLast (c : Char) (text : String) : Option (String × String) :=
  let chars := text.toList
  let tail := (chars.reverse.takeWhile (· != c)).reverse
  if tail.length < chars.length then
    some (String.ofList (chars.take (chars.length - tail.length - 1)), String.ofList tail)
  else none

/-- A network of either family: an address of it and the number of leading bits
its addresses share. -/
inductive IpNet
  | v4 (addr : BitVec 32) (len : ℕ)
  | v6 (addr : BitVec 128) (len : ℕ)
  deriving DecidableEq, Repr

/-- Whether a network and an address are of one family. -/
def IpNet.alike : IpNet → IpAddr → Bool
  | .v4 _ _, .v4 _ | .v6 _ _, .v6 _ => true
  | .v4 _ _, .v6 _ | .v6 _ _, .v4 _ => false

/-- Whether the leading bits of an address are those of a network. -/
def IpNet.shares : IpNet → IpAddr → Bool
  | .v4 net len, .v4 addr => net >>> (32 - len) == addr >>> (32 - len)
  | .v6 net len, .v6 addr => net >>> (128 - len) == addr >>> (128 - len)
  | _, _ => false

theorem IpNet.alike_of_shares {network : IpNet} {address : IpAddr}
    (h : network.shares address = true) : network.alike address = true := by
  cases network <;> cases address <;> first | rfl | cases h

/-- The routines whose tables or code are not part of the program. -/
class External where
  /-- Unicode lower-casing. -/
  lowercase : String → String
  /-- The rendering of a text inside quotation marks, escaped for display. -/
  debug : String → String
  /-- A network as `<address>/<length>`. -/
  parseNet : String → Option IpNet
  /-- Whether an address lies in a network. -/
  contains : IpNet → IpAddr → Bool
  /-- An address lies in networks of its own family only. -/
  alike_of_contains : ∀ network address, contains network address = true →
    network.alike address = true
  /-- On ASCII text lower-casing is the ASCII one. -/
  lowercase_ascii : ∀ text, (∀ c ∈ text.toList, c.toNat < 128) →
    lowercase text = String.ofList (text.toList.map Char.toLower)

/-- Routines that agree with the documented ones on ASCII text without escapes
or the texts of networks, to run the model with. -/
def External.ascii : External where
  lowercase text := String.ofList (text.toList.map Char.toLower)
  debug text := "\"" ++ text ++ "\""
  parseNet _ := none
  contains := IpNet.shares
  alike_of_contains _ _ := IpNet.alike_of_shares
  lowercase_ascii _ _ := rfl

end Nhop.Foundation
