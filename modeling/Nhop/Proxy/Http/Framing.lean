import Nhop.Proxy.Http.Rewriting

/-!
Where the body of a request ends, as the message format says it.

A request is framed by its fields: a `Transfer-Encoding` whose final coding is
`chunked` makes the body end behind its last chunk and trailer, a
`Content-Length` makes it that long, and a request with neither has no body.
Fields that are spelled otherwise than the format allows, and framings it does
not allow in a request, frame nothing. What `bodyOf` reads agrees: a request
framed by chunks is streamed, and of any other no more is taken than its length
(`streamed_of_framing`, `len_le_of_framing`).
-/

namespace Nhop.Proxy.Http

open Foundation Ipc

/-! ### Fields -/

/-- Visible ASCII but the delimiters: what a field name consists of. -/
def isTokenChar (c : Char) : Bool :=
  33 ≤ c.toNat && c.toNat ≤ 126 && !"\"(),/:;<=>?@[\\]\x7b\x7d".toList.contains c

/-- A line is empty, or a field whose name is a token. -/
def isFieldLine (line : Text) : Bool :=
  match splitOnce [':'] line with
  | none => line.isEmpty
  | some (name, _) => name != [] && name.all isTokenChar

/-- The values of the fields of a name, in order. -/
def valuesOf (lines : List Text) (name : Text) : List Text :=
  lines.filterMap fun line =>
    (splitOnce [':'] line).bind fun field =>
      if asciiLowercase field.1 = asciiLowercase name then some (trimmed field.2) else none

/-- A length: one digit or more. -/
def decimal (value : Text) : Option ℕ :=
  if value ≠ [] ∧ value.all Char.isDigit = true then
    some (digitsValue 10 (value.map fun c => c.toNat - '0'.toNat))
  else none

/-- The last of the codings the values of a field list. -/
def finalCoding (values : List Text) : Option Text :=
  (values.flatMap fun value => (pieces [','] value).map fun coding =>
    asciiLowercase (trimmed coding)).getLast?

/-! ### Framing -/

inductive Framing
  | sized (length : ℕ)
  | chunked
  deriving DecidableEq, Repr

/-- How the fields frame the body, `none` where they do not. -/
def framing (headers : Text) : Option Framing :=
  let lines := pieces crlf headers
  if lines.all isFieldLine then
    match valuesOf lines "transfer-encoding".toList with
    | [] =>
        match valuesOf lines "content-length".toList with
        | [] => some (.sized 0)
        | value :: others =>
            if others.all (· == value) then (decimal value).map .sized else none
    | value :: others =>
        if finalCoding (value :: others) = some "chunked".toList then some .chunked else none
  else none

/-- How a request head frames the body behind it. -/
def framingOf (head : List UInt8) : Option Framing :=
  (fromUtf8 head).bind fun text => (splitOnce crlf text).bind fun split => framing split.2

/-! ### Chunks -/

/-- A carriage return and a line feed. -/
def newline : List UInt8 := [13, 10]

def readAscii (bytes : List UInt8) : Text := bytes.map fun byte => Char.ofNat byte.toNat

/-- The size on a chunk line: hexadecimal digits, up to an extension. -/
def chunkSize (line : List UInt8) : Option ℕ :=
  let (digits, behind) := takeDigits 16 (readAscii line)
  if digits = [] then none
  else
    match behind.dropWhile fun c => c == ' ' || c == '\t' with
    | [] | ';' :: _ => some (digitsValue 16 digits)
    | _ :: _ => none

/-- How many bytes a trailer takes, up to and including its empty line. -/
def trailerWithin : ℕ → List UInt8 → Option ℕ
  | 0, _ => none
  | rounds + 1, bytes =>
      match splitOnce newline bytes with
      | none => none
      | some (line, rest) =>
          if line = [] then some newline.length
          else (trailerWithin rounds rest).map (line.length + newline.length + ·)

/-- How many bytes the rest of a chunked body takes. -/
def chunksWithin : ℕ → List UInt8 → Option ℕ
  | 0, _ => none
  | rounds + 1, bytes =>
      match splitOnce newline bytes with
      | none => none
      | some (line, rest) =>
          match chunkSize line with
          | none => none
          | some 0 =>
              (trailerWithin (rest.length + 1) rest).map (line.length + newline.length + ·)
          | some (size + 1) =>
              if newline.isPrefixOf (rest.drop (size + 1)) then
                (chunksWithin rounds (rest.drop (size + 1 + newline.length))).map
                  (line.length + newline.length + (size + 1) + newline.length + ·)
              else none

/-- Where a chunked body at the beginning of a stream ends, `none` when the stream
does not hold a whole one. -/
def chunkedEnd (stream : List UInt8) : Option ℕ := chunksWithin (stream.length + 1) stream

/-- How much of the stream behind a head is the body: all of it where the body is
not over. -/
def bodyEnd (framed : Framing) (stream : List UInt8) : ℕ :=
  match framed with
  | .sized length => length
  | .chunked => (chunkedEnd stream).getD stream.length

/-- How much of the stream behind a head is its body: nothing behind a head that
frames none. -/
def bodyEndOf (head stream : List UInt8) : ℕ :=
  match framingOf head with
  | none => 0
  | some framed => bodyEnd framed stream

example : chunkedEnd (intoBytes "4\r\nWiki\r\n0\r\n\r\nGET / HTTP/1.1".toList) = some 14 := by
  decide +kernel

/-! ### What the front end reads -/

/-- The text of the fields of a head. -/
def fieldText (head : List UInt8) : Text :=
  ((fromUtf8 head).bind (splitOnce crlf)).elim [] Prod.snd

/-- No field reads as a transfer coding, and if one reads as a length, the first
such length is zero or no number. -/
def Bodiless (head : List UInt8) : Prop :=
  header (fieldText head) "transfer-encoding".toList = none ∧
    ∀ value, header (fieldText head) "content-length".toList = some value →
      ∀ len, parseUsize value = some len → len = 0

section read

variable {lines : List Text} {name value headers : Text} {c : Char}

theorem isWhitespace_of_isTokenChar (h : isTokenChar c = true) : isWhitespace c = false := by
  simp only [isTokenChar, Bool.and_eq_true, decide_eq_true_eq] at h
  simp only [isWhitespace, Bool.or_eq_false_iff, Bool.and_eq_false_iff, decide_eq_false_iff_not,
    beq_eq_false_iff_ne]
  omega

theorem trimmed_token (h : name.all isTokenChar = true) : trimmed name = name := by
  have hall : ∀ c ∈ name, isWhitespace c = false := fun c hmem =>
    isWhitespace_of_isTokenChar (List.all_eq_true.mp h c hmem)
  exact trimmed_eq_self (fun c hmem => hall c (List.mem_of_mem_head? hmem))
    fun c hmem => hall c (List.mem_of_getLast? hmem)

/-- Of fields that are spelled as they must be, the first of a name is read. -/
theorem headerIn_eq (h : lines.all isFieldLine = true) :
    headerIn lines name = (valuesOf lines name).head? := by
  induction lines with
  | nil => rfl
  | cons line lines ih =>
      simp only [List.all_cons, Bool.and_eq_true] at h
      have hrest := ih h.2
      unfold headerIn
      cases hsplit : splitOnce [':'] line with
      | none =>
          simp only [valuesOf, List.filterMap_cons, hsplit, Option.bind_none]
          exact hrest
      | some field =>
          obtain ⟨field, value⟩ := field
          have htoken : trimmed field = field := by
            have hline := h.1
            simp only [isFieldLine, hsplit, Bool.and_eq_true] at hline
            exact trimmed_token hline.2
          by_cases hname : asciiLowercase field = asciiLowercase name
          · simp [valuesOf, hsplit, htoken, hname]
          · simp only [valuesOf, List.filterMap_cons, hsplit, Option.bind_some, htoken, hname,
              if_false]
            exact hrest

/-- A number of digits alone is read as what they say. -/
theorem parseUnsigned_of_decimal {bound n : ℕ} (h : decimal value = some n) :
    parseUnsigned bound (String.ofList value) = if n < bound then some n else none := by
  unfold decimal at h
  split_ifs at h with hdigits
  cases h
  obtain ⟨hne, hall⟩ := hdigits
  have htake := takeDigits_isDigit (List.all_eq_true.mp hall)
  have hread : readNumber 10 none true bound value =
      if digitsValue 10 (value.map fun c => c.toNat - '0'.toNat) < bound then
        some (digitsValue 10 (value.map fun c => c.toNat - '0'.toNat), [])
      else none := by
    simp [readNumber, htake, hne]
  unfold parseUnsigned
  rw [String.toList_ofList]
  split
  · next cs =>
      cases List.all_eq_true.mp hall '+' (List.mem_cons_self ..)
  · rw [hread]
    split_ifs <;> rfl

theorem parseUsize_of_decimal {n : ℕ} (h : decimal value = some n) :
    parseUsize value = if n < 2 ^ 64 then some n else none := parseUnsigned_of_decimal h

/-- A request that is not framed by chunks is not taken to be longer than it is. -/
theorem len_le_of_framing {length : ℕ} (h : framing headers = some (.sized length)) :
    ∃ len, bodyOf headers = .sized len ∧ len ≤ length := by
  simp only [framing] at h
  split_ifs at h with hlines
  have hheader (name : Text) : header headers name =
      (valuesOf (pieces crlf headers) name).head? := headerIn_eq hlines
  split at h
  · next htransfer =>
      simp only [bodyOf, hheader, htransfer, List.head?_nil]
      split at h
      · next hlength =>
          cases h
          rw [hlength]
          exact ⟨0, rfl, Nat.le_refl _⟩
      · next value others hlength =>
          rw [hlength]
          split_ifs at h
          obtain ⟨n, hdecimal, hn⟩ := Option.map_eq_some_iff.mp h
          cases hn
          refine ⟨_, rfl, ?_⟩
          rw [parseUsize_of_decimal hdecimal]
          split_ifs
          · exact Nat.le_refl _
          · exact Nat.zero_le _
  · split_ifs at h
    cases h

theorem streamed_of_framing (h : framing headers = some .chunked) :
    bodyOf headers = .streamed := by
  simp only [framing] at h
  split_ifs at h with hlines
  have hheader : header headers "transfer-encoding".toList =
      (valuesOf (pieces crlf headers) "transfer-encoding".toList).head? := headerIn_eq hlines
  split at h
  · split at h
    · cases h
    · split_ifs at h
      obtain ⟨_, _, hne⟩ := Option.map_eq_some_iff.mp h
      cases hne
  · next value others htransfer =>
      simp only [bodyOf, hheader, htransfer, List.head?_cons]

theorem framingOf_eq {head : List UInt8} {framed : Framing} (h : framingOf head = some framed) :
    framing (fieldText head) = some framed := by
  obtain ⟨text, htext, hsplits⟩ := Option.bind_eq_some_iff.mp h
  obtain ⟨split, hsplit, hframed⟩ := Option.bind_eq_some_iff.mp hsplits
  rw [fieldText, htext, Option.bind_some, hsplit]
  exact hframed

theorem bodiless_iff {head : List UInt8} :
    Bodiless head ↔ bodyOf (fieldText head) = .sized 0 := by
  unfold Bodiless bodyOf
  cases header (fieldText head) "transfer-encoding".toList with
  | some value => simp
  | none =>
      cases header (fieldText head) "content-length".toList with
      | none => simp
      | some value => cases hlen : parseUsize value <;> simp [hlen]

end read

end Nhop.Proxy.Http
