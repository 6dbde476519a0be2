import Nhop.Foundation.Lines
import Nhop.Foundation.Split

/-!
Texts and the bytes they are stored as.

Bytes are read as a text or not at all, and what they are read as is what they
were written from. A text that is cut in two is read again up to the cut exactly
when the cut is not inside a character (`utf8Text_take`), since no character's
bytes begin another's. A character of one byte is found in the bytes where it was
written (`marks_utf8`), and so are the lines of a text (`upTo_utf8Bytes`).
-/

namespace Nhop.Foundation

def utf8Bytes (text : List Char) : List UInt8 := text.flatMap String.utf8EncodeChar

/-- The text some bytes are, absent when they are none. -/
def utf8Text (bytes : List UInt8) : Option (List Char) :=
  (String.fromUTF8? ⟨bytes.toArray⟩).map String.toList

variable {text more : List Char} {bytes rest : List UInt8} {c d : Char} {n : ℕ}

@[simp] theorem utf8Bytes_nil : utf8Bytes [] = [] := rfl

@[simp] theorem utf8Bytes_cons (c : Char) (text : List Char) :
    utf8Bytes (c :: text) = String.utf8EncodeChar c ++ utf8Bytes text := by
  simp [utf8Bytes]

@[simp] theorem utf8Bytes_append (text more : List Char) :
    utf8Bytes (text ++ more) = utf8Bytes text ++ utf8Bytes more := by
  simp [utf8Bytes]

theorem utf8EncodeChar_ne_nil (c : Char) : String.utf8EncodeChar c ≠ [] := by
  unfold String.utf8EncodeChar
  simp only
  split_ifs <;> simp

theorem utf8EncodeChar_append_ne_nil : String.utf8EncodeChar c ++ rest ≠ [] :=
  List.append_ne_nil_of_left_ne_nil (utf8EncodeChar_ne_nil c) rest

theorem utf8Bytes_ne_nil (h : text ≠ []) : utf8Bytes text ≠ [] := by
  obtain ⟨c, text, rfl⟩ := List.exists_cons_of_ne_nil h
  rw [utf8Bytes_cons]
  exact utf8EncodeChar_append_ne_nil

theorem utf8EncodeChar_append_inj {more : List UInt8}
    (h : String.utf8EncodeChar c ++ rest = String.utf8EncodeChar d ++ more) :
    c = d ∧ rest = more := by
  have hfirst : some c = some d := by
    have hread (c : Char) (rest : List UInt8) :
        ByteArray.utf8DecodeChar? (String.utf8EncodeChar c ++ rest).toByteArray 0 = some c := by
      rw [List.toByteArray_append]
      exact ByteArray.utf8DecodeChar?_utf8EncodeChar_append
    rw [← hread c rest, h, hread d more]
  obtain rfl := Option.some.inj hfirst
  exact ⟨rfl, List.append_cancel_left h⟩

theorem of_utf8Bytes_append (h : utf8Bytes text ++ rest = utf8Bytes more) :
    ∃ behind, more = text ++ behind ∧ rest = utf8Bytes behind := by
  induction text generalizing more with
  | nil => exact ⟨more, rfl, h⟩
  | cons c text ih =>
      cases more with
      | nil =>
          rw [utf8Bytes_cons, List.append_assoc, utf8Bytes_nil] at h
          exact absurd h utf8EncodeChar_append_ne_nil
      | cons d more =>
          rw [utf8Bytes_cons, utf8Bytes_cons, List.append_assoc] at h
          obtain ⟨rfl, hrest⟩ := utf8EncodeChar_append_inj h
          obtain ⟨behind, rfl, hbehind⟩ := ih hrest
          exact ⟨behind, rfl, hbehind⟩

theorem utf8Bytes_injective : Function.Injective utf8Bytes := by
  intro text more h
  have happend : utf8Bytes text ++ [] = utf8Bytes more := by simpa using h
  obtain ⟨behind, rfl, hbehind⟩ := of_utf8Bytes_append happend
  cases behind with
  | nil => simp
  | cons c behind => exact absurd hbehind.symm (utf8Bytes_ne_nil (List.cons_ne_nil c behind))

/-! ### Characters of one byte -/

/-- A character of one byte. -/
def OneByte (c : Char) : Prop := c.val.toNat ≤ 0x7f

def byteOf (c : Char) : UInt8 := c.val.toNat.toUInt8

theorem le_of_mem_utf8EncodeChar {c : Char} (h : ¬OneByte c) {byte : UInt8}
    (hmem : byte ∈ String.utf8EncodeChar c) : 0x80 ≤ byte.toNat := by
  have hbyte (n : ℕ) (hlow : 0x80 ≤ n) (hhigh : n < 256) : 0x80 ≤ (n.toUInt8).toNat := by
    rw [Nat.toUInt8, UInt8.toNat_ofNat', Nat.mod_eq_of_lt hhigh]
    exact hlow
  unfold String.utf8EncodeChar at hmem
  simp only [show ¬c.val.toNat ≤ 0x7f from h, if_false] at hmem
  split_ifs at hmem <;> simp only [List.mem_cons, List.not_mem_nil, or_false] at hmem
  · rcases hmem with rfl | rfl <;> apply hbyte <;> omega
  · rcases hmem with rfl | rfl | rfl <;> apply hbyte <;> omega
  · rcases hmem with rfl | rfl | rfl | rfl <;> apply hbyte <;> omega

theorem toNat_byteOf {c : Char} (h : OneByte c) : (byteOf c).toNat = c.val.toNat := by
  unfold OneByte at h
  rw [byteOf, Nat.toUInt8, UInt8.toNat_ofNat', Nat.mod_eq_of_lt (by omega)]

/-- A character of one byte is written as that byte, which nothing else is written
with. -/
theorem marks_utf8 : Marks String.utf8EncodeChar byteOf OneByte where
  writes c h := by
    unfold OneByte at h
    unfold String.utf8EncodeChar
    simp only [h, if_true]
    rfl
  injective a b ha hb h := by
    have hval := congrArg UInt8.toNat h
    rw [toNat_byteOf ha, toNat_byteOf hb] at hval
    exact Char.ext (UInt32.toNat_inj.mp hval)
  apart a b ha hb hmem := by
    have hle := le_of_mem_utf8EncodeChar hb hmem
    rw [toNat_byteOf ha] at hle
    unfold OneByte at ha
    omega

/-- The first line of a text is where its bytes have it. -/
theorem upTo_utf8Bytes {nl : Char} (h : OneByte nl) (text : List Char) :
    upTo (byteOf nl) (utf8Bytes text) = utf8Bytes (upTo nl text) := by
  induction text with
  | nil => rfl
  | cons c text ih =>
      rw [utf8Bytes_cons, upTo_cons nl c text]
      by_cases hc : c = nl
      · rw [if_pos hc, hc, marks_utf8.writes nl h, List.singleton_append, upTo_cons, if_pos rfl]
        simp [utf8Bytes, marks_utf8.writes nl h]
      · have hnot : byteOf nl ∉ String.utf8EncodeChar c := by
          intro hmem
          by_cases hone : OneByte c
          · rw [marks_utf8.writes c hone, List.mem_singleton] at hmem
            exact hc (marks_utf8.injective nl c h hone hmem).symm
          · exact marks_utf8.apart nl c h hone hmem
        rw [if_neg hc, upTo_append_of_notMem hnot, ih, utf8Bytes_cons]

/-! ### Reading bytes -/

/-- **Bytes are read as the text they were written from.** -/
theorem utf8Text_utf8Bytes (text : List Char) : utf8Text (utf8Bytes text) = some text := by
  have hbytes : (⟨(utf8Bytes text).toArray⟩ : ByteArray) = (String.ofList text).toUTF8 := by
    apply ByteArray.ext
    simp [utf8Bytes, List.utf8Encode]
  have hread : String.fromUTF8? (String.ofList text).toUTF8 = some (String.ofList text) :=
    dif_pos (String.ofList text).isValidUTF8
  rw [utf8Text, hbytes, hread, Option.map_some, String.toList_ofList]

theorem utf8Text_eq_some : utf8Text bytes = some text ↔ bytes = utf8Bytes text := by
  constructor
  · intro h
    have hvalid : (⟨bytes.toArray⟩ : ByteArray).IsValidUTF8 := by
      by_contra hinvalid
      simp [utf8Text, String.fromUTF8?, hinvalid] at h
    obtain ⟨read, hread⟩ := hvalid
    have hbytes : bytes = utf8Bytes read := by
      have hdata := congrArg (fun array => array.data.toList) hread
      simpa [List.utf8Encode, utf8Bytes] using hdata
    rw [hbytes, utf8Text_utf8Bytes] at h
    rw [hbytes, Option.some.inj h]
  · rintro rfl
    exact utf8Text_utf8Bytes text

/-! ### Cuts -/

/-- A cut of the text's bytes that is not inside a character. -/
def AtChar (text : List Char) (n : ℕ) : Prop :=
  ∃ before behind, text = before ++ behind ∧ (utf8Bytes before).length = n

/-- **Up to a cut the text is read exactly when it is not inside a character.** -/
theorem utf8Text_take (hn : n ≤ (utf8Bytes text).length) :
    (utf8Text ((utf8Bytes text).take n)).isSome ↔ AtChar text n := by
  constructor
  · intro h
    obtain ⟨before, hbefore⟩ := Option.isSome_iff_exists.mp h
    have hbytes := utf8Text_eq_some.mp hbefore
    have happend : utf8Bytes before ++ (utf8Bytes text).drop n = utf8Bytes text := by
      rw [← hbytes, List.take_append_drop]
    obtain ⟨behind, htext, _⟩ := of_utf8Bytes_append happend
    refine ⟨before, behind, htext, ?_⟩
    rw [← hbytes, List.length_take, Nat.min_eq_left hn]
  · rintro ⟨before, behind, rfl, rfl⟩
    rw [utf8Bytes_append, List.take_left', utf8Text_utf8Bytes]
    · rfl
    · rfl

/-- A cut between the ends of a character is inside it. -/
theorem not_atChar {before behind : List Char} (hstart : (utf8Bytes before).length < n)
    (hend : n < (utf8Bytes (before ++ [c])).length) : ¬AtChar (before ++ c :: behind) n := by
  rintro ⟨left, right, hsplit, hn⟩
  rcases List.append_eq_append_iff.mp hsplit with ⟨between, rfl, hbehind⟩ | ⟨between, rfl, hright⟩
  · cases between with
    | nil =>
        rw [List.append_nil] at hn
        omega
    | cons d between =>
        obtain ⟨rfl, _⟩ := List.cons.inj hbehind
        rw [utf8Bytes_append, List.length_append, utf8Bytes_cons,
          List.length_append] at hn
        rw [utf8Bytes_append, List.length_append, utf8Bytes_cons, utf8Bytes_nil,
          List.append_nil] at hend
        omega
  · rw [utf8Bytes_append, List.length_append] at hstart
    omega

end Nhop.Foundation
