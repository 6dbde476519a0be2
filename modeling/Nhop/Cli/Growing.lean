import Nhop.Cli.Follow
import Nhop.Foundation.Utf8

/-!
Reading one log file while it grows, in bytes.

A read goes from the offset the last one ended at to the end of the file, and
takes the whole of that for text. Lines end at characters, so the offset is never
inside one; the end of the file may be, since an append can be seen in parts. A
read that finds it there fails, and nothing else makes one fail
(`rereads_iff`). Otherwise a read is that of the text the file holds
(`readFrom_utf8Bytes`), and together the reads return every complete line once.
-/

namespace Nhop.Cli.Bytes

open Foundation

/-- The complete lines a log file holds past an offset, and the offset they end at.
The read fails when what is past the offset is no text. -/
def readFrom (file : List UInt8) (offset : ℕ) : Option (List Text × ℕ) :=
  let offset := if file.length < offset then 0 else offset
  (utf8Text (file.drop offset)).map fun read =>
    let complete := lines '\n' read
    (complete.map trimEnd, offset + (utf8Bytes complete.flatten).length)

/-- The lines returned by one read after each append, each from the offset the read
before it returned. -/
def rereads : List (List UInt8) → List UInt8 → ℕ → Option (List Text)
  | [], _, _ => some []
  | more :: rest, file, offset =>
      (readFrom (file ++ more) offset).bind fun read =>
        (rereads rest (file ++ more) read.2).map (read.1 ++ ·)

section readFrom

variable {seen text : Text} {more : List UInt8} {chunks : List (List UInt8)}

/-- Where the reads of a text have come to. -/
def offsetOf (seen : Text) : ℕ := (utf8Bytes (lines '\n' seen).flatten).length

theorem length_utf8Bytes_take_add {behind : Text} {n : ℕ} (h : behind <+: text.drop n) :
    (utf8Bytes (text.take (n + behind.length))).length =
      (utf8Bytes (text.take n)).length + (utf8Bytes behind).length := by
  have htake : (text.drop n).take behind.length = behind := (List.prefix_iff_eq_take.mp h).symm
  rw [List.take_add, htake, utf8Bytes_append, List.length_append]

theorem readFrom_utf8Bytes {offset : ℕ} (h : offset ≤ text.length) :
    readFrom (utf8Bytes text) (utf8Bytes (text.take offset)).length =
      some ((Cli.readFrom text offset).1,
        (utf8Bytes (text.take (Cli.readFrom text offset).2)).length) := by
  have htext : utf8Bytes text = utf8Bytes (text.take offset) ++ utf8Bytes (text.drop offset) := by
    rw [← utf8Bytes_append, List.take_append_drop]
  have hinside : ¬(utf8Bytes text).length < (utf8Bytes (text.take offset)).length := by
    rw [htext, List.length_append]
    omega
  have hoffset : ¬text.length < offset := by omega
  have hdrop : (utf8Bytes text).drop (utf8Bytes (text.take offset)).length =
      utf8Bytes (text.drop offset) := by
    rw [htext, List.drop_left]
  simp only [readFrom, Cli.readFrom, hinside, hoffset, if_false, hdrop, utf8Text_utf8Bytes,
    Option.map_some]
  rw [length_utf8Bytes_take_add (flatten_lines_begins '\n' (text.drop offset))]

theorem drop_offsetOf (seen : Text) (more : List UInt8) :
    ∃ behind, seen = (lines '\n' seen).flatten ++ behind ∧
      (utf8Bytes seen ++ more).drop (offsetOf seen) = utf8Bytes behind ++ more := by
  obtain ⟨behind, hseen⟩ := flatten_lines_begins '\n' seen
  refine ⟨behind, hseen.symm, ?_⟩
  have hbytes : utf8Bytes seen =
      utf8Bytes (lines '\n' seen).flatten ++ utf8Bytes behind := by
    rw [← utf8Bytes_append, hseen]
  rw [hbytes, List.append_assoc, offsetOf, List.drop_left]

theorem offsetOf_le (seen : Text) (more : List UInt8) :
    ¬(utf8Bytes seen ++ more).length < offsetOf seen := by
  obtain ⟨behind, hseen⟩ := flatten_lines_begins '\n' seen
  have hlength := congrArg (fun text => (utf8Bytes text).length) hseen
  simp only [utf8Bytes_append, List.length_append] at hlength ⊢
  rw [offsetOf]
  omega

theorem readFrom_text (h : utf8Bytes seen ++ more = utf8Bytes text) :
    ∃ completed, lines '\n' text = lines '\n' seen ++ completed ∧
      readFrom (utf8Bytes seen ++ more) (offsetOf seen) =
        some (completed.map trimEnd, offsetOf text) := by
  obtain ⟨grown, rfl, hmore⟩ := of_utf8Bytes_append h
  obtain ⟨behind, hseen, hdrop⟩ := drop_offsetOf seen more
  have hlines : lines '\n' (seen ++ grown) = lines '\n' seen ++ lines '\n' (behind ++ grown) := by
    conv_lhs =>
      rw [hseen, List.append_assoc, lines_append (closed_lines '\n' seen), lines_flatten_lines]
  refine ⟨lines '\n' (behind ++ grown), hlines, ?_⟩
  have hread : utf8Text ((utf8Bytes seen ++ more).drop (offsetOf seen)) =
      some (behind ++ grown) := by
    rw [hdrop, hmore, ← utf8Bytes_append, utf8Text_utf8Bytes]
  simp only [readFrom, offsetOf_le seen more, if_false, hread, Option.map_some]
  rw [offsetOf, offsetOf, hlines, List.flatten_append, utf8Bytes_append, List.length_append]

theorem readFrom_none (h : utf8Text (utf8Bytes seen ++ more) = none) :
    readFrom (utf8Bytes seen ++ more) (offsetOf seen) = none := by
  obtain ⟨behind, hseen, hdrop⟩ := drop_offsetOf seen more
  have hread : utf8Text ((utf8Bytes seen ++ more).drop (offsetOf seen)) = none := by
    rw [hdrop]
    by_contra hsome
    obtain ⟨read, hread⟩ := Option.ne_none_iff_exists'.mp hsome
    have hbytes : utf8Bytes seen ++ more =
        utf8Bytes ((lines '\n' seen).flatten ++ read) := by
      rw [utf8Bytes_append, ← utf8Text_eq_some.mp hread, ← List.append_assoc,
        ← utf8Bytes_append, ← hseen]
    rw [hbytes, utf8Text_utf8Bytes] at h
    cases h
  simp only [readFrom, offsetOf_le seen more, if_false, hread, Option.map_none]

end readFrom

/-! ### Read after read -/

section rereads

variable {seen text : Text} {chunks : List (List UInt8)}

/-- Whether the file is a text at every read. -/
def WholeAt (file : List UInt8) (chunks : List (List UInt8)) : Prop :=
  ∀ before behind, chunks = before ++ behind → before ≠ [] →
    (utf8Text (file ++ before.flatten)).isSome

theorem wholeAt_cons {file more : List UInt8} :
    WholeAt file (more :: chunks) ↔
      (utf8Text (file ++ more)).isSome ∧ WholeAt (file ++ more) chunks := by
  constructor
  · intro h
    refine ⟨by simpa using h [more] chunks rfl (by simp), ?_⟩
    rintro before behind rfl hne
    simpa using h (more :: before) behind rfl (by simp)
  · rintro ⟨hfirst, hrest⟩ before behind hsplit hne
    obtain ⟨before, rfl⟩ : ∃ rest, before = more :: rest := by
      cases before with
      | nil => exact absurd rfl hne
      | cons first rest => exact ⟨rest, by rw [(List.cons.inj hsplit).1]⟩
    obtain ⟨_, rfl⟩ := List.cons.inj hsplit
    by_cases hnil : before = []
    · subst hnil
      simpa using hfirst
    · simpa using hrest before behind rfl hnil

/-- By induction on the appends: the file stays a text, and the offset the one behind
its complete lines. -/
theorem rereads_text (h : utf8Bytes seen ++ chunks.flatten = utf8Bytes text)
    (hwhole : WholeAt (utf8Bytes seen) chunks) :
    ∃ completed, lines '\n' text = lines '\n' seen ++ completed ∧
      rereads chunks (utf8Bytes seen) (offsetOf seen) = some (completed.map trimEnd) := by
  induction chunks generalizing seen with
  | nil =>
      obtain rfl : seen = text := utf8Bytes_injective (by simpa using h)
      exact ⟨[], by simp, rfl⟩
  | cons more chunks ih =>
      obtain ⟨hfirst, hrest⟩ := wholeAt_cons.mp hwhole
      obtain ⟨grown, hgrown⟩ := Option.isSome_iff_exists.mp hfirst
      have hfile := utf8Text_eq_some.mp hgrown
      obtain ⟨completed, hlines, hread⟩ := readFrom_text hfile
      rw [hfile] at hrest
      obtain ⟨later, hlater, hreads⟩ := ih (by rw [← hfile]; simpa using h) hrest
      refine ⟨completed ++ later, ?_, ?_⟩
      · rw [hlater, hlines, List.append_assoc]
      · rw [rereads, hread, Option.bind_some, hfile, hreads, Option.map_some, List.map_append]

theorem wholeAt_of_rereads {out : List Text}
    (h : rereads chunks (utf8Bytes seen) (offsetOf seen) = some out) :
    WholeAt (utf8Bytes seen) chunks := by
  induction chunks generalizing seen out with
  | nil =>
      rintro before behind hsplit hne
      exact absurd (List.append_eq_nil_iff.mp hsplit.symm).1 hne
  | cons more chunks ih =>
      rw [wholeAt_cons]
      cases hgrown : utf8Text (utf8Bytes seen ++ more) with
      | none =>
          rw [rereads, readFrom_none hgrown] at h
          cases h
      | some grown =>
          have hfile := utf8Text_eq_some.mp hgrown
          obtain ⟨completed, _, hread⟩ := readFrom_text hfile
          rw [rereads, hread, Option.bind_some, hfile] at h
          obtain ⟨later, hlater, _⟩ := Option.map_eq_some_iff.mp h
          refine ⟨rfl, ?_⟩
          rw [hfile]
          exact ih hlater

/-- **Reading a growing file.** However the file is revealed, the reads all succeed
and return its complete lines, each once and in order, exactly when none of them
finds the file ending inside a character. -/
theorem rereads_iff (h : chunks.flatten = utf8Bytes text) :
    rereads chunks [] 0 = some ((lines '\n' text).map trimEnd) ↔
      ∀ before behind, chunks = before ++ behind → AtChar text before.flatten.length := by
  have hstart : WholeAt (utf8Bytes []) chunks ↔
      ∀ before behind, chunks = before ++ behind → AtChar text before.flatten.length := by
    have hcut : ∀ before behind, chunks = before ++ behind →
        ((utf8Text before.flatten).isSome ↔ AtChar text before.flatten.length) := by
      rintro before behind rfl
      have hbytes : utf8Bytes text = before.flatten ++ behind.flatten := by
        rw [← h, List.flatten_append]
      have htake : (utf8Bytes text).take before.flatten.length = before.flatten := by
        rw [hbytes, List.take_left]
      rw [← utf8Text_take (by rw [hbytes, List.length_append]; omega), htake]
    constructor
    · intro hwhole before behind hsplit
      by_cases hnil : before = []
      · subst hnil
        exact ⟨[], text, rfl, rfl⟩
      · exact (hcut before behind hsplit).mp (hwhole before behind hsplit hnil)
    · intro hcuts before behind hsplit _
      exact (hcut before behind hsplit).mpr (hcuts before behind hsplit)
  rw [← hstart]
  constructor
  · intro hreads
    exact @wholeAt_of_rereads [] _ _ hreads
  · intro hwhole
    have hfile : utf8Bytes [] ++ chunks.flatten = utf8Bytes text := by simpa using h
    obtain ⟨completed, hlines, hreads⟩ := rereads_text hfile hwhole
    have hall : lines '\n' text = completed := by simpa [lines, splitInclusive] using hlines
    rw [hall]
    exact hreads

end rereads

/-! ### Two ways to reveal a file -/

/-- A line with a character of two bytes, and the beginning of another line. -/
def twoLines : Text := ['é', '\n', 'o']

/-- A line that is seen in two parts. -/
theorem rereads_twoLines :
    rereads [[0xc3, 0xa9], [0x0a, 0x6f]] [] 0 = some ((lines '\n' twoLines).map trimEnd) := by
  have hbytes : [[0xc3, 0xa9], [0x0a, 0x6f]].flatten = utf8Bytes twoLines := by decide
  refine (rereads_iff hbytes).mpr ?_
  intro before behind hsplit
  match before, hsplit with
  | [], _ => exact ⟨[], twoLines, rfl, rfl⟩
  | [_], hsplit =>
      cases hsplit
      exact ⟨['é'], ['\n', 'o'], rfl, by decide⟩
  | [_, _], hsplit =>
      cases hsplit
      exact ⟨twoLines, [], rfl, by decide⟩

/-- A character that is seen in two parts. -/
theorem rereads_halfCharacter :
    [[0xc3], [0xa9, 0x0a, 0x6f]].flatten = utf8Bytes twoLines ∧
      rereads [[0xc3], [0xa9, 0x0a, 0x6f]] [] 0 ≠ some ((lines '\n' twoLines).map trimEnd) := by
  have hbytes : [[0xc3], [0xa9, 0x0a, 0x6f]].flatten = utf8Bytes twoLines := by decide
  have hfails : rereads [[0xc3], [0xa9, 0x0a, 0x6f]] [] 0 = none := by decide +kernel
  refine ⟨hbytes, ?_⟩
  rw [hfails]
  exact (Option.some_ne_none _).symm

end Nhop.Cli.Bytes
