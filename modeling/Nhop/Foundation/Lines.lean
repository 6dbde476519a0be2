import Mathlib

/-!
The complete lines of a text that is still being written.

A line is complete when its end is there, and the end belongs to it. What stands
behind the last end is no line yet. Reading up to the last end and reading on from
there later is the same as reading everything later (`lines_append`), which is what
makes an offset enough to remember.
-/

namespace Nhop.Foundation

variable {α : Type} [DecidableEq α] {nl c : α} {cs ds more : List α} {pieces : List (List α)}

/-- Splits behind every line end; the last piece may lack one. -/
def splitInclusive (nl : α) : List α → List (List α)
  | [] => []
  | c :: cs =>
      if c = nl then [c] :: splitInclusive nl cs
      else
        match splitInclusive nl cs with
        | [] => [[c]]
        | piece :: pieces => (c :: piece) :: pieces

/-- Whether a piece ends a line. -/
def ended (nl : α) (piece : List α) : Bool := piece.getLast? == some nl

/-- The complete lines, with their ends. -/
def lines (nl : α) (cs : List α) : List (List α) := (splitInclusive nl cs).takeWhile (ended nl)

/-- A text that stops where a line ends. -/
def Closed (nl : α) (cs : List α) : Prop := cs = [] ∨ cs.getLast? = some nl

theorem splitInclusive_ne_nil (h : cs ≠ []) : splitInclusive nl cs ≠ [] := by
  cases cs with
  | nil => exact absurd rfl h
  | cons c cs =>
      unfold splitInclusive
      split_ifs
      · simp
      · cases splitInclusive nl cs <;> simp

@[simp] theorem flatten_splitInclusive (nl : α) (cs : List α) :
    (splitInclusive nl cs).flatten = cs := by
  induction cs with
  | nil => rfl
  | cons c cs ih =>
      unfold splitInclusive
      split_ifs
      · rw [List.flatten_cons, ih]
        rfl
      · cases hpieces : splitInclusive nl cs with
        | nil =>
            rw [hpieces] at ih
            simpa using ih
        | cons piece pieces =>
            rw [hpieces] at ih
            simpa using ih

omit [DecidableEq α] in
theorem Closed.tail (h : Closed nl (c :: cs)) (hne : cs ≠ []) : Closed nl cs := by
  rcases h with hnil | hlast
  · cases hnil
  · right
    rwa [List.getLast?_cons_of_ne_nil hne] at hlast

omit [DecidableEq α] in
theorem Closed.append (h : Closed nl cs) (hmore : Closed nl ds) : Closed nl (cs ++ ds) := by
  rcases hmore with rfl | hlast
  · rwa [List.append_nil]
  · right
    rw [List.getLast?_append, hlast]
    rfl

/-- **A text that stops at a line end is split on its own.** The induction is on it. -/
theorem splitInclusive_append (h : Closed nl cs) :
    splitInclusive nl (cs ++ ds) = splitInclusive nl cs ++ splitInclusive nl ds := by
  induction cs with
  | nil => rfl
  | cons c cs ih =>
      rw [List.cons_append]
      by_cases hnil : cs = []
      · subst hnil
        obtain rfl : c = nl := by
          rcases h with hnil | hlast
          · cases hnil
          · exact Option.some.inj hlast
        simp [splitInclusive]
      · have hrest := ih (h.tail hnil)
        simp only [splitInclusive]
        rw [hrest]
        split_ifs
        · rfl
        · cases hpieces : splitInclusive nl cs with
          | nil => exact absurd hpieces (splitInclusive_ne_nil hnil)
          | cons piece pieces => rfl

theorem ended_of_mem_splitInclusive (h : Closed nl cs) :
    ∀ piece ∈ splitInclusive nl cs, ended nl piece = true := by
  induction cs with
  | nil => simp [splitInclusive]
  | cons c cs ih =>
      by_cases hnil : cs = []
      · subst hnil
        obtain rfl : c = nl := by
          rcases h with hnil | hlast
          · cases hnil
          · exact Option.some.inj hlast
        simp [splitInclusive, ended]
      · have hrest := ih (h.tail hnil)
        unfold splitInclusive
        split_ifs with hc
        · subst hc
          simpa [ended] using hrest
        · cases hpieces : splitInclusive nl cs with
          | nil => exact absurd hpieces (splitInclusive_ne_nil hnil)
          | cons piece pieces =>
              rw [hpieces] at hrest
              simp only [List.forall_mem_cons] at hrest ⊢
              refine ⟨?_, hrest.2⟩
              have hne : piece ≠ [] := by
                rintro rfl
                cases hrest.1
              unfold ended
              rw [List.getLast?_cons_of_ne_nil hne]
              exact hrest.1

/-- **Reading on.** Lines that were read up to a line end are followed by those of
what comes behind it. -/
theorem lines_append (h : Closed nl cs) : lines nl (cs ++ ds) = lines nl cs ++ lines nl ds := by
  have hall := ended_of_mem_splitInclusive h
  unfold lines
  rw [splitInclusive_append h, List.takeWhile_append_of_pos hall, List.takeWhile_eq_self_iff.mpr hall]

theorem closed_flatten (h : ∀ piece ∈ pieces, ended nl piece = true) :
    Closed nl pieces.flatten := by
  rcases List.eq_nil_or_concat pieces with rfl | ⟨before, last, rfl⟩
  · exact Or.inl rfl
  · have hlast : last.getLast? = some nl := by
      simpa [ended] using h last (by simp)
    right
    simp [List.getLast?_append, hlast]

theorem closed_lines (nl : α) (cs : List α) : Closed nl (lines nl cs).flatten :=
  closed_flatten fun _ hmem => List.mem_takeWhile_imp hmem

theorem flatten_lines_begins (nl : α) (cs : List α) : (lines nl cs).flatten <+: cs := by
  obtain ⟨rest, hrest⟩ := List.takeWhile_prefix (l := splitInclusive nl cs) (ended nl)
  refine ⟨rest.flatten, ?_⟩
  rw [lines, ← List.flatten_append, hrest, flatten_splitInclusive]

/-- The first pieces of a text are the pieces of the text they make up. -/
theorem splitInclusive_flatten_take (nl : α) (cs : List α) (count : ℕ) :
    splitInclusive nl ((splitInclusive nl cs).take count).flatten =
      (splitInclusive nl cs).take count := by
  induction cs generalizing count with
  | nil => simp [splitInclusive]
  | cons c cs ih =>
      cases count with
      | zero => rfl
      | succ count =>
          simp only [splitInclusive]
          split_ifs with hc
          · rw [List.take_succ_cons, List.flatten_cons, List.singleton_append]
            simp only [splitInclusive, hc, if_true]
            rw [ih count]
          · cases hpieces : splitInclusive nl cs with
            | nil => simp [splitInclusive, hc]
            | cons piece pieces =>
                have hfirst := ih (count + 1)
                rw [hpieces, List.take_succ_cons, List.flatten_cons] at hfirst
                show splitInclusive nl (c :: (piece ++ (pieces.take count).flatten)) =
                  (c :: piece) :: pieces.take count
                simp only [splitInclusive, hc, if_false, hfirst]

theorem lines_flatten_lines (nl : α) (cs : List α) :
    lines nl (lines nl cs).flatten = lines nl cs := by
  have htake : lines nl cs = (splitInclusive nl cs).take (lines nl cs).length :=
    List.prefix_iff_eq_take.mp (List.takeWhile_prefix _)
  have hsplit : splitInclusive nl (lines nl cs).flatten = lines nl cs := by
    rw [htake]
    exact splitInclusive_flatten_take nl cs _
  rw [lines, hsplit, List.takeWhile_eq_self_iff]
  exact fun _ hmem => List.mem_takeWhile_imp hmem

theorem lines_prefix_append (nl : α) (cs ds : List α) : lines nl cs <+: lines nl (cs ++ ds) := by
  obtain ⟨rest, hrest⟩ := flatten_lines_begins nl cs
  have happend : lines nl (cs ++ ds) = lines nl cs ++ lines nl (rest ++ ds) := by
    conv_lhs =>
      rw [← hrest, List.append_assoc, lines_append (closed_lines nl cs), lines_flatten_lines]
  rw [happend]
  exact List.prefix_append _ _

/-! ### The first line -/

/-- What a text begins with up to its first line end, which belongs to it. -/
def upTo (nl : α) : List α → List α
  | [] => []
  | c :: cs => if c = nl then [c] else c :: upTo nl cs

theorem upTo_cons (nl c : α) (cs : List α) :
    upTo nl (c :: cs) = if c = nl then [c] else c :: upTo nl cs := rfl

theorem upTo_begins (nl : α) (cs : List α) : upTo nl cs <+: cs := by
  induction cs with
  | nil => exact List.prefix_rfl
  | cons c cs ih =>
      unfold upTo
      split_ifs
      · exact ⟨cs, rfl⟩
      · exact List.cons_prefix_cons.mpr ⟨rfl, ih⟩

theorem upTo_ne_nil (h : cs ≠ []) : upTo nl cs ≠ [] := by
  cases cs with
  | nil => exact absurd rfl h
  | cons c cs =>
      unfold upTo
      split_ifs <;> simp

/-- A text that is cut short begins with as much of its first line as is left. -/
theorem upTo_take (nl : α) (cs : List α) (n : ℕ) :
    upTo nl (cs.take n) = (upTo nl cs).take n := by
  induction cs generalizing n with
  | nil => simp [upTo]
  | cons c cs ih =>
      cases n with
      | zero => simp [upTo]
      | succ n =>
          simp only [List.take_succ_cons, upTo]
          split_ifs
          · simp
          · rw [ih, List.take_succ_cons]

theorem upTo_append_of_notMem (h : nl ∉ cs) : upTo nl (cs ++ ds) = cs ++ upTo nl ds := by
  induction cs with
  | nil => rfl
  | cons c cs ih =>
      obtain ⟨hc, hcs⟩ := not_or.mp (List.mem_cons.not.mp h)
      rw [List.cons_append, upTo, if_neg (Ne.symm hc), ih hcs, List.cons_append]

/-- Its line end is at its end only. -/
theorem notMem_of_upTo (h : upTo nl cs = ds ++ more) (hmore : more ≠ []) : nl ∉ ds := by
  induction cs generalizing ds with
  | nil =>
      rw [upTo, eq_comm, List.append_eq_nil_iff] at h
      exact absurd h.2 hmore
  | cons c cs ih =>
      cases ds with
      | nil => exact List.not_mem_nil
      | cons d ds =>
          unfold upTo at h
          split_ifs at h with hc
          · have hrest := (List.cons.inj h).2
            exact absurd (List.append_eq_nil_iff.mp hrest.symm).2 hmore
          · obtain ⟨rfl, hrest⟩ := List.cons.inj h
            rw [List.mem_cons, not_or]
            exact ⟨Ne.symm hc, ih hrest⟩

/-- The first piece of a text, and those of what is behind it. -/
theorem splitInclusive_eq_upTo (h : cs ≠ []) :
    splitInclusive nl cs =
      upTo nl cs :: splitInclusive nl (cs.drop (upTo nl cs).length) := by
  induction cs with
  | nil => exact absurd rfl h
  | cons c cs ih =>
      by_cases hc : c = nl
      · simp [splitInclusive, upTo, hc]
      · by_cases hnil : cs = []
        · subst hnil
          simp [splitInclusive, upTo, hc]
        · simp only [splitInclusive, upTo, hc, if_false, ih hnil, List.length_cons,
            List.drop_succ_cons]

/-- Induction on the lines of a text. -/
theorem lines_induction {motive : List α → Prop} (nl : α) (nil : motive [])
    (cons : ∀ cs, cs ≠ [] → motive (cs.drop (upTo nl cs).length) → motive cs)
    (cs : List α) : motive cs := by
  induction hlength : cs.length using Nat.strong_induction_on generalizing cs with
  | _ n ih =>
      by_cases hnil : cs = []
      · rw [hnil]
        exact nil
      · have hfirst := List.length_pos_iff.mpr (@upTo_ne_nil _ _ nl _ hnil)
        have hsome := List.length_pos_iff.mpr hnil
        have hless : (cs.drop (upTo nl cs).length).length < n := by
          rw [List.length_drop]
          omega
        exact cons cs hnil (ih _ hless _ rfl)

/-! ### Reading from an offset -/

/-- An offset at which a line of the text ends, or its start. -/
structure LineEnd (nl : α) (cs : List α) (offset : ℕ) : Prop where
  inside : offset ≤ cs.length
  closed : Closed nl (cs.take offset)

namespace LineEnd

variable {offset : ℕ}

omit [DecidableEq α] in
theorem start (nl : α) (cs : List α) : LineEnd nl cs 0 := ⟨Nat.zero_le _, Or.inl rfl⟩

omit [DecidableEq α] in
theorem append (h : LineEnd nl cs offset) (ds : List α) : LineEnd nl (cs ++ ds) offset where
  inside := by
    rw [List.length_append]
    exact Nat.le_add_right_of_le h.inside
  closed := by
    rw [List.take_append_of_le_length h.inside]
    exact h.closed

theorem lines_eq (h : LineEnd nl cs offset) :
    lines nl cs = lines nl (cs.take offset) ++ lines nl (cs.drop offset) := by
  conv_lhs => rw [← List.take_append_drop offset cs, lines_append h.closed]

/-- Reading the complete lines behind it leads to the next one, behind all of them. -/
theorem next (h : LineEnd nl cs offset) :
    LineEnd nl cs (offset + (lines nl (cs.drop offset)).flatten.length) ∧
      lines nl (cs.take (offset + (lines nl (cs.drop offset)).flatten.length)) = lines nl cs := by
  let read := lines nl (cs.drop offset)
  have hread : (cs.drop offset).take read.flatten.length = read.flatten :=
    (List.prefix_iff_eq_take.mp (flatten_lines_begins nl (cs.drop offset))).symm
  have htake : cs.take (offset + read.flatten.length) = cs.take offset ++ read.flatten := by
    rw [List.take_add, hread]
  have hlines : lines nl (cs.take offset ++ read.flatten) = lines nl cs := by
    rw [lines_append h.closed, lines_flatten_lines, ← h.lines_eq]
  refine ⟨⟨?_, ?_⟩, htake ▸ hlines⟩
  · have hlength := (flatten_lines_begins nl (cs.drop offset)).length_le
    rw [List.length_drop] at hlength
    have hinside := h.inside
    omega
  · rw [htake]
    exact h.closed.append (closed_lines nl (cs.drop offset))

end LineEnd

end Nhop.Foundation
