import Mathlib

/-!
Splitting a list at a separator.

A separator is a list that is found whole. `splitOnce` splits at its first
occurrence and `pieces` at every one; what stands before a split never contains
the separator. The converse needs the separator not to begin inside what stands
before it, which is free for a separator of one element and, for one of two
different elements, follows from the same absence (`splitOnce_pair`). Lines that
are joined by such a separator are its pieces again (`pieces_joined`), and a
separator is found in an encoding of a list where it was written
(`Marks.splitOnce_eq`).
-/

namespace Nhop.Foundation

variable {α : Type*} [DecidableEq α]

/-- The list before and behind the first occurrence of `sep`. -/
def splitOnce (sep : List α) : List α → Option (List α × List α)
  | [] => if sep = [] then some ([], []) else none
  | c :: cs =>
      if sep.isPrefixOf (c :: cs) then some ([], (c :: cs).drop sep.length)
      else (splitOnce sep cs).map fun split => (c :: split.1, split.2)

/-- The list before and behind the last occurrence of one element. -/
def splitOnceLast (c : α) (cs : List α) : Option (List α × List α) :=
  (splitOnce [c] cs.reverse).map fun split => (split.2.reverse, split.1.reverse)

/-- At most `n + 1` pieces between the occurrences of `sep`. -/
def piecesWithin (sep : List α) : ℕ → List α → List (List α)
  | 0, cs => [cs]
  | n + 1, cs =>
      match splitOnce sep cs with
      | none => [cs]
      | some (before, behind) => before :: piecesWithin sep n behind

/-- The pieces between the occurrences of `sep`; a separator is not empty, so that
there are no more of them than elements. -/
def pieces (sep : List α) (cs : List α) : List (List α) := piecesWithin sep cs.length cs

section splitOnce

variable {sep cs before behind : List α} {c d : α}

/-- A split takes the list apart. -/
theorem append_of_splitOnce (h : splitOnce sep cs = some (before, behind)) :
    cs = before ++ sep ++ behind := by
  induction cs generalizing before behind with
  | nil =>
      unfold splitOnce at h
      split_ifs at h with hsep
      cases h
      simp [hsep]
  | cons c cs ih =>
      unfold splitOnce at h
      split_ifs at h with hbegins
      · cases h
        obtain ⟨behind, hbehind⟩ := List.isPrefixOf_iff_prefix.mp hbegins
        rw [← hbehind]
        simp
      · obtain ⟨split, hsplit, heq⟩ := Option.map_eq_some_iff.mp h
        cases heq
        rw [ih hsplit]
        simp

/-- The separator does not occur before the split. -/
theorem notInfix_of_splitOnce (hsep : sep ≠ []) (h : splitOnce sep cs = some (before, behind)) :
    ¬sep <:+: before := by
  induction cs generalizing before behind with
  | nil =>
      unfold splitOnce at h
      simp [hsep] at h
  | cons c cs ih =>
      have hcs := append_of_splitOnce h
      unfold splitOnce at h
      split_ifs at h with hbegins
      · cases h
        simpa using hsep
      · obtain ⟨split, hsplit, heq⟩ := Option.map_eq_some_iff.mp h
        cases heq
        rw [List.infix_cons_iff]
        rintro (hfirst | hlater)
        · apply hbegins
          rw [List.isPrefixOf_iff_prefix, hcs, List.append_assoc]
          exact hfirst.trans (List.prefix_append _ _)
        · exact ih hsplit hlater

theorem splitOnce_append (hsep : sep ≠ [])
    (h : ∀ i < before.length, ¬sep <+: (before ++ sep ++ behind).drop i) :
    splitOnce sep (before ++ sep ++ behind) = some (before, behind) := by
  induction before with
  | nil =>
      obtain ⟨s, ss, rfl⟩ := List.exists_cons_of_ne_nil hsep
      have hbegins : (s :: ss).isPrefixOf (s :: (ss ++ behind)) = true := by
        rw [List.isPrefixOf_iff_prefix, ← List.cons_append]
        exact List.prefix_append _ _
      simp [splitOnce, hbegins]
  | cons c cs ih =>
      have hfirst : ¬sep.isPrefixOf (c :: (cs ++ sep ++ behind)) = true := by
        rw [List.isPrefixOf_iff_prefix]
        exact h 0 (by simp)
      have hrest := ih fun i hi => by simpa using h (i + 1) (by simpa using hi)
      simp only [List.cons_append, splitOnce, hfirst, hrest]
      rfl

theorem splitOnce_singleton (h : c ∉ before) :
    splitOnce [c] (before ++ c :: behind) = some (before, behind) := by
  have hsplit : splitOnce [c] (before ++ [c] ++ behind) = some (before, behind) := by
    apply splitOnce_append (by simp)
    intro i hi hbegins
    rw [List.append_assoc, List.drop_append_of_le_length hi.le, List.drop_eq_getElem_cons hi] at hbegins
    obtain ⟨tail, htail⟩ := hbegins
    obtain ⟨rfl, _⟩ := List.cons.inj htail
    exact h (List.getElem_mem hi)
  simpa using hsplit

/-- Splitting at two different elements in a row that do not stand before. -/
theorem splitOnce_pair (hne : c ≠ d) (h : ¬[c, d] <:+: before) :
    splitOnce [c, d] (before ++ [c, d] ++ behind) = some (before, behind) := by
  apply splitOnce_append (by simp)
  intro i hi hbegins
  rw [List.append_assoc, List.drop_append_of_le_length hi.le, List.drop_eq_getElem_cons hi] at hbegins
  obtain ⟨tail, htail⟩ := hbegins
  obtain ⟨hc, htail⟩ := List.cons.inj htail
  rcases hlater : before.drop (i + 1) with _ | ⟨e, rest⟩
  · -- the occurrence would overlap the separator itself
    rw [hlater] at htail
    obtain ⟨hd, _⟩ := List.cons.inj htail
    exact hne hd.symm
  · rw [hlater] at htail
    obtain ⟨rfl, _⟩ := List.cons.inj htail
    apply h
    refine ⟨before.take i, rest, ?_⟩
    rw [List.append_assoc, hc]
    show before.take i ++ before[i] :: (d :: rest) = before
    rw [← hlater, ← List.drop_eq_getElem_cons hi, List.take_append_drop]

theorem splitOnce_eq_none (h : splitOnce sep cs = none) (hsep : sep ≠ []) : ¬sep <:+: cs := by
  induction cs with
  | nil => simpa using hsep
  | cons c cs ih =>
      unfold splitOnce at h
      split_ifs at h with hbegins
      rw [List.infix_cons_iff]
      rintro (hfirst | hlater)
      · exact hbegins (List.isPrefixOf_iff_prefix.mpr hfirst)
      · exact ih (by simpa using h) hlater

/-- A split does not look at what stands behind it. -/
theorem splitOnce_append_right {more : List α} (hsep : sep ≠ [])
    (h : splitOnce sep cs = some (before, behind)) :
    splitOnce sep (cs ++ more) = some (before, behind ++ more) := by
  have hcs := append_of_splitOnce h
  induction cs generalizing before behind with
  | nil =>
      rw [splitOnce, if_neg hsep] at h
      cases h
  | cons c cs ih =>
      unfold splitOnce at h
      split_ifs at h with hbegins
      · cases h
        have hlonger : sep.isPrefixOf (c :: (cs ++ more)) = true := by
          rw [List.isPrefixOf_iff_prefix, ← List.cons_append]
          exact (List.isPrefixOf_iff_prefix.mp hbegins).trans (List.prefix_append _ _)
        have hlength := (List.isPrefixOf_iff_prefix.mp hbegins).length_le
        rw [List.cons_append, splitOnce, if_pos hlonger, ← List.cons_append,
          List.drop_append_of_le_length hlength]
      · obtain ⟨split, hsplit, heq⟩ := Option.map_eq_some_iff.mp h
        cases heq
        have hrest := ih hsplit (append_of_splitOnce hsplit)
        -- an occurrence at the head would lie within the part that has none
        have hshorter : ¬sep.isPrefixOf (c :: (cs ++ more)) = true := by
          intro hlonger
          apply hbegins
          rw [List.isPrefixOf_iff_prefix] at hlonger ⊢
          refine List.prefix_of_prefix_length_le hlonger (List.prefix_append (c :: cs) more) ?_
          rw [hcs]
          simp only [List.length_append, List.length_cons]
          omega
        rw [List.cons_append, splitOnce, if_neg hshorter, hrest]
        rfl

/-- A split of a list is a split of each of its beginnings that holds it. -/
theorem splitOnce_of_append {more : List α} (hsep : sep ≠ [])
    (h : splitOnce sep (cs ++ more) = some (before, behind))
    (hlength : before.length + sep.length ≤ cs.length) :
    ∃ rest, splitOnce sep cs = some (before, rest) := by
  cases hsplit : splitOnce sep cs with
  | some split =>
      obtain ⟨before', rest⟩ := split
      have hagain : splitOnce sep (cs ++ more) = some (before', rest ++ more) :=
        splitOnce_append_right hsep hsplit
      rw [h] at hagain
      cases hagain
      exact ⟨rest, rfl⟩
  | none =>
      have hwhole := append_of_splitOnce h
      have hheld : before ++ sep <+: cs := by
        refine List.prefix_of_prefix_length_le ?_ (List.prefix_append cs more) (by simpa using hlength)
        rw [hwhole]
        exact List.prefix_append _ _
      exact absurd ((List.suffix_append before sep).isInfix.trans hheld.isInfix)
        (splitOnce_eq_none hsplit hsep)

theorem splitOnce_singleton_eq_none : splitOnce [c] cs = none ↔ c ∉ cs := by
  constructor
  · intro h hmem
    exact splitOnce_eq_none h (by simp) ((List.singleton_infix_iff c _).mpr hmem)
  · intro h
    cases hsplit : splitOnce [c] cs with
    | none => rfl
    | some split =>
        have happend := append_of_splitOnce hsplit
        rw [happend] at h
        simp at h

omit [DecidableEq α] in
/-- Two elements in a row that stand on neither side of a third stand nowhere. -/
theorem notInfix_pair_append {e : α} (hc : e ≠ c) (hd : e ≠ d) (hbefore : ¬[c, d] <:+: before)
    (hbehind : ¬[c, d] <:+: behind) : ¬[c, d] <:+: before ++ e :: behind := by
  induction before with
  | nil =>
      rw [List.nil_append, List.infix_cons_iff]
      rintro (hbegins | hlater)
      · obtain ⟨tail, htail⟩ := hbegins
        exact hc (List.cons.inj htail).1.symm
      · exact hbehind hlater
  | cons b bs ih =>
      rw [List.infix_cons_iff] at hbefore
      obtain ⟨hfirst, hrest⟩ := not_or.mp hbefore
      rw [List.cons_append, List.infix_cons_iff]
      rintro (hbegins | hlater)
      · apply hfirst
        cases bs with
        | nil =>
            obtain ⟨tail, htail⟩ := hbegins
            exact absurd (List.cons.inj (List.cons.inj htail).2).1.symm hd
        | cons b' bs =>
            obtain ⟨tail, htail⟩ := hbegins
            obtain ⟨rfl, hbehind'⟩ := List.cons.inj htail
            obtain ⟨rfl, _⟩ := List.cons.inj hbehind'
            exact ⟨bs, rfl⟩
      · exact ih hrest hlater

end splitOnce

section last

variable {cs before behind : List α} {c : α}

theorem splitOnceLast_append (h : c ∉ behind) :
    splitOnceLast c (before ++ c :: behind) = some (before, behind) := by
  have hreverse : (before ++ c :: behind).reverse = behind.reverse ++ c :: before.reverse := by simp
  rw [splitOnceLast, hreverse, splitOnce_singleton (by simpa using h)]
  simp

theorem append_of_splitOnceLast (h : splitOnceLast c cs = some (before, behind)) :
    cs = before ++ c :: behind := by
  obtain ⟨split, hsplit, heq⟩ := Option.map_eq_some_iff.mp h
  cases heq
  have happend := append_of_splitOnce hsplit
  rw [← List.reverse_reverse cs, happend]
  simp

theorem splitOnceLast_eq_none : splitOnceLast c cs = none ↔ c ∉ cs := by
  rw [splitOnceLast, Option.map_eq_none_iff, splitOnce_singleton_eq_none, List.mem_reverse]

end last

section pieces

variable {sep cs before behind : List α} {c : α}

theorem piecesWithin_of_le (hsep : sep ≠ []) {n m : ℕ} (hn : cs.length ≤ n) (hm : cs.length ≤ m) :
    piecesWithin sep n cs = piecesWithin sep m cs := by
  induction n generalizing cs m with
  | zero =>
      obtain rfl : cs = [] := List.length_eq_zero_iff.mp (by omega)
      cases m with
      | zero => rfl
      | succ m => simp [piecesWithin, splitOnce, hsep]
  | succ n ih =>
      cases m with
      | zero =>
          obtain rfl : cs = [] := List.length_eq_zero_iff.mp (by omega)
          simp [piecesWithin, splitOnce, hsep]
      | succ m =>
          unfold piecesWithin
          cases hsplit : splitOnce sep cs with
          | none => rfl
          | some split =>
              have hlength := congrArg List.length (append_of_splitOnce hsplit)
              have hpos : 0 < sep.length := List.length_pos_of_ne_nil hsep
              simp only [List.length_append] at hlength
              simp only
              have hbehind : split.2.length ≤ n := by omega
              have hbehind' : split.2.length ≤ m := by omega
              rw [ih hbehind hbehind']

theorem pieces_of_splitOnce (hsep : sep ≠ []) (h : splitOnce sep cs = some (before, behind)) :
    pieces sep cs = before :: pieces sep behind := by
  have hlength := congrArg List.length (append_of_splitOnce h)
  have hpos : 0 < sep.length := List.length_pos_of_ne_nil hsep
  simp only [List.length_append] at hlength
  obtain ⟨n, hn⟩ : ∃ n, cs.length = n + 1 := ⟨cs.length - 1, by omega⟩
  rw [pieces, hn, piecesWithin, h, pieces]
  simp only
  rw [piecesWithin_of_le hsep (by omega) (Nat.le_refl behind.length)]

theorem pieces_of_notMem (h : c ∉ cs) : pieces [c] cs = [cs] := by
  have hnone : splitOnce [c] cs = none := splitOnce_singleton_eq_none.mpr h
  unfold pieces
  cases cs with
  | nil => rfl
  | cons c' cs => simp only [List.length_cons, piecesWithin, hnone]

theorem piecesWithin_notInfix (hsep : sep ≠ []) {n : ℕ} (hn : cs.length ≤ n) :
    ∀ piece ∈ piecesWithin sep n cs, ¬sep <:+: piece := by
  induction n generalizing cs with
  | zero =>
      obtain rfl : cs = [] := List.length_eq_zero_iff.mp (by omega)
      intro piece hmem
      obtain rfl : piece = [] := by simpa [piecesWithin] using hmem
      simpa using hsep
  | succ n ih =>
      intro piece hmem
      unfold piecesWithin at hmem
      cases hsplit : splitOnce sep cs with
      | none =>
          rw [hsplit] at hmem
          obtain rfl : piece = cs := by simpa using hmem
          exact splitOnce_eq_none hsplit hsep
      | some split =>
          have hlength := congrArg List.length (append_of_splitOnce hsplit)
          have hpos : 0 < sep.length := List.length_pos_of_ne_nil hsep
          simp only [List.length_append] at hlength
          rw [hsplit] at hmem
          rcases List.mem_cons.mp hmem with rfl | hmem
          · exact notInfix_of_splitOnce hsep hsplit
          · exact ih (by omega) piece hmem

/-- A piece is found in the list. -/
theorem piecesWithin_infix {n : ℕ} : ∀ piece ∈ piecesWithin sep n cs, piece <:+: cs := by
  induction n generalizing cs with
  | zero =>
      intro piece hmem
      obtain rfl : piece = cs := by simpa [piecesWithin] using hmem
      exact List.infix_refl _
  | succ n ih =>
      intro piece hmem
      unfold piecesWithin at hmem
      cases hsplit : splitOnce sep cs with
      | none =>
          rw [hsplit] at hmem
          obtain rfl : piece = cs := by simpa using hmem
          exact List.infix_refl _
      | some split =>
          rw [hsplit] at hmem
          rw [append_of_splitOnce hsplit]
          rcases List.mem_cons.mp hmem with rfl | hmem
          · exact ⟨[], sep ++ split.2, by simp⟩
          · exact (ih piece hmem).trans (List.suffix_append _ _).isInfix

theorem infix_of_mem_pieces {piece : List α} (h : piece ∈ pieces sep cs) : piece <:+: cs :=
  piecesWithin_infix piece h

theorem pieces_notInfix (hsep : sep ≠ []) : ∀ piece ∈ pieces sep cs, ¬sep <:+: piece :=
  piecesWithin_notInfix hsep (Nat.le_refl _)

theorem notMem_of_mem_pieces {piece : List α} (h : piece ∈ pieces [c] cs) : c ∉ piece := by
  intro hmem
  exact pieces_notInfix (by simp) piece h ((List.singleton_infix_iff c _).mpr hmem)

/-! ### Pieces between single elements -/

theorem pieces_append_of_notMem (h : c ∉ before) :
    pieces [c] (before ++ c :: behind) = before :: pieces [c] behind :=
  pieces_of_splitOnce (by simp) (splitOnce_singleton h)

theorem separated_induction {motive : List α → Prop} (c : α)
    (whole : ∀ cs, c ∉ cs → motive cs)
    (split : ∀ before behind, c ∉ before → motive behind → motive (before ++ c :: behind))
    (cs : List α) : motive cs := by
  induction hlength : cs.length using Nat.strong_induction_on generalizing cs with
  | _ n ih =>
      cases hsplit : splitOnce [c] cs with
      | none => exact whole cs (splitOnce_singleton_eq_none.mp hsplit)
      | some pair =>
          have happend := append_of_splitOnce hsplit
          have hnone : c ∉ pair.1 := fun hmem =>
            notInfix_of_splitOnce (by simp) hsplit ((List.singleton_infix_iff c _).mpr hmem)
          rw [happend, List.append_assoc, List.singleton_append]
          apply split _ _ hnone
          refine ih _ ?_ _ rfl
          rw [← hlength, happend]
          simp only [List.length_append, List.length_singleton]
          omega

theorem pieces_ne_nil : pieces [c] cs ≠ [] := by
  induction cs using separated_induction c with
  | whole cs h => simp [pieces_of_notMem h]
  | split before behind h _ => simp [pieces_append_of_notMem h]

theorem pieces_append : pieces [c] (before ++ c :: behind) =
    pieces [c] before ++ pieces [c] behind := by
  induction before using separated_induction c with
  | whole before h => rw [pieces_append_of_notMem h, pieces_of_notMem h, List.singleton_append]
  | split first rest h ih =>
      rw [List.append_assoc, List.cons_append, pieces_append_of_notMem h,
        pieces_append_of_notMem h, ih, List.cons_append]

/-- A list is known by its pieces. -/
theorem pieces_injective {cs' : List α} (h : pieces [c] cs = pieces [c] cs') : cs = cs' := by
  induction cs using separated_induction c generalizing cs' with
  | whole cs hcs =>
      rw [pieces_of_notMem hcs] at h
      induction cs' using separated_induction c with
      | whole cs' hcs' =>
          rw [pieces_of_notMem hcs'] at h
          simpa using h
      | split before behind hbefore _ =>
          rw [pieces_append_of_notMem hbefore] at h
          exact absurd (List.cons.inj h).2.symm pieces_ne_nil
  | split before behind hbefore ih =>
      rw [pieces_append_of_notMem hbefore] at h
      induction cs' using separated_induction c with
      | whole cs' hcs' =>
          rw [pieces_of_notMem hcs'] at h
          exact absurd (List.cons.inj h).2 pieces_ne_nil
      | split before' behind' hbefore' _ =>
          rw [pieces_append_of_notMem hbefore'] at h
          obtain ⟨rfl, hrest⟩ := List.cons.inj h
          rw [ih hrest]

/-- **Pieces end in pieces** exactly when the lists end so at a separator. -/
theorem pieces_suffix_iff {cs' : List α} :
    pieces [c] cs' <:+ pieces [c] cs ↔ cs = cs' ∨ c :: cs' <:+ cs := by
  constructor
  · intro h
    induction cs using separated_induction c with
    | whole cs hcs =>
        rw [pieces_of_notMem hcs, List.suffix_cons_iff, List.suffix_nil] at h
        rcases h with h | h
        · rw [← pieces_of_notMem hcs] at h
          exact Or.inl (pieces_injective h).symm
        · exact absurd h pieces_ne_nil
    | split before behind hbefore ih =>
        rw [pieces_append_of_notMem hbefore, List.suffix_cons_iff] at h
        rcases h with h | h
        · rw [← pieces_append_of_notMem hbefore] at h
          exact Or.inl (pieces_injective h).symm
        · right
          rcases ih h with rfl | hlater
          · exact List.suffix_append _ _
          · exact hlater.trans ((List.suffix_cons _ _).trans (List.suffix_append _ _))
  · rintro (rfl | ⟨before, rfl⟩)
    · exact List.suffix_refl _
    · rw [pieces_append]
      exact List.suffix_append _ _

end pieces

/-! ### Pairs of separators -/

section double

variable {before behind : List α} {c d : α} {lines : List (List α)}

omit [DecidableEq α] in
theorem not_pair_prefix (hne : c ≠ d) (h : ¬[c, d] <:+: before) (hbefore : before ≠ []) :
    ¬[c, d] <+: before ++ c :: behind := by
  rintro ⟨rest, hrest⟩
  cases before with
  | nil => exact hbefore rfl
  | cons b bs =>
      obtain ⟨rfl, hbs⟩ := List.cons.inj hrest
      cases bs with
      | nil => exact hne (List.cons.inj hbs).1.symm
      | cons b' bs =>
          obtain ⟨rfl, _⟩ := List.cons.inj hbs
          exact h ⟨[], bs, rfl⟩

/-- The first separator is followed by another one, or a pair of them comes later. -/
theorem splitOnce_double_append (hne : c ≠ d) (h : ¬[c, d] <:+: before) :
    splitOnce [c, d, c, d] (before ++ c :: d :: behind) =
      if [c, d] <+: behind then some (before, behind.drop 2)
      else (splitOnce [c, d, c, d] behind).map
        fun split => (before ++ c :: d :: split.1, split.2) := by
  induction before with
  | nil =>
      have hpair : [c, d, c, d].isPrefixOf (c :: d :: behind) = true ↔ [c, d] <+: behind := by
        rw [List.isPrefixOf_iff_prefix]
        simp [List.cons_prefix_cons]
      have hlater : ¬[c, d, c, d].isPrefixOf (d :: behind) = true := by
        simp [List.isPrefixOf, hne]
      rw [List.nil_append, splitOnce]
      split_ifs with hfirst hbehind hbehind
      · rfl
      · exact absurd (hpair.mp hfirst) hbehind
      · exact absurd (hpair.mpr hbehind) hfirst
      · rw [splitOnce, if_neg hlater, Option.map_map]
        rfl
  | cons b bs ih =>
      rw [List.infix_cons_iff, not_or] at h
      have hfirst : ¬[c, d, c, d].isPrefixOf (b :: bs ++ c :: d :: behind) = true := by
        rw [List.isPrefixOf_iff_prefix]
        intro hbegins
        have hpair : [c, d] <+: [c, d, c, d] := ⟨[c, d], rfl⟩
        refine not_pair_prefix hne ?_ (List.cons_ne_nil b bs) (hpair.trans hbegins)
        rw [List.infix_cons_iff, not_or]
        exact h
      rw [List.cons_append, splitOnce, ← List.cons_append, if_neg hfirst, ih h.2]
      split_ifs
      · rfl
      · rw [Option.map_map]
        rfl

/-- Every line with the separator behind it. -/
def joined (sep : List α) (lines : List (List α)) : List α := lines.flatMap (· ++ sep)

omit [DecidableEq α] in
@[simp] theorem joined_nil (sep : List α) : joined sep [] = [] := rfl

omit [DecidableEq α] in
@[simp] theorem joined_cons (sep line : List α) (lines : List (List α)) :
    joined sep (line :: lines) = line ++ sep ++ joined sep lines := List.flatMap_cons

omit [DecidableEq α] in
@[simp] theorem joined_append (sep : List α) (lines more : List (List α)) :
    joined sep (lines ++ more) = joined sep lines ++ joined sep more := List.flatMap_append

/-- **Lines that are joined are the pieces.** -/
theorem pieces_joined (hne : c ≠ d) (h : ∀ line ∈ lines, ¬[c, d] <:+: line) :
    pieces [c, d] (joined [c, d] lines ++ behind) = lines ++ pieces [c, d] behind := by
  induction lines with
  | nil => rfl
  | cons line lines ih =>
      have hline := h line (List.mem_cons_self ..)
      have hsplit : splitOnce [c, d] (line ++ [c, d] ++ (joined [c, d] lines ++ behind)) =
          some (line, joined [c, d] lines ++ behind) := splitOnce_pair hne hline
      rw [joined_cons, List.append_assoc, pieces_of_splitOnce (by simp) hsplit,
        ih fun line hmem => h line (List.mem_cons_of_mem _ hmem), List.cons_append]

/-- **The first pair of separators** in a text of lines is at its end, where no line is
empty. -/
theorem splitOnce_joined (hne : c ≠ d) (hlines : lines ≠ [])
    (h : ∀ line ∈ lines, ¬[c, d] <:+: line ∧ line ≠ []) :
    ∃ before, splitOnce [c, d, c, d] (joined [c, d] lines ++ [c, d]) = some (before, []) := by
  induction lines with
  | nil => exact absurd rfl hlines
  | cons line lines ih =>
      have hline := (h line (List.mem_cons_self ..)).1
      have hlater : ∀ line ∈ lines, ¬[c, d] <:+: line ∧ line ≠ [] := fun line hmem =>
        h line (List.mem_cons_of_mem _ hmem)
      have hcut : joined [c, d] (line :: lines) ++ [c, d] =
          line ++ c :: d :: (joined [c, d] lines ++ [c, d]) := by simp
      rw [hcut, splitOnce_double_append hne hline]
      cases lines with
      | nil =>
          rw [if_pos (by simp)]
          exact ⟨line, rfl⟩
      | cons next lines =>
          obtain ⟨hnext, hsome⟩ := hlater next (List.mem_cons_self ..)
          have hno : ¬[c, d] <+: joined [c, d] (next :: lines) ++ [c, d] := by
            have hcut : joined [c, d] (next :: lines) ++ [c, d] =
                next ++ c :: (d :: (joined [c, d] lines ++ [c, d])) := by simp
            rw [hcut]
            exact not_pair_prefix hne hnext hsome
          obtain ⟨before, hbefore⟩ := ih (List.cons_ne_nil _ _) hlater
          rw [if_neg hno, hbefore]
          exact ⟨_, rfl⟩

end double

/-! ### Encodings

Elements written as lists, some of them as one that no other element's list
contains: a separator of such elements is found where it was written. -/

section encoding

variable {β : Type*} [DecidableEq β] {enc : α → List β} {mark : α → β} {marked : α → Prop}
  {sep cs : List α}

theorem splitOnce_append_of_ne {s : α} {ss before behind : List α} (h : ∀ c ∈ before, c ≠ s) :
    splitOnce (s :: ss) (before ++ behind) =
      (splitOnce (s :: ss) behind).map fun split => (before ++ split.1, split.2) := by
  induction before with
  | nil => simp
  | cons b bs ih =>
      have hfirst : ¬(s :: ss).isPrefixOf (b :: bs ++ behind) = true := by
        rw [List.isPrefixOf_iff_prefix]
        rintro ⟨rest, hrest⟩
        exact h b (List.mem_cons_self ..) (List.cons.inj hrest).1.symm
      rw [List.cons_append, splitOnce, ← List.cons_append, if_neg hfirst,
        ih fun c hmem => h c (List.mem_cons_of_mem _ hmem), Option.map_map]
      rfl

/-- An encoding that writes every marked element as one that stands for it alone. -/
structure Marks (enc : α → List β) (mark : α → β) (marked : α → Prop) : Prop where
  writes : ∀ a, marked a → enc a = [mark a]
  injective : ∀ a b, marked a → marked b → mark a = mark b → a = b
  apart : ∀ a b, marked a → ¬marked b → mark a ∉ enc b

omit [DecidableEq α] [DecidableEq β] in
theorem Marks.flatMap_eq (h : Marks enc mark marked) (hsep : ∀ s ∈ sep, marked s) :
    sep.flatMap enc = sep.map mark := by
  induction sep with
  | nil => rfl
  | cons s ss ih =>
      rw [List.flatMap_cons, h.writes s (hsep s (List.mem_cons_self ..)),
        ih fun s hmem => hsep s (List.mem_cons_of_mem _ hmem)]
      rfl

omit [DecidableEq α] [DecidableEq β] in
theorem Marks.prefix_iff (h : Marks enc mark marked) (hsome : ∀ a, enc a ≠ [])
    (hsep : ∀ s ∈ sep, marked s) : sep.map mark <+: cs.flatMap enc ↔ sep <+: cs := by
  induction sep generalizing cs with
  | nil => simp
  | cons s ss ih =>
      have hs := hsep s (List.mem_cons_self ..)
      have hss : ∀ s ∈ ss, marked s := fun s hmem => hsep s (List.mem_cons_of_mem _ hmem)
      cases cs with
      | nil => simp
      | cons c cs =>
          by_cases hc : marked c
          · rw [List.flatMap_cons, h.writes c hc, List.map_cons, List.singleton_append,
              List.cons_prefix_cons, List.cons_prefix_cons, ih hss]
            exact and_congr_left' ⟨h.injective s c hs hc, congrArg mark⟩
          · refine iff_of_false ?_ ?_
            · obtain ⟨e, es, hes⟩ := List.exists_cons_of_ne_nil (hsome c)
              rw [List.flatMap_cons, hes, List.map_cons, List.cons_append, List.cons_prefix_cons]
              rintro ⟨hfirst, _⟩
              apply h.apart s c hs hc
              rw [hes, hfirst]
              exact List.mem_cons_self ..
            · rw [List.cons_prefix_cons]
              rintro ⟨rfl, _⟩
              exact hc hs

/-- **A separator of marked elements** is found where it was written. -/
theorem Marks.splitOnce_eq (h : Marks enc mark marked) (hsome : ∀ a, enc a ≠ [])
    (hsep : ∀ s ∈ sep, marked s) (hne : sep ≠ []) :
    splitOnce (sep.map mark) (cs.flatMap enc) =
      (splitOnce sep cs).map fun split => (split.1.flatMap enc, split.2.flatMap enc) := by
  obtain ⟨s, ss, rfl⟩ := List.exists_cons_of_ne_nil hne
  induction cs with
  | nil => simp [splitOnce]
  | cons c cs ih =>
      have hbegins : ((s :: ss).map mark).isPrefixOf ((c :: cs).flatMap enc) =
          (s :: ss).isPrefixOf (c :: cs) := by
        rw [Bool.eq_iff_iff, List.isPrefixOf_iff_prefix, List.isPrefixOf_iff_prefix]
        exact h.prefix_iff hsome hsep
      by_cases hc : marked c
      · have henc : (c :: cs).flatMap enc = mark c :: cs.flatMap enc := by
          rw [List.flatMap_cons, h.writes c hc, List.singleton_append]
        rw [henc] at hbegins ⊢
        rw [splitOnce, splitOnce, hbegins]
        split_ifs with hfound
        · obtain ⟨rest, hrest⟩ := List.isPrefixOf_iff_prefix.mp hfound
          have hflat : mark c :: cs.flatMap enc = (s :: ss).map mark ++ rest.flatMap enc := by
            rw [← henc, ← hrest, List.flatMap_append, h.flatMap_eq hsep]
          rw [hflat, ← hrest]
          simp
        · rw [ih, Option.map_map, Option.map_map]
          congr 1
          funext split
          simp [h.writes c hc]
      · have hfirst : ∀ e ∈ enc c, e ≠ mark s := by
          rintro e hmem rfl
          exact h.apart s c (hsep s (List.mem_cons_self ..)) hc hmem
        have hnot : ¬(s :: ss).isPrefixOf (c :: cs) = true := by
          rw [List.isPrefixOf_iff_prefix, List.cons_prefix_cons]
          rintro ⟨rfl, _⟩
          exact hc (hsep _ (List.mem_cons_self ..))
        have hlater := ih
        rw [List.map_cons] at hlater ⊢
        rw [List.flatMap_cons, splitOnce_append_of_ne hfirst, hlater, splitOnce, if_neg hnot,
          Option.map_map, Option.map_map]
        rfl

end encoding

/-! ### Where an element stands

An element of an appended list that one of the parts does not have stands in the
other one. -/

section stands

variable {β : Type*} {before behind left right : List β} {x : β}

theorem split_behind (h : x ∉ before) (hsplit : before ++ behind = left ++ x :: right) :
    ∃ between, left = before ++ between ∧ behind = between ++ x :: right := by
  rcases List.append_eq_append_iff.mp hsplit with
    ⟨between, hleft, hbehind⟩ | ⟨between, hbefore, hright⟩
  · exact ⟨between, hleft, hbehind⟩
  · cases between with
    | nil => exact ⟨[], by simpa using hbefore.symm, by simpa using hright.symm⟩
    | cons y between =>
        obtain ⟨rfl, _⟩ := List.cons.inj hright
        exact absurd (by rw [hbefore]; simp) h

theorem split_before (h : x ∉ behind) (hsplit : before ++ behind = left ++ x :: right) :
    ∃ between, before = left ++ x :: between := by
  rcases List.append_eq_append_iff.mp hsplit with ⟨between, _, hbehind⟩ | ⟨between, hbefore, hright⟩
  · exact absurd (by rw [hbehind]; simp) h
  · cases between with
    | nil => exact absurd (by rw [show behind = x :: right by simpa using hright.symm]; simp) h
    | cons y between =>
        obtain ⟨rfl, _⟩ := List.cons.inj hright
        exact ⟨between, hbefore⟩

end stands

end Nhop.Foundation
