import Mathlib

/-!
The leftmost least element of a list.

`leftmost key` scans a list once, remembering the best candidate so far and
replacing it only by a strictly smaller key, so that ties go to the earlier
position. An element without a key is not a candidate. `IsLeftmost` says which
position that is; it determines the position, and a position that lost the
title to another one did so for a reason (`IsLeftmost.displaced`).
-/

namespace Nhop.Foundation

variable {α κ : Type*} {key : α → Option κ} {xs ys : List α} {i j : ℕ} {k l : κ}

/-- The element at position `i` is a candidate with key `k`. -/
def Candidate (key : α → Option κ) (xs : List α) (i : ℕ) (k : κ) : Prop :=
  ∃ x, xs[i]? = some x ∧ key x = some k

theorem Candidate.unique (h : Candidate key xs i k) (h' : Candidate key xs i l) : k = l := by
  obtain ⟨x, hx, hk⟩ := h
  obtain ⟨x', hx', hl⟩ := h'
  obtain rfl : x = x' := Option.some.inj (hx.symm.trans hx')
  exact Option.some.inj (hk.symm.trans hl)

theorem Candidate.lt_length (h : Candidate key xs i k) : i < xs.length := by
  obtain ⟨x, hx, _⟩ := h
  exact (List.getElem?_eq_some_iff.mp hx).1

theorem candidate_append_left (h : Candidate key xs i k) : Candidate key (xs ++ ys) i k := by
  obtain ⟨x, hx, hk⟩ := h
  exact ⟨x, by rw [List.getElem?_append_left (List.getElem?_eq_some_iff.mp hx).1, hx], hk⟩

/-- The candidates of a list with one more element at its end. -/
theorem candidate_snoc {x : α} :
    Candidate key (xs ++ [x]) i k ↔ Candidate key xs i k ∨ i = xs.length ∧ key x = some k := by
  constructor
  · rintro ⟨y, hy, hk⟩
    rcases lt_or_ge i xs.length with hi | hi
    · rw [List.getElem?_append_left hi] at hy
      exact Or.inl ⟨y, hy, hk⟩
    · rw [List.getElem?_append_right hi, List.getElem?_singleton] at hy
      split at hy
      · next hzero =>
          obtain rfl : x = y := Option.some.inj hy
          exact Or.inr ⟨by omega, hk⟩
      · cases hy
  · rintro (h | ⟨rfl, hk⟩)
    · exact candidate_append_left h
    · exact ⟨x, by simp, hk⟩

variable [LinearOrder κ]

/-- Position `i` holds the least key of the list, and is the first to hold it. -/
structure IsLeftmost (key : α → Option κ) (xs : List α) (i : ℕ) (k : κ) : Prop where
  candidate : Candidate key xs i k
  least : ∀ j l, Candidate key xs j l → k < l ∨ k = l ∧ i ≤ j

namespace IsLeftmost

theorem unique (h : IsLeftmost key xs i k) (h' : IsLeftmost key xs j l) : i = j := by
  rcases h.least j l h'.candidate with hlt | ⟨_, hij⟩
  · rcases h'.least i k h.candidate with hlt' | ⟨rfl, _⟩
    · exact absurd hlt (lt_asymm hlt')
    · exact absurd hlt (lt_irrefl _)
  · rcases h'.least i k h.candidate with hlt' | ⟨_, hji⟩
    · simp_all
    · exact le_antisymm hij hji

theorem displaced (h : IsLeftmost key xs j l) (hi : Candidate key xs i k) (hne : j ≠ i) :
    l < k ∨ l = k ∧ j < i := by
  rcases h.least i k hi with hlt | ⟨heq, hle⟩
  · exact Or.inl hlt
  · exact Or.inr ⟨heq, lt_of_le_of_ne hle hne⟩

end IsLeftmost

/-- What a scan that has seen `xs` remembers. -/
def Remembers (key : α → Option κ) (xs : List α) : Option (ℕ × κ) → Prop
  | none => ∀ i k, ¬Candidate key xs i k
  | some (i, k) => IsLeftmost key xs i k

/-- The better of the candidate remembered and the one at position `i`. -/
def better (best : Option (ℕ × κ)) (i : ℕ) (candidate : Option κ) : Option (ℕ × κ) :=
  match candidate, best with
  | none, best => best
  | some k, none => some (i, k)
  | some k, some (b, kb) => if k < kb then some (i, k) else some (b, kb)

/-- Scans on from position `i`, remembering `best`. -/
def leftmostFrom (key : α → Option κ) : List α → ℕ → Option (ℕ × κ) → Option (ℕ × κ)
  | [], _, best => best
  | x :: xs, i, best => leftmostFrom key xs (i + 1) (better best i (key x))

/-- The leftmost least candidate and its key. -/
def leftmost (key : α → Option κ) (xs : List α) : Option (ℕ × κ) := leftmostFrom key xs 0 none

/-- One step of the scan keeps what it remembers right. -/
theorem remembers_better {best : Option (ℕ × κ)} {x : α} (h : Remembers key xs best) :
    Remembers key (xs ++ [x]) (better best xs.length (key x)) := by
  cases hx : key x with
  | none =>
      have hsame : ∀ i k, Candidate key (xs ++ [x]) i k ↔ Candidate key xs i k := by
        simp [candidate_snoc, hx]
      cases best with
      | none =>
          intro i k hcandidate
          exact h i k ((hsame i k).mp hcandidate)
      | some b =>
          exact ⟨(hsame _ _).mpr h.candidate, fun j l hj => h.least j l ((hsame j l).mp hj)⟩
  | some k =>
      have hlast : Candidate key (xs ++ [x]) xs.length k := candidate_snoc.mpr (Or.inr ⟨rfl, hx⟩)
      cases best with
      | none =>
          refine ⟨hlast, fun j l hj => ?_⟩
          rcases candidate_snoc.mp hj with hj | ⟨rfl, hl⟩
          · exact absurd hj (h j l)
          · exact Or.inr ⟨Option.some.inj (hx.symm.trans hl), le_rfl⟩
      | some b =>
          obtain ⟨b, kb⟩ := b
          simp only [better]
          split
          · next hlt =>
              refine ⟨hlast, fun j l hj => ?_⟩
              rcases candidate_snoc.mp hj with hj | ⟨rfl, hl⟩
              · rcases h.least j l hj with hbl | ⟨rfl, _⟩
                · exact Or.inl (hlt.trans hbl)
                · exact Or.inl hlt
              · exact Or.inr ⟨Option.some.inj (hx.symm.trans hl), le_rfl⟩
          · next hge =>
              refine ⟨candidate_append_left h.candidate, fun j l hj => ?_⟩
              rcases candidate_snoc.mp hj with hj | ⟨rfl, hl⟩
              · exact h.least j l hj
              · obtain rfl : k = l := Option.some.inj (hx.symm.trans hl)
                rcases (not_lt.mp hge).lt_or_eq with hlt | heq
                · exact Or.inl hlt
                · exact Or.inr ⟨heq, h.candidate.lt_length.le⟩

theorem remembers_leftmostFrom {best : Option (ℕ × κ)} (h : Remembers key xs best) :
    Remembers key (xs ++ ys) (leftmostFrom key ys xs.length best) := by
  induction ys generalizing xs best with
  | nil => simpa [leftmostFrom] using h
  | cons y ys ih =>
      have hnext := ih (remembers_better (x := y) h)
      simpa [leftmostFrom] using hnext

theorem remembers_leftmost : Remembers key xs (leftmost key xs) := by
  have hnil : Remembers key ([] : List α) none := by
    rintro i k ⟨x, hx, _⟩
    simp at hx
  have hscan : Remembers key ([] ++ xs) (leftmostFrom key xs 0 none) := remembers_leftmostFrom hnil
  simpa [leftmost] using hscan

theorem leftmost_eq_some : leftmost key xs = some (i, k) ↔ IsLeftmost key xs i k := by
  have hscan : Remembers key xs (leftmost key xs) := remembers_leftmost
  cases hbest : leftmost key xs with
  | none =>
      rw [hbest] at hscan
      simp only [reduceCtorEq, false_iff]
      exact fun h => hscan i k h.candidate
  | some b =>
      obtain ⟨b, kb⟩ := b
      rw [hbest] at hscan
      constructor
      · rintro ⟨rfl, rfl⟩
        exact hscan
      · intro h
        have hpos : b = i := IsLeftmost.unique hscan h
        subst hpos
        rw [Candidate.unique hscan.candidate h.candidate]

theorem leftmost_eq_none : leftmost key xs = none ↔ ∀ i k, ¬Candidate key xs i k := by
  have hscan : Remembers key xs (leftmost key xs) := remembers_leftmost
  cases hbest : leftmost key xs with
  | none =>
      rw [hbest] at hscan
      exact iff_of_true rfl hscan
  | some b =>
      rw [hbest] at hscan
      simp only [reduceCtorEq, false_iff, not_forall, not_not]
      exact ⟨_, _, hscan.candidate⟩

/-- A scan that remembers a key nothing undercuts can stop. -/
theorem leftmostFrom_of_bot [OrderBot κ] {b : ℕ} :
    leftmostFrom key xs i (some (b, ⊥)) = some (b, ⊥) := by
  induction xs generalizing i with
  | nil => rfl
  | cons x xs ih =>
      have hkept : better (some (b, ⊥)) i (key x) = some (b, (⊥ : κ)) := by
        cases key x <;> simp [better]
      rw [leftmostFrom, hkept, ih]

end Nhop.Foundation
