import Mathlib

/-!
Lists rearranged so that what is held already comes first.

Something that keeps the elements it holds and appends those it lacks turns a
wanted list into `heldFirst held wanted`: the same elements, those held before the
others and in the order held. The wanted list is left as it is exactly when it is
in that order itself, which is a statement about any two of its elements.
-/

namespace Nhop.Foundation

variable {α : Type*} [DecidableEq α] {held wanted : List α} {a : α}

/-- The wanted elements, those held first, in the order held. -/
def heldFirst (held wanted : List α) : List α :=
  (held.filter fun a => a ∈ wanted) ++ wanted.filter fun a => a ∉ held

/-- No held element is wanted behind one that is not held, or that is held behind
it. -/
def KeepsOrder (held wanted : List α) : Prop :=
  wanted.Pairwise fun a b => b ∈ held → held.idxOf a < held.idxOf b

instance : Decidable (KeepsOrder held wanted) :=
  inferInstanceAs (Decidable (List.Pairwise _ _))

theorem pairwise_idxOf (h : held.Nodup) :
    held.Pairwise fun a b => held.idxOf a < held.idxOf b := by
  apply List.pairwise_iff_getElem.mpr
  intro i j hi hj hij
  rw [h.idxOf_getElem i hi, h.idxOf_getElem j hj]
  exact hij

theorem keepsOrder_heldFirst (h : held.Nodup) : KeepsOrder held (heldFirst held wanted) := by
  refine List.pairwise_append.mpr ⟨?_, ?_, ?_⟩
  · apply ((pairwise_idxOf h).sublist List.filter_sublist).imp
    intro a b hlt _
    exact hlt
  · apply List.pairwise_of_forall_mem_list
    intro a _ b hb hheld
    simp only [List.mem_filter, decide_eq_true_eq] at hb
    exact absurd hheld hb.2
  · intro a _ b hb hheld
    simp only [List.mem_filter, decide_eq_true_eq] at hb
    exact absurd hheld hb.2

/-- A list in the order held has what is held in front of the rest. -/
theorem KeepsOrder.filter_append_filter (h : KeepsOrder held wanted) :
    ((wanted.filter fun a => a ∈ held) ++ wanted.filter fun a => a ∉ held) = wanted := by
  induction wanted with
  | nil => rfl
  | cons first rest ih =>
      obtain ⟨hfirst, hrest⟩ := List.pairwise_cons.mp h
      by_cases hheld : first ∈ held
      · simpa [hheld] using ih hrest
      · -- an element that is not held has its place behind all that are
        have hnone : ∀ b ∈ rest, b ∉ held := by
          intro b hb hbheld
          have hlt := hfirst b hb hbheld
          rw [List.idxOf_eq_length_iff.mpr hheld] at hlt
          exact absurd hlt (not_lt.mpr (List.idxOf_le_length))
        have hnil : (rest.filter fun a => a ∈ held) = [] := by
          rw [List.filter_eq_nil_iff]
          intro b hb
          simpa using hnone b hb
        have hself : (rest.filter fun a => a ∉ held) = rest := by
          rw [List.filter_eq_self]
          intro b hb
          simpa using hnone b hb
        rw [List.filter_cons_of_neg (by simpa using hheld), hnil, List.nil_append,
          List.filter_cons_of_pos (by simpa using hheld), hself]

theorem KeepsOrder.filter_eq (h : KeepsOrder held wanted) (hheld : held.Nodup)
    (hwanted : wanted.Nodup) :
    (held.filter fun a => a ∈ wanted) = wanted.filter fun a => a ∈ held := by
  have hperm : (held.filter fun a => a ∈ wanted).Perm (wanted.filter fun a => a ∈ held) := by
    rw [List.perm_ext_iff_of_nodup (hheld.filter _) (hwanted.filter _)]
    intro a
    simp only [List.mem_filter, decide_eq_true_eq]
    exact and_comm
  refine List.Perm.eq_of_pairwise ?_ ((pairwise_idxOf hheld).sublist List.filter_sublist) ?_ hperm
  · intro a b _ _ hab hba
    exact absurd hab (lt_asymm hba)
  · apply List.Pairwise.imp_of_mem _ (h.sublist List.filter_sublist)
    intro a b _ hb hlt
    simp only [List.mem_filter, decide_eq_true_eq] at hb
    exact hlt hb.2

/-- **What is held first leaves a list as it is exactly when it keeps its order.** -/
theorem heldFirst_eq_iff (hheld : held.Nodup) (hwanted : wanted.Nodup) :
    heldFirst held wanted = wanted ↔ KeepsOrder held wanted := by
  constructor
  · intro heq
    rw [← heq]
    exact keepsOrder_heldFirst hheld
  · intro h
    rw [heldFirst, h.filter_eq hheld hwanted, h.filter_append_filter]

theorem keepsOrder_append_singleton (hheld : held.Nodup) (hnew : a ∉ held) :
    KeepsOrder held (held ++ [a]) := by
  refine List.pairwise_append.mpr ⟨?_, List.pairwise_singleton _ _, ?_⟩
  · apply (pairwise_idxOf hheld).imp
    intro a b hlt _
    exact hlt
  · intro b _ c hc hin
    obtain rfl : c = a := by simpa using hc
    exact absurd hin hnew

end Nhop.Foundation
