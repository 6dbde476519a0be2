import Nhop.Foundation.Runs

/-!
Systems that run dry.

Where every step of a kind leaves less work than there was, a run of such steps is
no longer than the work there was at its start. What is outstanding in a system is
kept as a list read off a list of places, or as what they weigh; changing one place
changes it there (`filterMap_set_perm`, `sum_map_set`).
-/

namespace Nhop.Foundation

namespace System

variable {σ ε : Type*} {S : System σ ε}

/-- **A run of steps each of which leaves less work** ends within the work there
was. The induction is on the run. -/
theorem length_add_work_le {I : σ → Prop} {C : ε → Prop} {work : σ → ℕ}
    (hkeep : ∀ s e s', I s → S.step s e = some s' → I s')
    (hless : ∀ s e s', I s → C e → S.step s e = some s' → work s' < work s) {s s' : σ}
    {es : List ε} (hs : I s) (hes : ∀ e ∈ es, C e) (hrun : S.run s es = some s') :
    es.length + work s' ≤ work s := by
  induction es generalizing s with
  | nil =>
      obtain rfl : s = s' := by simpa using hrun
      simp
  | cons e es ih =>
      obtain ⟨mid, hstep, hrest⟩ := Option.bind_eq_some_iff.mp hrun
      have hlater := ih (hkeep s e mid hs hstep)
        (fun later hmem => hes later (List.mem_cons_of_mem _ hmem)) hrest
      have hfirst := hless s e mid hs (hes e (List.mem_cons_self ..)) hstep
      rw [List.length_cons]
      omega

end System

open scoped List

variable {α β : Type*}

/-- What is read off a list of places when one of them changes. -/
theorem filterMap_set_perm (f : α → Option β) {places : List α} {i : ℕ} {before after : α}
    (h : places[i]? = some before) :
    ((f before).toList ++ (places.set i after).filterMap f).Perm
      ((f after).toList ++ places.filterMap f) := by
  induction places generalizing i with
  | nil => simp at h
  | cons place places ih =>
      cases i with
      | zero =>
          obtain rfl : place = before := by simpa using h
          rw [List.set_cons_zero, List.filterMap_cons, List.filterMap_cons]
          cases f place <;> cases f after <;>
            simp [List.Perm.swap]
      | succ i =>
          have hrest := ih (by simpa using h)
          rw [List.set_cons_succ, List.filterMap_cons, List.filterMap_cons]
          cases f place with
          | none => exact hrest
          | some b =>
              calc (f before).toList ++ b :: (places.set i after).filterMap f
                  ~ b :: ((f before).toList ++ (places.set i after).filterMap f) :=
                    List.perm_middle
                _ ~ b :: ((f after).toList ++ places.filterMap f) := hrest.cons b
                _ ~ (f after).toList ++ b :: places.filterMap f := List.perm_middle.symm

/-- What a list of places weighs when one of them changes. -/
theorem sum_map_set (f : α → ℕ) {places : List α} {i : ℕ} {before after : α}
    (h : places[i]? = some before) :
    f before + ((places.set i after).map f).sum = f after + (places.map f).sum := by
  have hperm : (f before :: (places.set i after).filterMap (fun place => some (f place))).Perm
      (f after :: places.filterMap fun place => some (f place)) :=
    filterMap_set_perm (fun place => some (f place)) h
  simpa [List.filterMap_eq_map'] using hperm.sum_eq

end Nhop.Foundation
