import Mathlib

/-!
What a reader is told of the things it missed.

Things are published one after another, and a reader that is not ready for one
misses it. The next one that reaches it is marked with how many it missed, a number
that is counted up to a limit.

`Accounts` is the state of such a reader: what was published is what reached it, each
thing behind those that were missed before it, and then what was missed since. As
long as the limit was not passed, the numbers add up (`Accounts.conserved`).
-/

namespace Nhop.Foundation

variable {α : Type*}

/-- A thing that reached a reader, and what the reader missed before it. -/
structure Got (α : Type*) where
  missed : List α
  thing : α

namespace Got

def published (got : Got α) : List α := got.missed ++ [got.thing]

/-- How many things the reader is told it missed. -/
def report (limit : ℕ) (got : Got α) : ℕ := min got.missed.length limit

/-- What reached the reader. -/
def marked (limit : ℕ) (mark : ℕ → α → α) (got : Got α) : α :=
  mark (got.report limit) got.thing

end Got

/-- What was published was missed or reached the reader, and the reader was told. -/
structure Accounts (limit : ℕ) (mark : ℕ → α → α) (gots : List (Got α)) (pending : List α)
    (published delivered : List α) (count : ℕ) : Prop where
  published : published = gots.flatMap Got.published ++ pending
  delivered : delivered = gots.map (Got.marked limit mark)
  count : count = min pending.length limit

/-- The reader never missed more things in a row than can be counted. -/
def Short (limit : ℕ) (gots : List (Got α)) (pending : List α) : Prop :=
  (∀ got ∈ gots, got.missed.length ≤ limit) ∧ pending.length ≤ limit

/-- What reached a reader is what was published, in its order and with reports on it,
and together with the reports and the count it makes up all that was published. -/
def Conserved (mark : ℕ → α → α) (published delivered : List α) (count : ℕ) : Prop :=
  ∃ reports : List (ℕ × α),
    delivered = reports.map (fun report => mark report.1 report.2) ∧
      (reports.map Prod.snd).Sublist published ∧
        published.length = delivered.length + (reports.map Prod.fst).sum + count

namespace Accounts

variable {limit : ℕ} {mark : ℕ → α → α} {gots : List (Got α)} {pending : List α}
  {published delivered : List α} {count : ℕ} {thing : α}

theorem nil : Accounts limit mark [] [] [] [] 0 := ⟨rfl, rfl, by simp⟩

theorem miss (h : Accounts limit mark gots pending published delivered count) (thing : α) :
    Accounts limit mark gots (pending ++ [thing]) (published ++ [thing]) delivered
      (min (count + 1) limit) where
  published := by rw [h.published, List.append_assoc]
  delivered := h.delivered
  count := by
    rw [h.count, List.length_append, List.length_singleton]
    omega

theorem reach (h : Accounts limit mark gots pending published delivered count) (thing : α) :
    Accounts limit mark (gots ++ [⟨pending, thing⟩]) [] (published ++ [thing])
      (delivered ++ [mark count thing]) 0 where
  published := by simp [h.published, Got.published]
  delivered := by simp [h.delivered, h.count, Got.marked, Got.report]
  count := by simp

theorem sublist_published (gots : List (Got α)) :
    (gots.map Got.thing).Sublist (gots.flatMap Got.published) := by
  induction gots with
  | nil => exact List.Sublist.slnil
  | cons got gots ih =>
      have hlast : [got.thing].Sublist got.published := List.sublist_append_right _ _
      simpa using hlast.append ih

theorem length_published (hshort : ∀ got ∈ gots, got.missed.length ≤ limit) :
    (gots.flatMap Got.published).length =
      gots.length + (gots.map (Got.report limit)).sum := by
  induction gots with
  | nil => rfl
  | cons got gots ih =>
      have hgot : got.report limit = got.missed.length :=
        min_eq_left (hshort got (List.mem_cons_self ..))
      have hrest := ih fun other hmem => hshort other (List.mem_cons_of_mem _ hmem)
      rw [List.flatMap_cons, List.length_append, hrest, List.map_cons, List.sum_cons, hgot,
        Got.published, List.length_append, List.length_singleton, List.length_cons]
      omega

/-- **Nothing is lost unreported**: what reached the reader, what it was told it
missed and what it is yet to be told make up all that was published. -/
theorem conserved (h : Accounts limit mark gots pending published delivered count)
    (hshort : Short limit gots pending) : Conserved mark published delivered count := by
  obtain ⟨hgots, hpending⟩ := hshort
  refine ⟨gots.map fun got => (got.report limit, got.thing), ?_, ?_, ?_⟩
  · rw [h.delivered, List.map_map]
    rfl
  · rw [h.published, List.map_map]
    exact (sublist_published gots).trans (List.sublist_append_left _ _)
  · have hcount : count = pending.length := by rw [h.count, min_eq_left hpending]
    have hreports : (gots.map fun got => (got.report limit, got.thing)).map Prod.fst =
        gots.map (Got.report limit) := by
      rw [List.map_map]
      rfl
    rw [hreports, h.delivered, List.length_map, h.published, List.length_append,
      length_published hgots, hcount]

end Accounts

end Nhop.Foundation
