import Mathlib

/-!
The log of a value that is recorded from time to time.

Whoever records a value logs the move from the value recorded before, and logs
nothing when the two are the same. The log is then a walk: it starts where the
first value was, every move starts where the one before it ended, no move stays
in place, and the last one ends at the value recorded last.
-/

namespace Nhop.Foundation

variable {κ : Type*} {start here there : κ} {moves : List (κ × κ)}

/-- The moves lead from `start` to `finish`. -/
def IsWalk (start : κ) : List (κ × κ) → κ → Prop
  | [], finish => start = finish
  | move :: moves, finish => move.1 = start ∧ move.1 ≠ move.2 ∧ IsWalk move.2 moves finish

namespace IsWalk

theorem snoc (h : IsWalk start moves here) (hne : here ≠ there) :
    IsWalk start (moves ++ [(here, there)]) there := by
  induction moves generalizing start with
  | nil =>
      obtain rfl : start = here := h
      exact ⟨rfl, hne, rfl⟩
  | cons move moves ih =>
      obtain ⟨hstart, hmove, hrest⟩ := h
      exact ⟨hstart, hmove, ih hrest⟩

theorem moves_ne (h : IsWalk start moves here) : ∀ move ∈ moves, move.1 ≠ move.2 := by
  induction moves generalizing start with
  | nil => simp
  | cons move moves ih =>
      obtain ⟨_, hmove, hrest⟩ := h
      intro other hother
      rcases List.mem_cons.mp hother with rfl | hother
      · exact hmove
      · exact ih hrest other hother

theorem head (h : IsWalk start moves here) {move : κ × κ} (hmove : moves[0]? = some move) :
    move.1 = start := by
  cases moves with
  | nil => simp at hmove
  | cons first moves =>
      obtain rfl : first = move := by simpa using hmove
      exact h.1

/-- Every other move starts where the one before it ended. -/
theorem adjacent (h : IsWalk start moves here) {k : ℕ} {move move' : κ × κ}
    (hmove : moves[k]? = some move) (hmove' : moves[k + 1]? = some move') : move'.1 = move.2 := by
  induction moves generalizing start k with
  | nil => simp at hmove
  | cons first moves ih =>
      obtain ⟨_, _, hrest⟩ := h
      cases k with
      | zero =>
          obtain rfl : first = move := by simpa using hmove
          exact head hrest (by simpa using hmove')
      | succ k => exact ih hrest (by simpa using hmove) (by simpa using hmove')

theorem last (h : IsWalk start moves here) :
    (moves.getLast?.map Prod.snd).getD start = here := by
  induction moves generalizing start with
  | nil => exact h
  | cons move moves ih =>
      obtain ⟨_, _, hrest⟩ := h
      have hlast := ih hrest
      cases moves with
      | nil => simpa using hlast
      | cons second moves => simpa [List.getLast?_cons] using hlast

end IsWalk

end Nhop.Foundation
