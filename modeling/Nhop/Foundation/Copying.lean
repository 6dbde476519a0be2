import Nhop.Foundation.Runs

/-!
A copy from a source to a sink, through a buffer.

A copy reads and writes by turns, as much at a time as it gets or can put, and ends
once the source is at its end and the buffer is empty. Nothing is lost on the way
(`Copying.run_whole`), so a copy that ended wrote everything (`sink_of_finished`),
and as long as nobody stops it, it can (`Copying.completes`).
-/

namespace Nhop.Foundation

variable {α : Type*} {capacity : ℕ}

/-- A copy that is going on. -/
structure Copying (α : Type*) where
  /-- What is yet to be read. -/
  source : List α
  /-- What was read and is yet to be written. -/
  buffer : List α
  /-- Whether the end of the source was read. -/
  ended : Bool
  /-- What was written. -/
  sink : List α
  clean : ended = true → source = []
  deriving DecidableEq

/-- One call of a copy. -/
inductive CopyMove
  | reads (n : ℕ)
  | ends
  | writes (n : ℕ)
  deriving DecidableEq, Repr

namespace Copying

def of (source : List α) : Copying α := ⟨source, [], false, [], by simp⟩

/-- A call that succeeds. A read that finds something is of at most what the buffer has
room for, and a write of at most what it holds. -/
def step (capacity : ℕ) (copy : Copying α) : CopyMove → Option (Copying α)
  | .reads n =>
      if 0 < n ∧ n ≤ copy.source.length ∧ copy.buffer.length + n ≤ capacity then
        some { copy with
          source := copy.source.drop n
          buffer := copy.buffer ++ copy.source.take n
          clean := fun hended => by rw [copy.clean hended, List.drop_nil] }
      else none
  | .ends =>
      if h : copy.source = [] then some { copy with ended := true, clean := fun _ => h }
      else none
  | .writes n =>
      if 0 < n ∧ n ≤ copy.buffer.length then
        some { copy with buffer := copy.buffer.drop n, sink := copy.sink ++ copy.buffer.take n }
      else none

/-- A copy under every order of its calls. -/
def calls (capacity : ℕ) : System (Copying α) CopyMove := ⟨step capacity⟩

/-- All that the copy is of. -/
def whole (copy : Copying α) : List α := copy.sink ++ copy.buffer ++ copy.source

/-- Whether the copy has nothing left to do. -/
def finished (copy : Copying α) : Bool := copy.ended && copy.buffer.isEmpty

variable {copy copy' : Copying α} {move : CopyMove}

theorem step_reads_one (hsome : copy.source ≠ []) (hroom : copy.buffer.length < capacity) :
    ∃ copy', copy.step capacity (.reads 1) = some copy' ∧
      copy'.source.length + 1 = copy.source.length := by
  have hlength := List.length_pos_iff.mpr hsome
  refine ⟨_, if_pos ⟨Nat.one_pos, hlength, hroom⟩, ?_⟩
  show (copy.source.drop 1).length + 1 = copy.source.length
  rw [List.length_drop, Nat.sub_add_cancel hlength]

theorem step_writes_all (hsome : copy.buffer ≠ []) :
    copy.step capacity (.writes copy.buffer.length) =
      some { copy with buffer := [], sink := copy.sink ++ copy.buffer } := by
  rw [step, if_pos ⟨List.length_pos_iff.mpr hsome, le_refl _⟩]
  simp

theorem whole_step (hstep : copy.step capacity move = some copy') : copy'.whole = copy.whole := by
  cases move with
  | reads n =>
      rw [step] at hstep
      split_ifs at hstep
      cases hstep
      simp [whole]
  | ends =>
      rw [step] at hstep
      split_ifs at hstep
      cases hstep
      rfl
  | writes n =>
      rw [step] at hstep
      split_ifs at hstep
      cases hstep
      simp only [whole, List.append_assoc]
      rw [← List.append_assoc (copy.buffer.take n), List.take_append_drop]

/-- **Nothing is lost.** -/
theorem run_whole {moves : List CopyMove} (hrun : (calls capacity).run copy moves = some copy') :
    copy'.whole = copy.whole :=
  System.invariant (I := fun s => s.whole = copy.whole) rfl
    (fun _ _ _ h hstep => (whole_step hstep).trans h) ⟨moves, hrun⟩

theorem sink_of_finished (h : copy.finished = true) : copy.sink = copy.whole := by
  simp only [finished, Bool.and_eq_true, List.isEmpty_iff] at h
  rw [whole, h.2, copy.clean h.1, List.append_nil, List.append_nil]

theorem sink_prefix_whole (copy : Copying α) : copy.sink <+: copy.whole :=
  ⟨copy.buffer ++ copy.source, by rw [whole, List.append_assoc]⟩

theorem drains (capacity : ℕ) (copy : Copying α) : ∃ moves copy',
    (calls capacity).run copy moves = some copy' ∧ copy'.buffer = [] ∧
      copy'.source = copy.source ∧ copy'.sink = copy.sink ++ copy.buffer := by
  by_cases hnone : copy.buffer = []
  · exact ⟨[], copy, rfl, hnone, rfl, by rw [hnone, List.append_nil]⟩
  · refine ⟨[.writes copy.buffer.length], { copy with
      buffer := []
      sink := copy.sink ++ copy.buffer }, ?_, rfl, rfl, rfl⟩
    show (copy.step capacity (.writes copy.buffer.length)).bind _ = _
    rw [step_writes_all hnone]
    rfl

/-- **A copy can be carried to its end**: one thing is read and written after the
other. The induction is on what is yet to be read. -/
theorem completes (hcapacity : 0 < capacity) (copy : Copying α) : ∃ moves copy',
    (calls capacity).run copy moves = some copy' ∧ copy'.sink = copy.whole := by
  generalize hleft : copy.source.length = left
  induction left generalizing copy with
  | zero =>
      obtain ⟨moves, copy', hrun, _, _, hsink⟩ := drains capacity copy
      refine ⟨moves, copy', hrun, ?_⟩
      rw [hsink, whole, List.length_eq_zero_iff.mp hleft, List.append_nil]
  | succ left ih =>
      obtain ⟨moves, drained, hrun, hbuffer, hsource, hsink⟩ := drains capacity copy
      have hsome : drained.source ≠ [] := by
        rw [hsource]
        exact List.ne_nil_of_length_eq_add_one hleft
      obtain ⟨read, hread, hshorter⟩ := step_reads_one hsome (by
        rw [hbuffer]
        exact hcapacity)
      obtain ⟨more, done, hdone, hall⟩ := ih read (by
        rw [hsource, hleft] at hshorter
        exact Nat.succ.inj hshorter)
      refine ⟨moves ++ .reads 1 :: more, done, ?_, ?_⟩
      · have hstep : (calls capacity).step drained (.reads 1) = some read := hread
        rw [System.run_append, hrun, Option.bind_some, System.run_cons, hstep, Option.bind_some,
          hdone]
      · rw [hall, whole_step hread, run_whole hrun]

end Copying

end Nhop.Foundation
