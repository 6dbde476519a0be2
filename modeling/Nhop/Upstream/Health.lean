import Nhop.Foundation.Cells
import Nhop.Proxy.Listed

/-!
The verdict on one upstream address.

A verdict lives in a shared cell: the published list, every dial under way and
the patrol hold the same handle, and a write through any of them is seen by all.
A write settles the cell, which moves its instant only when the verdict turns
over, and a turnover is also the only write that is logged.
-/

namespace Nhop.Upstream

open Foundation Ipc Proxy

/-- What produced a verdict turnover. -/
inductive VerdictCause
  | probe | dial
  deriving DecidableEq, Repr

/-- Why new connections moved from one upstream to another. -/
inductive SwitchCause
  | down | held | recovered | reload
  deriving DecidableEq, Repr

/-- Verdict on an upstream and the instant it settled. -/
structure Health where
  state : HealthState
  changedAt : ℤ
  deriving DecidableEq, Repr

/-- The address a verdict is about and the verdict itself. -/
structure Judged where
  upstream : UpstreamAddr
  health : Health
  deriving DecidableEq, Repr

/-- Every verdict there has ever been. -/
abbrev Verdicts := Cells Judged

/-- A handle on one shared verdict. -/
structure HealthHandle where
  cell : ℕ
  deriving DecidableEq, Repr

/-- The line logged for a turnover. -/
structure VerdictLine where
  upstream : UpstreamAddr
  verdictFrom : HealthState
  verdictTo : HealthState
  cause : VerdictCause
  deriving DecidableEq, Repr

/-- The verdict an observation leaves: its instant moves only on a turnover. -/
def Health.after (settled : Health) (state : HealthState) (stamp : ℤ) : Health :=
  match settled.state, state with
  | .up, .up | .down, .down => ⟨state, settled.changedAt⟩
  | .up, .down | .down, .up => ⟨state, stamp⟩

namespace Health

variable {settled : Health} {state : HealthState} {stamp : ℤ}

@[simp] theorem after_state : (settled.after state stamp).state = state := by
  unfold after
  split <;> rfl

end Health

namespace HealthHandle

/-- A fresh verdict on `upstream`, down since `now`. -/
def judging (upstream : UpstreamAddr) (now : ℤ) (verdicts : Verdicts) :
    HealthHandle × Verdicts :=
  let (cell, verdicts) := verdicts.alloc ⟨upstream, .down, now⟩
  (⟨cell⟩, verdicts)

def verdict (handle : HealthHandle) (verdicts : Verdicts) : Health :=
  (verdicts.read handle.cell).health

def state (handle : HealthHandle) (verdicts : Verdicts) : HealthState :=
  (handle.verdict verdicts).state

def changedAt (handle : HealthHandle) (verdicts : Verdicts) : ℤ :=
  (handle.verdict verdicts).changedAt

/-- Whether both handles judge the same verdict rather than two equal ones. -/
def same (handle other : HealthHandle) : Bool := handle.cell == other.cell

/-- Swaps in the verdict an observation leaves, returning the one it replaced. -/
def settle (handle : HealthHandle) (state : HealthState) (stamp : ℤ) (verdicts : Verdicts) :
    Health × Verdicts :=
  let judged := verdicts.read handle.cell
  (judged.health,
    verdicts.write handle.cell { judged with health := judged.health.after state stamp })

/-- Records one observation, stamping a turnover with `stamp` and logging a line
only on a turnover. -/
def setAt (handle : HealthHandle) (state : HealthState) (cause : VerdictCause) (stamp : ℤ)
    (verdicts : Verdicts) : Verdicts × Option VerdictLine :=
  let (previous, settled) := handle.settle state stamp verdicts
  match previous.state, state with
  | .up, .up | .down, .down => (settled, none)
  | .up, .down | .down, .up =>
      (settled, some ⟨(verdicts.read handle.cell).upstream, previous.state, state, cause⟩)

/-- Records one observation made now, the form a real dial uses. -/
def set (handle : HealthHandle) (state : HealthState) (cause : VerdictCause) (now : ℤ)
    (verdicts : Verdicts) : Verdicts × Option VerdictLine :=
  handle.setAt state cause now verdicts

section lemmas

variable {handle other : HealthHandle} {verdicts : Verdicts} {upstream : UpstreamAddr}
  {seen : HealthState} {cause : VerdictCause} {now stamp : ℤ}

@[simp] theorem judging_fst : (judging upstream now verdicts).1 = ⟨verdicts.next⟩ := rfl

@[simp] theorem next_judging : (judging upstream now verdicts).2.next = verdicts.next + 1 := rfl

@[simp] theorem verdict_judging_self :
    (⟨verdicts.next⟩ : HealthHandle).verdict (judging upstream now verdicts).2 = ⟨.down, now⟩ := by
  simp [verdict, judging]

@[simp] theorem same_iff : handle.same other = true ↔ handle = other := by
  cases handle
  cases other
  simp [same]

/-- A write is the settled cell, logged or not. -/
@[simp] theorem setAt_fst :
    (handle.setAt seen cause stamp verdicts).1 = (handle.settle seen stamp verdicts).2 := by
  unfold setAt
  simp only
  split <;> rfl

@[simp] theorem set_eq :
    handle.set seen cause now verdicts = handle.setAt seen cause now verdicts :=
  rfl

@[simp] theorem next_settle : (handle.settle seen stamp verdicts).2.next = verdicts.next := rfl

@[simp] theorem verdict_settle_self :
    handle.verdict (handle.settle seen stamp verdicts).2 =
      (handle.verdict verdicts).after seen stamp := by
  simp [verdict, settle]

/-- A write through one handle is not seen through another. -/
theorem verdict_settle_of_ne (h : other ≠ handle) :
    other.verdict (handle.settle seen stamp verdicts).2 = other.verdict verdicts := by
  have hcell : other.cell ≠ handle.cell := fun hc => h (by cases other; cases handle; simp_all)
  simp [verdict, settle, Cells.read_write_of_ne hcell]

theorem verdict_settle :
    other.verdict (handle.settle seen stamp verdicts).2 =
      if other = handle then (handle.verdict verdicts).after seen stamp
      else other.verdict verdicts := by
  split
  · next h =>
      subst h
      exact verdict_settle_self
  · next h => exact verdict_settle_of_ne h

/-- A line is logged exactly when the verdict turns over. -/
theorem setAt_logs :
    (handle.setAt seen cause stamp verdicts).2.isSome ↔ handle.state verdicts ≠ seen := by
  unfold setAt settle state verdict
  simp only
  split <;> simp_all

end lemmas

end HealthHandle

end Nhop.Upstream
