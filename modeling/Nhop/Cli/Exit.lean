import Nhop.Daemon.Instance
import Nhop.Ipc.Command

/-!
The code the process exits with, one variant per row of the exit-code table.
-/

namespace Nhop.Cli

open Ipc Daemon

inductive Exit
  | success
  /-- The command failed for a reason the operator has to read the message for. -/
  | failed
  /-- The socket, the daemon or the addressed thing is not there. -/
  | missing
  /-- The upstream is down and a `require` rule demanded it. -/
  | upstreamDown
  /-- The arguments were malformed. -/
  | invalidArgs
  deriving DecidableEq, Repr

namespace Exit

def code : Exit → ℕ
  | .success => 0
  | .failed => 1
  | .missing => 2
  | .upstreamDown => 3
  | .invalidArgs => 4

def ofErr : ErrKind → Exit
  | .notFound => .missing
  | .upstreamDown => .upstreamDown
  | .invalidArgs => .invalidArgs
  | .loadInProgress | .internal => .failed

/-- An answer that reports a failure never exits zero. -/
theorem ofErr_ne_success (kind : ErrKind) : ofErr kind ≠ .success := by
  cases kind <;> exact Exit.noConfusion

end Exit

/-- Prints an answer. The text is left out. -/
def render : Response → Exit
  | .ok | .rules _ | .status _ | .decision _ | .doctor => .success
  | .err kind _ => .ofErr kind

theorem render_eq_success_iff (response : Response) :
    render response = .success ↔ response.isErr = false := by
  cases response with
  | err kind message => simp [render, Response.isErr, Exit.ofErr_ne_success]
  | _ => simp [render, Response.isErr]

end Nhop.Cli
