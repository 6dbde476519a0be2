import Nhop.Foundation.Address
import Nhop.Foundation.Inodes
import Nhop.Foundation.Standard
import Nhop.Foundation.Runs

/-!
The processes that want to be the daemon, one system call at a time.

`InstanceGuard::acquire` opens the pid file, locks it, removes the socket it finds,
and writes its process id; dropping the guard removes the pid file and lets the
lock go. Between two of these calls any other process may take any of its own,
and a process may be killed anywhere, which closes its file and so lets its lock
go as well. A process that could not claim the file, or could not prepare what
comes after, ends with the reason it failed to start.
-/

namespace Nhop.Daemon

open Foundation

abbrev Process := ℕ

/-- Identifier of a process on this machine, in 32 bits. -/
structure Pid where
  pid : ℕ
  deriving DecidableEq, Repr

/-- Process the single-instance lock belongs to. -/
inductive LockOwner
  | known (pid : Pid)
  /-- The pid file held nothing readable. -/
  | unknown
  deriving DecidableEq, Repr

/-- Reason the daemon refused to start. -/
inductive StartFailure
  | alreadyRunning (owner : LockOwner)
  | io (failure : OsError)
  deriving DecidableEq, Repr

def LockOwner.display : LockOwner → String
  | .known pid => "pid " ++ toString pid.pid
  | .unknown => "pid unknown"

def StartFailure.display : StartFailure → String
  | .alreadyRunning owner => "another nhop daemon is already running (" ++ owner.display ++ ")"
  | .io failure => "cannot start the daemon: " ++ failure.text

inductive Outcome
  | stopped
  | failed (failure : StartFailure)
  | killed
  deriving DecidableEq, Repr

/-- How far a process has come. The file is the one it opened. -/
inductive Phase
  | unstarted
  | opened (file : ℕ)
  /-- The lock was refused, and its owner is to be named. -/
  | contended (file : ℕ)
  | locked (file : ℕ)
  /-- The socket of a daemon that is gone was removed. -/
  | cleared (file : ℕ)
  | truncated (file : ℕ)
  /-- The guard is acquired. -/
  | acquired (file : ℕ)
  | bound (file : ℕ)
  | serving (file : ℕ)
  /-- A stop signal arrived, and the listeners are closed. -/
  | stopping (file : ℕ)
  /-- The guard is about to be dropped. -/
  | leaving (file : ℕ) (outcome : Outcome)
  /-- The pid file was removed and the lock is still held. -/
  | dropping (file : ℕ) (outcome : Outcome)
  | ended (outcome : Outcome)
  deriving DecidableEq, Repr

/-- The socket file: of a daemon that is gone, or of the process that bound it. -/
inductive Socket
  | missing
  | leftover
  | boundBy (p : Process)
  deriving DecidableEq, Repr

/-- The state directory and the processes that share it. -/
structure Machine where
  pidFile : Inodes Process (List UInt8)
  socket : Socket
  phase : Process → Phase

/-! ### The pid file -/

def readToString (bytes : List UInt8) : Option String := String.fromUTF8? ⟨bytes.toArray⟩

def readOwner (contents : List UInt8) : LockOwner :=
  match readToString contents with
  | none => .unknown
  | some written =>
      match parseUnsigned (2 ^ 32) (trim written) with
      | none => .unknown
      | some pid => .known ⟨pid⟩

/-- The line that names the owner. -/
def pidLine (p : Process) : List UInt8 := (toString p ++ "\n").toUTF8.data.toList

/-- A line of text without blanks is trimmed to its text. -/
theorem trim_line {text : String} (h : ∀ c ∈ text.toList, isWhitespace c = false) :
    trim (text ++ "\n") = text := by
  have hkeep : ∀ cs : List Char, (∀ c ∈ cs, isWhitespace c = false) →
      cs.dropWhile isWhitespace = cs := by
    intro cs hcs
    cases cs with
    | nil => rfl
    | cons c cs => exact List.dropWhile_cons_of_neg (by simp [hcs c (List.mem_cons_self ..)])
  have hline : ((text ++ "\n").toList.dropWhile isWhitespace).reverse.dropWhile isWhitespace =
      text.toList.reverse := by
    rw [String.toList_append]
    cases htext : text.toList with
    | nil => rfl
    | cons c cs =>
        rw [htext] at h
        have hhead : isWhitespace c = false := h c (List.mem_cons_self ..)
        rw [List.cons_append, List.dropWhile_cons_of_neg (by simp [hhead]), ← List.cons_append,
          List.reverse_append]
        show ('\n' :: (c :: cs).reverse).dropWhile isWhitespace = _
        rw [List.dropWhile_cons_of_pos (by decide)]
        exact hkeep _ fun c' hmem => h c' (List.mem_reverse.mp hmem)
  rw [trim, hline, List.reverse_reverse, String.ofList_toList]

/-- **The owner is read as it was written.** -/
theorem readOwner_pidLine {p : Process} (h : p < 2 ^ 32) : readOwner (pidLine p) = .known ⟨p⟩ := by
  have hread : readToString (pidLine p) = some (toString p ++ "\n") := by
    have hbytes : (⟨(pidLine p).toArray⟩ : ByteArray) = (toString p ++ "\n").toUTF8 := by
      rw [pidLine, Array.toArray_toList]
    rw [readToString, hbytes]
    exact dif_pos (toString p ++ "\n").isValidUTF8
  have hdigits : ∀ c ∈ (toString p).toList, isWhitespace c = false := fun c hmem =>
    isWhitespace_of_isDigit (isDigit_of_mem_toString hmem)
  rw [readOwner, hread]
  simp only [trim_line hdigits, parseUnsigned_toString h]

/-! ### Steps -/

/-- What happens next: a process takes its next call, which may fail, or is killed. -/
inductive Event
  | takes (p : Process) (failure : Option OsError)
  | killed (p : Process)
  deriving DecidableEq

def Event.actor : Event → Process
  | .takes p _ => p
  | .killed p => p

namespace Machine

variable (s : Machine) (p : Process)

def enter (phase : Phase) : Machine := { s with phase := Function.update s.phase p phase }

/-- The process is done with its file, which is closed. -/
def close (outcome : Outcome) : Machine :=
  { s.enter p (.ended outcome) with pidFile := s.pidFile.released p }

/-- A step of `acquire` behind the lock: its failure closes the file. -/
def orFail (failure : Option OsError) (done : Machine) : Machine :=
  match failure with
  | some failure => s.close p (.failed (.io failure))
  | none => done

/-- A step of the start behind `acquire`: its failure drops the guard. -/
def orLeave (file : ℕ) (failure : Option OsError) (done : Machine) : Machine :=
  match failure with
  | some failure => s.enter p (.leaving file (.failed (.io failure)))
  | none => done

/-- What binding a path that exists fails with. -/
def addressInUse : OsError := ⟨"Address already in use (os error 48)"⟩

/-- The next call of a process. -/
def proceed (failure : Option OsError) : Option Machine :=
  match s.phase p with
  | .unstarted =>
      some (s.orFail p failure
        { s.enter p (.opened s.pidFile.target) with pidFile := s.pidFile.opened [] })
  | .opened file =>
      -- the lock is on the file that was opened, whatever the path names by now
      some (if failure = none ∧ s.pidFile.locked file = none then
          { s.enter p (.locked file) with pidFile := s.pidFile.lockedBy p file }
        else s.enter p (.contended file))
  | .contended file =>
      let owner := if failure = none then readOwner (s.pidFile.contents file) else .unknown
      some (s.close p (.failed (.alreadyRunning owner)))
  | .locked file =>
      some (s.orFail p failure { s.enter p (.cleared file) with socket := .missing })
  | .cleared file =>
      some (s.orFail p failure
        { s.enter p (.truncated file) with pidFile := s.pidFile.written file [] })
  | .truncated file =>
      some (s.orFail p failure
        { s.enter p (.acquired file) with pidFile := s.pidFile.written file (pidLine p) })
  | .acquired file =>
      some (if s.socket = .missing then
          s.orLeave p file failure { s.enter p (.bound file) with socket := .boundBy p }
        else s.enter p (.leaving file (.failed (.io addressInUse))))
  | .bound file => some (s.orLeave p file failure (s.enter p (.serving file)))
  | .serving file => some (s.orLeave p file failure (s.enter p (.stopping file)))
  | .stopping file =>
      let socket := if failure = none then .missing else s.socket
      some { s.enter p (.leaving file .stopped) with socket := socket }
  | .leaving file outcome =>
      -- the path is taken away before the lock is let go of
      let pidFile := if failure = none then s.pidFile.unlinked else s.pidFile
      some { s.enter p (.dropping file outcome) with pidFile := pidFile }
  | .dropping _ outcome => some (s.close p outcome)
  | .ended _ => none

/-- A process that runs may be killed. -/
def kill : Option Machine :=
  match s.phase p with
  | .unstarted | .ended _ => none
  | _ => some (s.close p .killed)

/-- What daemons that are gone left behind, before any process is started. -/
def left (contents : Option (List UInt8)) (socket : Bool) : Machine where
  pidFile :=
    { named := contents.map fun _ => 0
      made := 1
      contents := fun _ => contents.getD []
      locked := fun _ => none }
  socket := if socket then .leftover else .missing
  phase _ := .unstarted

end Machine

/-- The processes, each at its own pace. -/
def instances : System Machine Event where
  step s
    | .takes p failure => s.proceed p failure
    | .killed p => s.kill p

/-! ### The guard -/

/-- The file a process has locked, until it lets go of the path. -/
def Phase.claim : Phase → Option ℕ
  | .locked file | .cleared file | .truncated file | .acquired file | .bound file
  | .serving file | .stopping file | .leaving file _ => some file
  | .unstarted | .opened _ | .contended _ | .dropping _ _ | .ended _ => none

/-- Whether a process is between a successful `acquire` and the drop of its guard. -/
def Phase.guarded : Phase → Bool
  | .acquired _ | .bound _ | .serving _ | .stopping _ | .leaving _ _ => true
  | _ => false

theorem Phase.claim_of_guarded {phase : Phase} (h : phase.guarded = true) :
    ∃ file, phase.claim = some file := by
  cases phase with
  | acquired file => exact ⟨file, rfl⟩
  | bound file => exact ⟨file, rfl⟩
  | serving file => exact ⟨file, rfl⟩
  | stopping file => exact ⟨file, rfl⟩
  | leaving file _ => exact ⟨file, rfl⟩
  | _ => cases h

def Machine.Holds (s : Machine) (p : Process) : Prop := (s.phase p).guarded = true

def Machine.claims (s : Machine) (p : Process) : Option ℕ := (s.phase p).claim

end Nhop.Daemon
