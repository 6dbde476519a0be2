import Nhop.Cli.Exit
import Nhop.Foundation.Lines
import Nhop.Foundation.Runs
import Nhop.Foundation.Standard

/-!
`nhop logs`, and the log files it reads while the daemon writes them.

The daemon appends to the newest file of its log and from time to time begins a
new one, whose name sorts behind the others, and keeps seven of them. The command
prints the files it finds once and, if it is to follow, lists them again and again
and reads on in the newest one. Between any two of its calls the daemon may write.

A text is a run of characters here and an offset counts them, where the file has
bytes; both are only ever taken at the end of a line.
-/

namespace Nhop.Cli

open Foundation

abbrev Text := List Char

/-- A file of the state directory. -/
structure Entry where
  name : String
  text : Text
  deriving DecidableEq, Repr

/-! ### Reading the log -/

/-- Number of daily log files kept, the one being written included. -/
def keptFiles : ℕ := 7

/-- What the name of every log file begins with. -/
def logPrefix : String := "nhop.log"

def isLog (name : String) : Bool := (stripStart logPrefix name).isSome

/-- The kept log files in chronological order, the one being written last. -/
def files (dir : List Entry) : List String :=
  ((dir.map Entry.name).filter isLog).insertionSort (· ≤ ·)

/-- The line without its end and the blanks before it. -/
def trimEnd (line : Text) : Text := (line.reverse.dropWhile isWhitespace).reverse

/-- The complete lines a text holds past an offset, and the offset they end at. -/
def readFrom (text : Text) (offset : ℕ) : List Text × ℕ :=
  let offset := if text.length < offset then 0 else offset
  let complete := lines '\n' (text.drop offset)
  (complete.map trimEnd, offset + complete.flatten.length)

/-- Stretch of the log `--since` asks for: the lines it holds. -/
abbrev Window := Text → Bool

def Window.all : Window := fun _ => true

/-- The lines of a file that are printed, and the offset they end at. -/
def printFrom (dir : List Entry) (file : String) (offset : ℕ) (window : Window) :
    Option (List Text × ℕ) :=
  (dir.find? fun entry => entry.name == file).map fun entry =>
    let (complete, offset) := readFrom entry.text offset
    (complete.filter window, offset)

/-! ### The command -/

/-- Whether `logs` stops at the end of the log or keeps reading it. -/
inductive Follow
  | stop | keep
  deriving DecidableEq, Repr

/-- How far the command has come. -/
inductive Reading
  /-- The kept files that are still to be printed, and the current one behind them. -/
  | opening (kept : List String) (current : String)
  /-- The current file was read up to the offset. -/
  | waiting (current : String) (offset : ℕ)
  /-- The files were listed, and the current one is to be read. -/
  | listed (current : String) (offset : ℕ)
  | exited (exit : Exit)
  deriving DecidableEq, Repr

/-- The state directory, the command that reads it and what it has printed. The
archive is every log file since the command listed them first, in the order they
were begun, those included that are not kept any more. -/
structure Watch where
  dir : List Entry
  archive : List Entry
  reading : Reading
  out : List Text
  deriving DecidableEq

/-- What the daemon and the command do. A call of the command may fail, in the midst
of what it prints. -/
inductive Event
  | appends (text : Text)
  | rotates (name : String)
  | follows (failure : Option ℕ)
  deriving DecidableEq

/-- The text is appended to the last file. -/
def grown (more : Text) : List Entry → List Entry
  | [] => []
  | [entry] => [{ entry with text := entry.text ++ more }]
  | entry :: entries => entry :: grown more entries

/-- The log files that are too old once another one is begun. -/
def tooOld (dir : List Entry) : List String :=
  (files dir).take ((files dir).length - (keptFiles - 1))

namespace Watch

variable (s : Watch)

def appends (more : Text) : Option Watch :=
  (files s.dir).getLast?.map fun newest =>
    { s with
      dir := s.dir.map fun entry =>
        if entry.name = newest then { entry with text := entry.text ++ more } else entry
      archive := grown more s.archive }

def rotates (name : String) : Option Watch :=
  if isLog name = true ∧ ∀ file ∈ files s.dir, file < name then
    some { s with
      dir := s.dir.filter (fun entry => !(tooOld s.dir).contains entry.name) ++ [⟨name, []⟩]
      archive := s.archive ++ [⟨name, []⟩] }
  else none

/-- Prints from a file and goes on, or exits where it cannot be read or printed. -/
def prints (file : String) (offset : ℕ) (window : Window) (failure : Option ℕ) (exit : Exit)
    (next : ℕ → Reading) : Watch :=
  match printFrom s.dir file offset window with
  | none => { s with reading := .exited exit }
  | some (printed, offset) =>
      match failure with
      -- the write that fails has put out no more than a part
      | some count => { s with reading := .exited exit, out := s.out ++ printed.take count }
      | none => { s with reading := next offset, out := s.out ++ printed }

/-- The next call of the command. -/
def follows (follow : Follow) (window : Window) (failure : Option ℕ) : Option Watch :=
  match s.reading with
  | .opening (file :: kept) current =>
      some (s.prints file 0 window failure .failed fun _ => .opening kept current)
  | .opening [] current =>
      some (s.prints current 0 window failure .failed fun offset =>
        match follow with
        | .stop => .exited .success
        | .keep => .waiting current offset)
  | .waiting current offset =>
      some { s with reading :=
        match failure with
        | some _ => .exited .missing
        | none =>
            match (files s.dir).getLast? with
            | none => .waiting current offset
            | some newest =>
                -- a newer file is taken at once, whatever is unread of this one
                if newest ≠ current then .listed newest 0 else .listed current offset }
  | .listed current offset =>
      some (s.prints current offset window failure .failed (.waiting current))
  | .exited _ => none

end Watch

/-- The daemon writing its log and the command reading it. -/
def watching (follow : Follow) (window : Window) : System Watch Event where
  step s
    | .appends text => s.appends text
    | .rotates name => s.rotates name
    | .follows failure => s.follows follow window failure

/-- The state directory. No two files in it have one name. -/
structure Directory where
  entries : List Entry
  distinct : (entries.map Entry.name).Nodup

/-- The log files of a directory, sorted by name. -/
def logsOf (dir : List Entry) : List Entry :=
  (dir.filter fun entry => isLog entry.name).insertionSort fun a b => a.name ≤ b.name

/-- The command has listed the files, and is to print them. -/
def Watch.listing (dir : Directory) : Watch where
  dir := dir.entries
  archive := logsOf dir.entries
  reading :=
    match (files dir.entries).getLast? with
    | none => .exited .missing
    | some current => .opening (files dir.entries).dropLast current
  out := []

end Nhop.Cli
