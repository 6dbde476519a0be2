import Nhop.Cli.Arguments

/-!
One command on its way to the daemon.

A command travels as one line. The daemon reads no more than `lineLimit` bytes of
it, and what it does with a longer one depends on where the last of them falls:
it refuses the line when they end a character, and hangs up when they do not,
since they are no text then. In neither case does it learn what the command was.
-/

namespace Nhop.Cli

open Foundation Ipc

/-- The writer of commands. What a command is written as is read back as that
command. -/
class Wire where
  line : Command → List Char
  oneLine : ∀ command, '\n' ∉ line command

/-- Reason the client got no answer out of the daemon. -/
inductive Unreachable
  | noDaemon (socketFile : String)
  | closed
  | io (failure : OsError)
  | malformed (failure : String)
  deriving DecidableEq, Repr

def Exit.ofUnreachable : Unreachable → Exit
  | .noDaemon _ => .missing
  | .closed => .missing
  | .io _ => .missing
  | .malformed _ => .failed

def lineLimit : ℕ := 64 * 1024

/-- The bytes a text takes. -/
def byteCount (cs : List Char) : ℕ := (cs.map Char.utf8Size).sum

/-- The first bytes of a text, absent when they end inside a character. -/
def takeBytes : ℕ → List Char → Option (List Char)
  | _, [] => some []
  | n, c :: cs =>
      if n = 0 then some []
      else if c.utf8Size ≤ n then (takeBytes (n - c.utf8Size) cs).map (c :: ·)
      else none

/-- What the daemon makes of a line. -/
inductive Heard
  | whole
  | oversized
  | hangUp
  deriving DecidableEq, Repr

/-- Reads one line, which ends in the only line break there is. -/
def hear (wire : List Char) : Heard :=
  match takeBytes lineLimit wire with
  | none => .hangUp
  | some read =>
      if byteCount read = lineLimit ∧ read.getLast? ≠ some '\n' then .oversized else .whole

def oversized : Response :=
  .err .invalidArgs ("a command must be one line of at most " ++ toString lineLimit ++ " bytes")

/-! ### Lines that fit and lines that do not -/

section bytes

variable {n : ℕ} {cs tail read : List Char}

@[simp] theorem byteCount_nil : byteCount [] = 0 := rfl

@[simp] theorem byteCount_cons (c : Char) (cs : List Char) :
    byteCount (c :: cs) = c.utf8Size + byteCount cs := by
  simp [byteCount]

@[simp] theorem byteCount_append (cs tail : List Char) :
    byteCount (cs ++ tail) = byteCount cs + byteCount tail := by
  simp [byteCount]

theorem takeBytes_zero (cs : List Char) : takeBytes 0 cs = some [] := by
  cases cs with
  | nil => rfl
  | cons c cs => rfl

theorem takeBytes_of_le (h : byteCount cs ≤ n) : takeBytes n cs = some cs := by
  induction cs generalizing n with
  | nil => rfl
  | cons c cs ih =>
      rw [byteCount_cons] at h
      have hpos := c.utf8Size_pos
      have hrest : takeBytes (n - c.utf8Size) cs = some cs := ih (by omega)
      have hn : n ≠ 0 := by omega
      have hc : c.utf8Size ≤ n := by omega
      simp only [takeBytes, hn, hc, hrest, if_false, if_true, Option.map_some]

/-- Bytes that a text has are taken from it whatever follows. -/
theorem takeBytes_append (tail : List Char) (h : n ≤ byteCount cs) :
    takeBytes n (cs ++ tail) = takeBytes n cs := by
  induction cs generalizing n with
  | nil =>
      obtain rfl : n = 0 := by simpa using h
      rw [takeBytes_zero, takeBytes_zero]
  | cons c cs ih =>
      rw [byteCount_cons] at h
      have hrest : takeBytes (n - c.utf8Size) (cs ++ tail) = takeBytes (n - c.utf8Size) cs :=
        ih (by omega)
      simp only [List.cons_append, takeBytes, hrest]

/-- What is taken begins the text, and is as long as was asked for when the text
is. -/
theorem takeBytes_eq_some (htake : takeBytes n cs = some read) (hn : n ≤ byteCount cs) :
    read <+: cs ∧ byteCount read = n := by
  induction cs generalizing n read with
  | nil =>
      obtain rfl : n = 0 := by simpa using hn
      cases htake
      exact ⟨List.prefix_rfl, rfl⟩
  | cons c cs ih =>
      rw [byteCount_cons] at hn
      unfold takeBytes at htake
      split at htake
      · rename_i hzero
        cases htake
        exact ⟨List.nil_prefix, hzero.symm⟩
      · split at htake
        · rename_i hc
          obtain ⟨more, hmore, rfl⟩ := Option.map_eq_some_iff.mp htake
          obtain ⟨hbegins, hsize⟩ := ih hmore (by omega)
          refine ⟨List.cons_prefix_cons.mpr ⟨rfl, hbegins⟩, ?_⟩
          rw [byteCount_cons]
          omega
        · cases htake

end bytes

section hear

variable {line : List Char}

/-- A line of at most `lineLimit` bytes, its end included, is read whole. -/
theorem hear_whole (h : byteCount line < lineLimit) : hear (line ++ ['\n']) = .whole := by
  have hsize : byteCount (line ++ ['\n']) ≤ lineLimit := by
    rw [byteCount_append]
    have hbreak : byteCount ['\n'] = 1 := by decide
    omega
  simp [hear, takeBytes_of_le hsize]

/-- A longer one is refused when its first `lineLimit` bytes are whole characters. -/
theorem hear_oversized (hline : '\n' ∉ line) (h : lineLimit ≤ byteCount line)
    (hwhole : (takeBytes lineLimit line).isSome) : hear (line ++ ['\n']) = .oversized := by
  obtain ⟨read, hread⟩ := Option.isSome_iff_exists.mp hwhole
  obtain ⟨hbegins, hsize⟩ := takeBytes_eq_some hread h
  have hlast : read.getLast? ≠ some '\n' := by
    intro hlast
    exact hline (hbegins.subset (List.mem_of_getLast? hlast))
  rw [hear, takeBytes_append _ h, hread]
  simp only [hsize, ne_eq, hlast, not_false_eq_true, and_self, if_true]

end hear

/-! ### A writer to run the model with

Commands are JSON objects. Every text goes through `escaped`, which leaves no line
break. -/

namespace Json

def escaped (c : Char) : List Char :=
  if c = '"' ∨ c = '\\' then ['\\', c]
  else if c.toNat < 32 then
    "\\u00".toList ++ [Nat.digitChar (c.toNat / 16), Nat.digitChar (c.toNat % 16)]
  else [c]

def plain (text : String) : List Char := text.toList.flatMap escaped

def quoted (text : String) : List Char := '"' :: plain text ++ ['"']

/-- An object, by its fields and what each is written as. -/
def object (fields : List (String × List Char)) : List Char :=
  '{' :: [','].intercalate (fields.map fun field => quoted field.1 ++ ':' :: field.2) ++ ['}']

def load : Option LoadId → List Char
  | none => plain "null"
  | some load => plain (toString load.id)

def className : RuleClass → String
  | .require => "require"
  | .prefer => "prefer"
  | .never => "never"

def fields : Command → List (String × List Char)
  | .addRule ruleClass kind value id =>
      [("cmd", quoted "add_rule"), ("class", quoted (className ruleClass)),
        ("kind", quoted (Rules.kindName kind)), ("value", quoted value.text), ("load", load id)]
  | .clearRules id => [("cmd", quoted "clear_rules"), ("load", load id)]
  | .setUpstream addr id =>
      [("cmd", quoted "set_upstream"), ("addr", quoted addr.text), ("load", load id)]
  | .setUpstreams addr fallbacks id =>
      [("cmd", quoted "set_upstreams"), ("addr", quoted addr.text),
        ("fallbacks", '[' :: [','].intercalate (fallbacks.map fun addr => quoted addr.text) ++ [']']),
        ("load", load id)]
  | .setListen http socks id =>
      [("cmd", quoted "set_listen"), ("http", quoted http.display),
        ("socks", quoted socks.display), ("load", load id)]
  | .addForward listen host port id =>
      [("cmd", quoted "add_forward"), ("listen", quoted listen.display),
        ("host", quoted host.name), ("port", plain (toString port.toNat)), ("load", load id)]
  | .reload none => [("cmd", quoted "reload"), ("path", plain "null")]
  | .reload (some path) => [("cmd", quoted "reload"), ("path", quoted path)]
  | .on => [("cmd", quoted "on")]
  | .off => [("cmd", quoted "off")]
  | .status => [("cmd", quoted "status")]
  | .rules => [("cmd", quoted "rules")]
  | .test host port =>
      [("cmd", quoted "test"), ("host", quoted host.name), ("port", plain (toString port.toNat))]
  | .doctor => [("cmd", quoted "doctor")]
  | .subscribe => [("cmd", quoted "subscribe")]

theorem notMem_escaped (c : Char) : '\n' ∉ escaped c := by
  unfold escaped
  split
  · next h => rcases h with rfl | rfl <;> decide
  · split
    · next h =>
        have hdigit : ∀ n < 16, '\n' ≠ Nat.digitChar n := by decide
        have hhigh := hdigit (c.toNat / 16) (by omega)
        have hlow := hdigit (c.toNat % 16) (by omega)
        simp [hhigh, hlow]
    · next h =>
        simp only [List.mem_singleton]
        rintro rfl
        exact h (by decide)

theorem notMem_plain (text : String) : '\n' ∉ plain text := by
  simp [plain, notMem_escaped]

theorem notMem_quoted (text : String) : '\n' ∉ quoted text := by
  simp [quoted, notMem_plain]

theorem notMem_intercalate {parts : List (List Char)} (h : ∀ part ∈ parts, '\n' ∉ part) :
    '\n' ∉ [','].intercalate parts := by
  induction parts with
  | nil => simp
  | cons part parts ih =>
      obtain ⟨hpart, hparts⟩ := List.forall_mem_cons.mp h
      cases parts with
      | nil => simpa using hpart
      | cons next more =>
          rw [List.intercalate_cons_cons]
          simp [hpart, ih hparts]

theorem notMem_load (id : Option LoadId) : '\n' ∉ load id := by
  cases id <;> exact notMem_plain _

theorem notMem_fields (command : Command) : ∀ field ∈ fields command, '\n' ∉ field.2 := by
  cases command with
  | setUpstreams addr fallbacks id =>
      have hlist : '\n' ∉ [','].intercalate (fallbacks.map fun addr => quoted addr.text) := by
        apply notMem_intercalate
        simp [notMem_quoted]
      simp [fields, notMem_quoted, notMem_load, hlist]
  | reload path => cases path <;> simp [fields, notMem_quoted, notMem_plain]
  | _ => simp [fields, notMem_quoted, notMem_plain, notMem_load]

theorem notMem_object {fields : List (String × List Char)}
    (h : ∀ field ∈ fields, '\n' ∉ field.2) : '\n' ∉ object fields := by
  have hparts : '\n' ∉ [','].intercalate
      (fields.map fun field => quoted field.1 ++ ':' :: field.2) := by
    apply notMem_intercalate
    intro part hpart
    obtain ⟨field, hfield, rfl⟩ := List.mem_map.mp hpart
    simp [notMem_quoted, h field hfield]
  simp [object, hparts]

end Json

@[reducible] def Wire.json : Wire where
  line command := Json.object (Json.fields command)
  oneLine command := Json.notMem_object (Json.notMem_fields command)

end Nhop.Cli
