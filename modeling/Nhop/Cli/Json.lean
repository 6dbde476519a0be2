import Nhop.Cli.Client
import Nhop.Foundation.Display

/-!
JSON objects that are written and read back.

The objects of the log hold texts, numbers and objects of these, and no blanks
between them. `readObject` reads one whose values some other reader reads, and
reads back what was written when that one does (`readObject_object`).
-/

namespace Nhop.Cli.Json

open Foundation

inductive Value
  | null
  | bool (value : Bool)
  /-- A number without a sign and a fraction. -/
  | number (value : ℕ)
  /-- Any other number, as it is written. -/
  | otherNumber (written : String)
  | text (value : String)
  | array (items : List Value)
  | object (members : List (String × Value))

/-! ### Texts -/

def readChar : Reader Char
  | '\\' :: 'u' :: '0' :: '0' :: high :: low :: cs => do
      let high ← digitOf 16 high
      let low ← digitOf 16 low
      return (Char.ofNat (16 * high + low), cs)
  | '\\' :: c :: cs => if c = '"' ∨ c = '\\' then some (c, cs) else none
  | c :: cs => if c = '"' ∨ c = '\\' ∨ c.toNat < 32 then none else some (c, cs)
  | [] => none

/-- Reads up to the closing quotation mark. -/
def readPlain : ℕ → Reader (List Char)
  | 0, _ => none
  | _ + 1, '"' :: cs => some ([], cs)
  | fuel + 1, cs => do
      let (c, cs) ← readChar cs
      let (text, cs) ← readPlain fuel cs
      return (c :: text, cs)

def readQuoted : Reader String
  | '"' :: cs => (readPlain (cs.length + 1) cs).map fun (text, cs) => (String.ofList text, cs)
  | _ => none

/-- A text or a number. -/
def readScalar : Reader Value := fun cs =>
  match readQuoted cs with
  | some (text, cs) => some (.text text, cs)
  | none => (readNumber 10 none false (2 ^ 64) cs).map fun (number, cs) => (.number number, cs)

/-! ### Objects -/

def readMembers (read : Reader Value) : ℕ → Reader (List (String × Value))
  | 0, _ => none
  | fuel + 1, cs => do
      let (name, cs) ← readQuoted cs
      let (_, cs) ← readGiven ':' cs
      let (value, cs) ← read cs
      match cs with
      | ',' :: cs =>
          let (members, cs) ← readMembers read fuel cs
          return ((name, value) :: members, cs)
      | '}' :: cs => some ([(name, value)], cs)
      | _ => none

def readObject (read : Reader Value) : Reader Value
  | '{' :: '}' :: cs => some (.object [], cs)
  | '{' :: cs => (readMembers read (cs.length + 1) cs).map fun (members, cs) => (.object members, cs)
  | _ => none

/-! ### Reading back -/

section texts

variable {text : List Char} {c : Char} {cs rest : List Char} {fuel : ℕ}

theorem readChar_escaped (c : Char) (cs : List Char) :
    readChar (escaped c ++ cs) = some (c, cs) ∧ ∀ rest, escaped c ++ cs ≠ '"' :: rest := by
  unfold escaped
  split_ifs with hmark hcontrol
  · rcases hmark with rfl | rfl
    · exact ⟨rfl, by simp⟩
    · exact ⟨rfl, by simp⟩
  · have hhigh : digitOf 16 (c.toNat / 16).digitChar = some (c.toNat / 16) :=
      digitOf_digitChar (by omega) le_rfl
    have hlow : digitOf 16 (c.toNat % 16).digitChar = some (c.toNat % 16) :=
      digitOf_digitChar (by omega) le_rfl
    have hc : 16 * (c.toNat / 16) + c.toNat % 16 = c.toNat := by omega
    constructor
    · simp [readChar, hhigh, hlow, hc]
    · simp
  · rw [not_or] at hmark
    constructor
    · simp [readChar, hmark, hcontrol]
    · simp [hmark]

theorem readPlain_text (hfuel : text.length < fuel) :
    readPlain fuel (text.flatMap escaped ++ '"' :: rest) = some (text, rest) := by
  induction text generalizing fuel with
  | nil =>
      obtain ⟨fuel, rfl⟩ : ∃ less, fuel = less + 1 := ⟨fuel - 1, by simp at hfuel; omega⟩
      rfl
  | cons c text ih =>
      obtain ⟨fuel, rfl⟩ : ∃ less, fuel = less + 1 := ⟨fuel - 1, by omega⟩
      obtain ⟨hread, hopen⟩ := readChar_escaped c (text.flatMap escaped ++ '"' :: rest)
      have hmore := ih (Nat.lt_of_succ_lt_succ hfuel)
      rw [List.flatMap_cons, List.append_assoc]
      rw [readPlain]
      · simp [hread, hmore]
      · exact hopen

theorem length_le_escaped (text : List Char) : text.length ≤ (text.flatMap escaped).length := by
  induction text with
  | nil => exact le_rfl
  | cons c text ih =>
      have hsome : 0 < (escaped c).length := by
        unfold escaped
        split_ifs <;> simp
      rw [List.flatMap_cons, List.length_append, List.length_cons]
      omega

/-- **A text is read back.** -/
theorem readQuoted_quoted (text : String) (rest : List Char) :
    readQuoted (quoted text ++ rest) = some (text, rest) := by
  have hlength := length_le_escaped text.toList
  have hread : readPlain ((plain text ++ '"' :: rest).length + 1) (plain text ++ '"' :: rest) =
      some (text.toList, rest) := by
    apply readPlain_text
    rw [List.length_append, plain]
    omega
  have htext : quoted text ++ rest = '"' :: (plain text ++ '"' :: rest) := by
    simp [quoted]
  rw [htext, readQuoted, hread]
  simp

end texts

section objects

variable {read : Reader Value} {write : Value → List Char} {name : String} {value : Value}
  {members : List (String × Value)} {rest : List Char} {fuel : ℕ}

/-- What a scalar is written as. -/
def scalar : Value → List Char
  | .text text => quoted text
  | .number number => (toString number).toList
  | _ => plain "null"

/-- Values that `readScalar` reads. -/
def IsScalar : Value → Prop
  | .text _ => True
  | .number number => number < 2 ^ 64
  | _ => False

/-- Text behind a value of an object. -/
def EndsValue (rest : List Char) : Prop := ∃ c more, rest = c :: more ∧ (c = ',' ∨ c = '}')

theorem EndsValue.noDigit (h : EndsValue rest) : NoDigit 10 rest := by
  obtain ⟨c, more, rfl, rfl | rfl⟩ := h
  · show digitOf 10 ',' = none
    decide
  · show digitOf 10 '}' = none
    decide

/-- Whether a value is read back in front of what follows it in an object. -/
def ReadsBack (read : Reader Value) (write : Value → List Char) (value : Value) : Prop :=
  ∀ rest, EndsValue rest → read (write value ++ rest) = some (value, rest)

theorem readsBack_scalar (h : IsScalar value) : ReadsBack readScalar scalar value := by
  intro rest hrest
  cases value with
  | text text => simp [readScalar, scalar, readQuoted_quoted]
  | number number =>
      have hread : readNumber 10 none false (2 ^ 64) (Nat.toDigits 10 number ++ rest) =
          some (number, rest) :=
        readNumber_toDigits (by omega) (by omega) h (by simp) hrest.noDigit
      have hnot : readQuoted (Nat.toDigits 10 number ++ rest) = none := by
        obtain ⟨c, cs, hcs⟩ := List.exists_cons_of_ne_nil (@Nat.toDigits_ne_nil number 10)
        have hc : c ∈ Nat.toDigits 10 number := by
          rw [hcs]
          exact List.mem_cons_self ..
        have hmark : c ≠ '"' := by
          rintro rfl
          exact absurd (mem_toDigits (by omega) (by omega) hc) (by decide)
        rw [hcs, List.cons_append, readQuoted]
        simpa using hmark
      simp only [readScalar, scalar, toList_toString, hnot, hread, Option.map_some]
  | _ => cases h

/-- What a member is written as. -/
def member (write : Value → List Char) (field : String × Value) : List Char :=
  quoted field.1 ++ ':' :: write field.2

theorem readMembers_members (hne : members ≠ [])
    (hread : ∀ field ∈ members, ReadsBack read write field.2) (hfuel : members.length ≤ fuel) :
    readMembers read fuel ([','].intercalate (members.map (member write)) ++ '}' :: rest) =
      some (members, rest) := by
  induction members generalizing fuel with
  | nil => exact absurd rfl hne
  | cons field members ih =>
      obtain ⟨fuel, rfl⟩ : ∃ less, fuel = less + 1 := ⟨fuel - 1, by simp at hfuel; omega⟩
      obtain ⟨hfield, hmembers⟩ := List.forall_mem_cons.mp hread
      have hfirst (more : List Char) : readQuoted (member write field ++ more) =
          some (field.1, ':' :: (write field.2 ++ more)) := by
        rw [member, List.append_assoc, List.cons_append, readQuoted_quoted]
      cases members with
      | nil =>
          have hvalue := hfield ('}' :: rest) ⟨_, _, rfl, Or.inr rfl⟩
          simp [readMembers, hfirst, readGiven, hvalue]
      | cons next members =>
          have hlater := ih (by simp) hmembers (Nat.le_of_succ_le_succ hfuel)
          have htext : [','].intercalate ((field :: next :: members).map (member write)) ++ '}' :: rest =
              member write field ++
                ',' :: ([','].intercalate ((next :: members).map (member write)) ++ '}' :: rest) := by
            simp [List.intercalate_cons_cons]
          rw [htext]
          generalize [','].intercalate ((next :: members).map (member write)) ++ '}' :: rest = more
            at hlater
          have hvalue := hfield (',' :: more) ⟨_, _, rfl, Or.inl rfl⟩
          simp [readMembers, hfirst, readGiven, hvalue, hlater]

theorem length_le_members (members : List (String × Value)) :
    members.length ≤ ([','].intercalate (members.map (member write))).length := by
  induction members with
  | nil => simp
  | cons field members ih =>
      have hsome : 0 < (member write field).length := by simp [member, quoted]
      cases members with
      | nil =>
          rw [List.map_cons, List.map_nil, List.intercalate_singleton]
          exact hsome
      | cons next members =>
          simp only [List.map_cons, List.intercalate_cons_cons, List.length_append,
            List.length_cons, List.length_nil] at ih ⊢
          omega

/-- **An object is read back** when its values are. -/
theorem readObject_object (hread : ∀ field ∈ members, ReadsBack read write field.2) :
    readObject read (object (members.map fun field => (field.1, write field.2)) ++ rest) =
      some (.object members, rest) := by
  have htext : object (members.map fun field => (field.1, write field.2)) ++ rest =
      '{' :: ([','].intercalate (members.map (member write)) ++ '}' :: rest) := by
    rw [object, List.map_map, List.append_assoc, List.cons_append]
    rfl
  rw [htext]
  cases members with
  | nil => simp [readObject]
  | cons field members =>
      let written := [','].intercalate ((field :: members).map (member write)) ++ '}' :: rest
      have hlength := @length_le_members write (field :: members)
      have hfuel : (field :: members).length ≤ written.length + 1 := by
        rw [List.length_append]
        omega
      have hmembers : readMembers read (written.length + 1) written =
          some (field :: members, rest) :=
        readMembers_members (List.cons_ne_nil field members) hread hfuel
      have hopen : ∃ more, written = '"' :: more := by
        cases members <;> simp [written, member, quoted, List.intercalate_cons_cons]
      obtain ⟨more, hmore⟩ := hopen
      show readObject read ('{' :: written) = _
      rw [hmore] at hmembers ⊢
      have hobject : readObject read ('{' :: '"' :: more) =
          (readMembers read (('"' :: more).length + 1) ('"' :: more)).map
            fun (members, cs) => (.object members, cs) := rfl
      rw [hobject, hmembers, Option.map_some]

/-- A scalar, or an object of scalars. -/
def readNested : Reader Value := fun cs =>
  match readScalar cs with
  | some read => some read
  | none => readObject readScalar cs

def nested : Value → List Char
  | .object members => object (members.map fun field => (field.1, scalar field.2))
  | value => scalar value

/-- Values that `readNested` reads. -/
def IsNested : Value → Prop
  | .object members => ∀ field ∈ members, IsScalar field.2
  | value => IsScalar value

theorem readsBack_nested (h : IsNested value) : ReadsBack readNested nested value := by
  intro rest hrest
  cases value with
  | object members =>
      have hopen (cs : List Char) : readScalar ('{' :: cs) = none := rfl
      have hread := @readObject_object readScalar scalar members rest
        fun field hfield => readsBack_scalar (h field hfield)
      have hscalar : readScalar (nested (.object members) ++ rest) = none := hopen _
      rw [readNested, hscalar]
      exact hread
  | text text =>
      have hread := @readsBack_scalar (.text text) h rest hrest
      simp only [readNested, nested, hread]
  | number number =>
      have hread := @readsBack_scalar (.number number) h rest hrest
      simp only [readNested, nested, hread]
  | _ => cases h

/-- The objects of the log. -/
def parse (text : List Char) : Option Value :=
  match readObject readNested text with
  | some (value, []) => some value
  | _ => none

theorem parse_object (h : ∀ field ∈ members, IsNested field.2) :
    parse (object (members.map fun field => (field.1, nested field.2))) =
      some (.object members) := by
  have hread := @readObject_object readNested nested members []
    fun field hfield => readsBack_nested (h field hfield)
  rw [List.append_nil] at hread
  rw [parse, hread]

end objects

end Nhop.Cli.Json
