import Nhop.Cli.Client
import Nhop.Foundation.Utf8

/-!
One connection of a client, byte by byte.

The daemon reads a line at a time, and no more than `lineLimit` bytes of one. A
line that is longer is refused, and nothing behind those bytes is looked at. They
are read as a text before they are refused, though: where they end inside a
character there is no refusal, and the client is hung up on. That is the only way
a conversation in UTF-8 goes wrong (`converse_framed_iff`).

The client is one that reads what it is answered. What the daemon makes of a
command is open, and so are the reader of commands and the writer of answers.
-/

namespace Nhop.Daemon

open Foundation Ipc
open Cli (lineLimit oversized hear Heard takeBytes byteCount)

/-- The reader of commands and the writer of answers. What an answer is written as
has no line break. -/
class Codec where
  read : String → Except String Command
  write : Response → List Char
  oneLine : ∀ response, '\n' ∉ write response

/-- How a connection ends for the daemon. -/
inductive Ending
  /-- The client sends nothing more. -/
  | closed
  /-- A line was too long. -/
  | refused
  /-- What was read is no text. -/
  | failed
  /-- The connection is a subscriber's from here on. -/
  | streams
  deriving DecidableEq, Repr

/-- What became of a connection: the lines that were read as commands, what they
were answered, and how it ended. -/
structure Talk where
  heard : List String
  answers : List Response
  ending : Ending
  deriving DecidableEq, Repr

/-- The conversation before which a line was answered. -/
def Talk.after (line : String) (answer : Response) (talk : Talk) : Talk :=
  { talk with heard := line :: talk.heard, answers := answer :: talk.answers }

variable {bytes : List UInt8} {text line : List Char} {read asked : ℕ}

/-- Reads up to and including the next line break, and the number of bytes that
takes. Fails when they are no text. -/
def readLine (bytes : List UInt8) : Option (List Char × ℕ) :=
  let read := upTo (byteOf '\n') (bytes.take lineLimit)
  (utf8Text read).map fun line => (line, read.length)

theorem length_drop_lt (h : readLine bytes = some (line, read)) (hread : read ≠ 0) :
    (bytes.drop read).length < bytes.length := by
  obtain ⟨_, _, hpair⟩ := Option.map_eq_some_iff.mp h
  obtain ⟨_, rfl⟩ := Prod.mk.inj hpair
  have hbegins := (upTo_begins (byteOf '\n') (bytes.take lineLimit)).length_le
  have htake := (List.take_prefix lineLimit bytes).length_le
  rw [List.length_drop]
  omega

section converse

variable [Codec] (call : ℕ → Command → Response)

/-- Talks to a client that sends these bytes. The daemon has answered `asked` lines
of it before; what it answers a command is `call`'s. -/
def converse (asked : ℕ) (bytes : List UInt8) : Talk :=
  match hline : readLine bytes with
  | none => ⟨[], [], .failed⟩
  | some (line, read) =>
      if hread : read = 0 then ⟨[], [], .closed⟩
      else if read = lineLimit ∧ line.getLast? ≠ some '\n' then ⟨[], [oversized], .refused⟩
      else
        have := length_drop_lt hline hread
        let line := trim (String.ofList line)
        if line = "" then converse asked (bytes.drop read)
        else
          match Codec.read line with
          | .ok .subscribe => ⟨[line], [], .streams⟩
          | .ok command =>
              (converse (asked + 1) (bytes.drop read)).after line (call asked command)
          | .error failure =>
              (converse (asked + 1) (bytes.drop read)).after line (.err .invalidArgs failure)
  termination_by bytes.length

/-- An answer as it is written on the connection. -/
def answerLine (response : Response) : List Char := Codec.write response ++ ['\n']

/-- What the client receives. -/
def Talk.wire (talk : Talk) : List Char := talk.answers.flatMap answerLine

/-! ### What a conversation should be -/

/-- The number of bytes of a line, the line break included that ends it. The last
line may lack one. -/
def lineSize (line : List Char) : ℕ :=
  if ended '\n' line then (utf8Bytes line).length else (utf8Bytes line).length + 1

def fits (line : List Char) : Bool := lineSize line ≤ lineLimit

/-- The lines before the first that is too long. -/
def fitting (text : List Char) : List (List Char) := (splitInclusive '\n' text).takeWhile fits

/-- The first line that is too long. -/
def tooLong (text : List Char) : Option (List Char) :=
  ((splitInclusive '\n' text).dropWhile fits).head?

/-- Those of the lines that are not blank, without the blanks around them. -/
def spoken (lines : List (List Char)) : List String :=
  (lines.map fun line => trim (String.ofList line)).filter (· ≠ "")

def answerTo (asked : ℕ) (line : String) : Response :=
  match Codec.read line with
  | .ok command => call asked command
  | .error failure => .err .invalidArgs failure

/-- The client is answered one line for every line that is not blank before the
first that is too long, in order, and one for that. No other line is read as a
command. -/
structure Framed (text : List Char) (talk : Talk) : Prop where
  heard : talk.heard = spoken (fitting text)
  answered : splitInclusive '\n' talk.wire =
    ((spoken (fitting text)).mapIdx (answerTo call) ++
      ((tooLong text).map fun _ => oversized).toList).map answerLine

end converse

/-! ### Reading one line -/

section readLine

theorem oneByte_lineBreak : OneByte '\n' := by
  unfold OneByte
  decide

theorem readLine_utf8Bytes (text : List Char) :
    readLine (utf8Bytes text) =
      (utf8Text ((utf8Bytes (upTo '\n' text)).take lineLimit)).map fun line =>
        (line, ((utf8Bytes (upTo '\n' text)).take lineLimit).length) := by
  rw [readLine, upTo_take, upTo_utf8Bytes oneByte_lineBreak]

theorem lineLimit_le (h : fits line = false) : lineLimit ≤ (utf8Bytes line).length := by
  rw [fits, decide_eq_false_iff_not, lineSize] at h
  split_ifs at h <;> omega

/-- A line that fits is read whole. -/
theorem readLine_fits (h : fits (upTo '\n' text) = true) :
    readLine (utf8Bytes text) =
      some (upTo '\n' text, (utf8Bytes (upTo '\n' text)).length) ∧
    ¬((utf8Bytes (upTo '\n' text)).length = lineLimit ∧
      (upTo '\n' text).getLast? ≠ some '\n') := by
  have hsize := of_decide_eq_true h
  unfold lineSize at hsize
  refine ⟨?_, ?_⟩
  · have hshort : (utf8Bytes (upTo '\n' text)).length ≤ lineLimit := by
      split_ifs at hsize <;> omega
    rw [readLine_utf8Bytes, List.take_of_length_le hshort, utf8Text_utf8Bytes, Option.map_some]
  · rintro ⟨hfull, hlast⟩
    have hopen : ended '\n' (upTo '\n' text) = false := by
      simpa [ended] using hlast
    rw [hopen] at hsize
    simp only [Bool.false_eq_true, if_false] at hsize
    omega

/-- Of a line that is too long the first bytes are read when they are a text, and
no line break is among them. -/
theorem readLine_whole (h : fits (upTo '\n' text) = false)
    (hcut : AtChar (upTo '\n' text) lineLimit) :
    ∃ before, readLine (utf8Bytes text) = some (before, lineLimit) ∧
      before.getLast? ≠ some '\n' := by
  obtain ⟨before, behind, hline, hbefore⟩ := hcut
  have htake : (utf8Bytes (upTo '\n' text)).take lineLimit = utf8Bytes before := by
    rw [hline, utf8Bytes_append, ← hbefore, List.take_left]
  refine ⟨before, ?_, ?_⟩
  · rw [readLine_utf8Bytes, htake, utf8Text_utf8Bytes, Option.map_some, hbefore]
  · intro hlast
    by_cases hbehind : behind = []
    · rw [hbehind, List.append_nil] at hline
      rw [fits, decide_eq_false_iff_not, lineSize, hline] at h
      simp only [ended, hlast, beq_self_eq_true, if_true, hbefore] at h
      exact h le_rfl
    · exact notMem_of_upTo hline hbehind (List.mem_of_getLast? hlast)

theorem readLine_inside (h : fits (upTo '\n' text) = false)
    (hcut : ¬AtChar (upTo '\n' text) lineLimit) : readLine (utf8Bytes text) = none := by
  have hnone : utf8Text ((utf8Bytes (upTo '\n' text)).take lineLimit) = none := by
    rw [← Option.not_isSome_iff_eq_none, utf8Text_take (lineLimit_le h)]
    exact hcut
  rw [readLine_utf8Bytes, hnone, Option.map_none]

theorem length_utf8Bytes (text : List Char) : (utf8Bytes text).length = byteCount text := by
  induction text with
  | nil => rfl
  | cons c text ih =>
      rw [utf8Bytes_cons, List.length_append, String.length_utf8EncodeChar, ih, Cli.byteCount_cons]

/-- The first bytes of a text are the text they are read as. -/
theorem takeBytes_eq (n : ℕ) (text : List Char) :
    takeBytes n text = utf8Text ((utf8Bytes text).take n) := by
  rcases Nat.lt_or_ge n (utf8Bytes text).length with hlt | hle
  · cases htake : takeBytes n text with
    | some read =>
        rw [length_utf8Bytes] at hlt
        obtain ⟨⟨behind, rfl⟩, hsize⟩ := Cli.takeBytes_eq_some htake hlt.le
        rw [utf8Bytes_append, ← hsize, ← length_utf8Bytes, List.take_left, utf8Text_utf8Bytes]
    | none =>
        rw [eq_comm, ← Option.not_isSome_iff_eq_none, utf8Text_take hlt.le]
        rintro ⟨before, behind, rfl, rfl⟩
        rw [length_utf8Bytes, Cli.takeBytes_append behind le_rfl,
          Cli.takeBytes_of_le le_rfl] at htake
        cases htake
  · have hsize := hle
    rw [length_utf8Bytes] at hsize
    rw [Cli.takeBytes_of_le hsize, List.take_of_length_le hle, utf8Text_utf8Bytes]

theorem hear_eq (hline : upTo '\n' line = line) :
    hear line =
      match readLine (utf8Bytes line) with
      | none => .hangUp
      | some (read, count) =>
          if count = lineLimit ∧ read.getLast? ≠ some '\n' then .oversized else .whole := by
  rw [readLine_utf8Bytes, hline, hear, takeBytes_eq]
  cases hread : utf8Text ((utf8Bytes line).take lineLimit) with
  | none => rfl
  | some read =>
      rw [Option.map_some, utf8Text_eq_some.mp hread, length_utf8Bytes]

end readLine

/-! ### The lines of a text -/

section lines

theorem spoken_cons (line : List Char) (lines : List (List Char)) :
    spoken (line :: lines) =
      if trim (String.ofList line) = "" then spoken lines
      else trim (String.ofList line) :: spoken lines := by
  simp only [spoken, List.map_cons, List.filter_cons]
  split_ifs <;> simp_all

theorem drop_utf8Bytes (text : List Char) :
    (utf8Bytes text).drop (utf8Bytes (upTo '\n' text)).length =
      utf8Bytes (text.drop (upTo '\n' text).length) := by
  obtain ⟨rest, hrest⟩ := upTo_begins '\n' text
  have hdrop : text.drop (upTo '\n' text).length = rest :=
    (List.append_cancel_left (by rw [hrest, List.prefix_iff_eq_append.mp ⟨rest, hrest⟩])).symm
  have hbytes : utf8Bytes text = utf8Bytes (upTo '\n' text) ++ utf8Bytes rest := by
    rw [← utf8Bytes_append, hrest]
  rw [hdrop, hbytes, List.drop_left]

theorem fitting_of_fits (hne : text ≠ []) (h : fits (upTo '\n' text) = true) :
    fitting text = upTo '\n' text :: fitting (text.drop (upTo '\n' text).length) ∧
      tooLong text = tooLong (text.drop (upTo '\n' text).length) := by
  rw [fitting, tooLong, splitInclusive_eq_upTo hne, List.takeWhile_cons_of_pos h,
    List.dropWhile_cons_of_pos h]
  exact ⟨rfl, rfl⟩

theorem fitting_of_tooLong (hne : text ≠ []) (h : fits (upTo '\n' text) = false) :
    fitting text = [] ∧ tooLong text = some (upTo '\n' text) := by
  have hnot : ¬fits (upTo '\n' text) = true := by
    rw [h]
    exact Bool.false_ne_true
  rw [fitting, tooLong, splitInclusive_eq_upTo hne, List.takeWhile_cons_of_neg hnot,
    List.dropWhile_cons_of_neg hnot]
  exact ⟨rfl, rfl⟩

theorem fits_of_tooLong (h : tooLong text = some line) : fits line = false := by
  have hhead := List.head?_dropWhile_not fits (splitInclusive '\n' text)
  rw [tooLong] at h
  rw [h] at hhead
  simpa using hhead

/-- What the first line that is too long is answered. -/
def refusal (text : List Char) : Option Response :=
  (tooLong text).bind fun line =>
    (utf8Text ((utf8Bytes line).take lineLimit)).map fun _ => oversized

end lines

/-! ### The conversation -/

section framed

variable [Codec] {call : ℕ → Command → Response}

theorem converse_some (h : readLine bytes = some (line, read)) :
    converse call asked bytes =
      if read = 0 then ⟨[], [], .closed⟩
      else if read = lineLimit ∧ line.getLast? ≠ some '\n' then ⟨[], [oversized], .refused⟩
      else if trim (String.ofList line) = "" then converse call asked (bytes.drop read)
      else
        match Codec.read (trim (String.ofList line)) with
        | .ok .subscribe => ⟨[trim (String.ofList line)], [], .streams⟩
        | .ok command =>
            (converse call (asked + 1) (bytes.drop read)).after (trim (String.ofList line))
              (call asked command)
        | .error failure =>
            (converse call (asked + 1) (bytes.drop read)).after (trim (String.ofList line))
              (.err .invalidArgs failure) := by
  rw [converse]
  split
  · next hnone =>
      rw [h] at hnone
      cases hnone
  · next hsome =>
      rw [h] at hsome
      cases hsome
      rfl

theorem converse_none (h : readLine bytes = none) :
    converse call asked bytes = ⟨[], [], .failed⟩ := by
  rw [converse]
  split
  · rfl
  · next hsome =>
      rw [h] at hsome
      cases hsome

/-- What the daemon hears and answers, from the first line on. -/
structure Answered (call : ℕ → Command → Response) (asked : ℕ) (text : List Char)
    (talk : Talk) : Prop where
  heard : talk.heard = spoken (fitting text)
  answers : talk.answers =
    (spoken (fitting text)).mapIdx (fun i => answerTo call (asked + i)) ++ (refusal text).toList

/-- A line that fits is answered before those behind it, unless it is blank. -/
theorem answered_fits (hne : text ≠ []) (hfits : fits (upTo '\n' text) = true)
    (hplain : Codec.read (trim (String.ofList (upTo '\n' text))) ≠ .ok .subscribe)
    (hrest : ∀ asked, Answered call asked (text.drop (upTo '\n' text).length)
      (converse call asked (utf8Bytes (text.drop (upTo '\n' text).length)))) :
    Answered call asked text (converse call asked (utf8Bytes text)) := by
  obtain ⟨hread, hwhole⟩ := readLine_fits hfits
  obtain ⟨hfitting, htooLong⟩ := fitting_of_fits hne hfits
  have hsome : (utf8Bytes (upTo '\n' text)).length ≠ 0 := by
    rw [Ne, List.length_eq_zero_iff]
    exact utf8Bytes_ne_nil (upTo_ne_nil hne)
  have hrefusal : refusal text = refusal (text.drop (upTo '\n' text).length) := by
    rw [refusal, htooLong, refusal]
  rw [converse_some hread, if_neg hsome, if_neg hwhole, drop_utf8Bytes]
  by_cases hblank : trim (String.ofList (upTo '\n' text)) = ""
  · rw [if_pos hblank]
    have hlater := hrest asked
    constructor
    · rw [hlater.heard, hfitting, spoken_cons, if_pos hblank]
    · rw [hlater.answers, hfitting, spoken_cons, if_pos hblank, hrefusal]
  · rw [if_neg hblank]
    have hlater := hrest (asked + 1)
    have hanswer : Answered call asked text
        ((converse call (asked + 1) (utf8Bytes (text.drop (upTo '\n' text).length))).after
          (trim (String.ofList (upTo '\n' text)))
          (answerTo call asked (trim (String.ofList (upTo '\n' text))))) := by
      constructor
      · rw [Talk.after, hlater.heard, hfitting, spoken_cons, if_neg hblank]
      · rw [Talk.after, hlater.answers, hfitting, spoken_cons, if_neg hblank, hrefusal]
        simp [List.mapIdx_cons, Nat.add_assoc, Nat.add_comm 1]
    cases hcommand : Codec.read (trim (String.ofList (upTo '\n' text))) with
    | error failure => simpa only [answerTo, hcommand] using hanswer
    | ok command =>
        cases command with
        | subscribe => exact absurd hcommand hplain
        | _ => simpa only [answerTo, hcommand] using hanswer

/-- A line that is too long is the last thing the daemon looks at. -/
theorem answered_tooLong (hne : text ≠ []) (hfits : fits (upTo '\n' text) = false) :
    Answered call asked text (converse call asked (utf8Bytes text)) := by
  obtain ⟨hfitting, htooLong⟩ := fitting_of_tooLong hne hfits
  by_cases hcut : AtChar (upTo '\n' text) lineLimit
  · obtain ⟨before, hread, hlast⟩ := readLine_whole hfits hcut
    have hsome := (utf8Text_take (lineLimit_le hfits)).mpr hcut
    obtain ⟨read, htext⟩ := Option.isSome_iff_exists.mp hsome
    have hlimit : ¬lineLimit = 0 := by decide
    rw [converse_some hread, if_neg hlimit, if_pos ⟨rfl, hlast⟩]
    constructor
    · rw [hfitting]
      rfl
    · rw [hfitting, refusal, htooLong, Option.bind_some, htext]
      rfl
  · have hnone := (utf8Text_take (lineLimit_le hfits)).not.mpr hcut
    rw [Option.not_isSome_iff_eq_none] at hnone
    rw [converse_none (readLine_inside hfits hcut)]
    constructor
    · rw [hfitting]
      rfl
    · rw [hfitting, refusal, htooLong, Option.bind_some, hnone]
      rfl

/-- The answers to a client that sends a text. The induction is on its lines. -/
theorem answered (asked : ℕ) (text : List Char)
    (hplain : ∀ line ∈ splitInclusive '\n' text,
      Codec.read (trim (String.ofList line)) ≠ .ok .subscribe) :
    Answered call asked text (converse call asked (utf8Bytes text)) := by
  induction text using lines_induction '\n' generalizing asked with
  | nil =>
      have hfits : fits (upTo '\n' []) = true := by decide
      rw [converse_some (@readLine_fits [] hfits).1]
      exact ⟨rfl, rfl⟩
  | cons text hne ih =>
      have hsplit := @splitInclusive_eq_upTo _ _ '\n' _ hne
      rw [hsplit, List.forall_mem_cons] at hplain
      cases hfits : fits (upTo '\n' text) with
      | true => exact answered_fits hne hfits hplain.1 fun asked => ih asked hplain.2
      | false => exact answered_tooLong hne hfits

theorem closed_answerLine (response : Response) : Closed '\n' (answerLine response) := by
  right
  simp [answerLine]

/-- Every answer is one line of what the client receives. -/
theorem splitInclusive_wire (talk : Talk) :
    splitInclusive '\n' talk.wire = talk.answers.map answerLine := by
  rw [Talk.wire]
  induction talk.answers with
  | nil => rfl
  | cons response responses ih =>
      have hone : splitInclusive '\n' (answerLine response) = [answerLine response] := by
        have hfirst : upTo '\n' (answerLine response) = answerLine response := by
          rw [answerLine, upTo_append_of_notMem (Codec.oneLine response)]
          rfl
        rw [splitInclusive_eq_upTo (by simp [answerLine]), hfirst, List.drop_length]
        rfl
      rw [List.flatMap_cons, splitInclusive_append (closed_answerLine response), hone, ih]
      rfl

variable (hplain : ∀ line ∈ splitInclusive '\n' text,
  Codec.read (trim (String.ofList line)) ≠ .ok .subscribe)

include hplain

/-- Where the first line that is too long is cut behind a character, or there is
none, the client is answered as it should be. -/
theorem framed_of_atChar (hcut : ∀ line, tooLong text = some line → AtChar line lineLimit) :
    Framed call text (converse call 0 (utf8Bytes text)) := by
  have hanswered := @answered _ call 0 text hplain
  refine ⟨hanswered.heard, ?_⟩
  have hrefusal : refusal text = (tooLong text).map fun _ => oversized := by
    cases htooLong : tooLong text with
    | none => rw [refusal, htooLong, Option.bind_none, Option.map_none]
    | some line =>
        have hsome := (utf8Text_take (lineLimit_le (fits_of_tooLong htooLong))).mpr
          (hcut line htooLong)
        obtain ⟨read, hread⟩ := Option.isSome_iff_exists.mp hsome
        rw [refusal, htooLong, Option.bind_some, hread, Option.map_some, Option.map_some]
  rw [splitInclusive_wire, hanswered.answers, hrefusal]
  simp only [Nat.zero_add]

theorem not_framed_of_inside (htooLong : tooLong text = some line)
    (hcut : ¬AtChar line lineLimit) : ¬Framed call text (converse call 0 (utf8Bytes text)) := by
  intro hframed
  have hanswered := @answered _ call 0 text hplain
  have hnone := (utf8Text_take (lineLimit_le (fits_of_tooLong htooLong))).not.mpr hcut
  rw [Option.not_isSome_iff_eq_none] at hnone
  have hrefusal : refusal text = none := by
    rw [refusal, htooLong, Option.bind_some, hnone, Option.map_none]
  have hlength := congrArg List.length hframed.answered
  rw [splitInclusive_wire, hanswered.answers, hrefusal, htooLong] at hlength
  simp at hlength

omit hplain

/-- **Lines and answers.** A client that sends a text without a `subscribe` is
answered as it should be exactly when the first line of it that is too long, if
there is one, is cut behind a character. -/
theorem converse_framed_iff (text : List Char)
    (hplain : ∀ line ∈ splitInclusive '\n' text,
      Codec.read (trim (String.ofList line)) ≠ .ok .subscribe) :
    Framed call text (converse call 0 (utf8Bytes text)) ↔
      ∀ line, tooLong text = some line → AtChar line lineLimit := by
  constructor
  · intro hframed line htooLong
    by_contra hcut
    exact not_framed_of_inside hplain htooLong hcut hframed
  · exact framed_of_atChar hplain

end framed

/-! ### Two conversations

The commands without arguments and the answers without a payload are enough for
them. -/

namespace Codec

def kindName : ErrKind → String
  | .notFound => "not_found"
  | .upstreamDown => "upstream_down"
  | .invalidArgs => "invalid_args"
  | .loadInProgress => "load_in_progress"
  | .internal => "internal"

def response : Response → List Char
  | .err kind message =>
      Cli.Json.object [("resp", Cli.Json.quoted "err"),
        ("data", Cli.Json.object [("kind", Cli.Json.quoted (kindName kind)),
          ("message", Cli.Json.quoted message)])]
  | _ => Cli.Json.object [("resp", Cli.Json.quoted "ok")]

theorem notMem_response (answer : Response) : '\n' ∉ response answer := by
  unfold response
  split
  · apply Cli.Json.notMem_object
    intro field hfield
    rcases List.mem_pair.mp hfield with rfl | rfl
    · exact Cli.Json.notMem_quoted _
    · apply Cli.Json.notMem_object
      simp [Cli.Json.notMem_quoted]
  · apply Cli.Json.notMem_object
    simp [Cli.Json.notMem_quoted]

/-- The commands without arguments. -/
def plain : List Command := [.on, .off, .status, .rules, .doctor, .subscribe]

def readPlain (line : String) : Except String Command :=
  match plain.find? fun command => Cli.Json.object (Cli.Json.fields command) == line.toList with
  | some command => .ok command
  | none => .error "expected value at line 1 column 1"

@[reducible] def brief : Codec where
  read := readPlain
  write := response
  oneLine := notMem_response

theorem toList_of_readPlain {line : String} {command : Command}
    (h : readPlain line = .ok command) :
    line.toList = Cli.Json.object (Cli.Json.fields command) := by
  cases hfind : plain.find? fun command =>
      Cli.Json.object (Cli.Json.fields command) == line.toList with
  | none =>
      rw [readPlain, hfind] at h
      cases h
  | some found =>
      rw [readPlain, hfind] at h
      cases h
      have hfound := List.find?_some hfind
      exact (beq_iff_eq.mp hfound).symm

end Codec

/-- A line that is one byte short of the limit before its last characters. -/
def wide (last : List Char) : List Char := List.replicate (lineLimit - 1) 'x' ++ (last ++ ['\n'])

section wide

variable {last : List Char}

theorem splitInclusive_wide (h : '\n' ∉ last) : splitInclusive '\n' (wide last) = [wide last] := by
  have hbody : '\n' ∉ List.replicate (lineLimit - 1) 'x' ++ last := by
    simp [List.mem_replicate, h]
  have hline : upTo '\n' (wide last) = wide last := by
    rw [wide, ← List.append_assoc, upTo_append_of_notMem hbody]
    rfl
  rw [splitInclusive_eq_upTo (by simp [wide]), hline, List.drop_length]
  rfl

theorem length_utf8Bytes_wide (text : List Char) :
    (utf8Bytes (List.replicate (lineLimit - 1) 'x' ++ text)).length =
      lineLimit - 1 + (utf8Bytes text).length := by
  have hone : 'x'.utf8Size = 1 := by decide
  rw [utf8Bytes_append, List.length_append, length_utf8Bytes, byteCount, List.map_replicate, hone]
  simp

theorem fits_wide (h : last ≠ []) : fits (wide last) = false := by
  have hsize := length_utf8Bytes_wide (last ++ ['\n'])
  have hlast := List.length_pos_of_ne_nil (utf8Bytes_ne_nil h)
  have htail : (utf8Bytes (last ++ ['\n'])).length = (utf8Bytes last).length + 1 := by
    rw [utf8Bytes_append, List.length_append]
    rfl
  have hlimit : 0 < lineLimit := by decide
  rw [fits, decide_eq_false_iff_not, lineSize, wide]
  split_ifs <;> omega

theorem mem_trim {text : List Char} {c : Char} (hmem : c ∈ text) (hc : isWhitespace c = false) :
    c ∈ (trim (String.ofList text)).toList := by
  have hkept {cs : List Char} (h : c ∈ cs) : c ∈ cs.dropWhile isWhitespace := by
    rw [← @List.takeWhile_append_dropWhile _ isWhitespace cs, List.mem_append] at h
    rcases h with hblank | hrest
    · rw [List.mem_takeWhile_imp hblank] at hc
      cases hc
    · exact hrest
  rw [trim, String.toList_ofList, String.toList_ofList, List.mem_reverse]
  exact hkept (List.mem_reverse.mpr (hkept hmem))

theorem read_wide {line : List Char} (h : line = wide last) :
    @Codec.read Codec.brief (trim (String.ofList line)) ≠ .ok .subscribe := by
  intro hread
  subst h
  have hmem : 'x' ∈ wide last := List.mem_append_left _ (List.mem_replicate.mpr ⟨by decide, rfl⟩)
  have hnone : 'x' ∉ Cli.Json.object (Cli.Json.fields .subscribe) := by decide +kernel
  apply hnone
  rw [← Codec.toList_of_readPlain hread]
  exact mem_trim hmem (by decide)

end wide

/-- A blank line, a command and a line that is none. -/
def opening : List Char := "\n\x7b\"cmd\":\"on\"\x7d\nhello\n".toList

/-- A line that is too long behind them. -/
def greeting : List Char := opening ++ wide ['x', 'x']

theorem splitInclusive_greeting :
    splitInclusive '\n' greeting = splitInclusive '\n' opening ++ [wide ['x', 'x']] := by
  have hclosed : Closed '\n' opening := Or.inr (by decide)
  rw [greeting, splitInclusive_append hclosed, splitInclusive_wide (by decide)]

theorem tooLong_greeting : tooLong greeting = some (wide ['x', 'x']) := by
  have hopening : ∀ line ∈ splitInclusive '\n' opening, fits line = true := by decide +kernel
  have hlong : ¬fits (wide ['x', 'x']) = true := by
    rw [fits_wide (List.cons_ne_nil _ _)]
    exact Bool.false_ne_true
  rw [tooLong, splitInclusive_greeting, List.dropWhile_append_of_pos hopening,
    List.dropWhile_cons_of_neg hlong]
  rfl

/-- A conversation of short lines and one that is too long. -/
theorem converse_framed_greeting :
    tooLong greeting = some (wide ['x', 'x']) ∧
    @Framed Codec.brief (fun _ _ => .ok) greeting
      (@converse Codec.brief (fun _ _ => .ok) 0 (utf8Bytes greeting)) := by
  have hplain : ∀ line ∈ splitInclusive '\n' greeting,
      @Codec.read Codec.brief (trim (String.ofList line)) ≠ .ok .subscribe := by
    have hopening : ∀ line ∈ splitInclusive '\n' opening,
        @Codec.read Codec.brief (trim (String.ofList line)) ≠ .ok .subscribe := by decide +kernel
    rw [splitInclusive_greeting]
    intro line hline
    rcases List.mem_append.mp hline with hshort | hlong
    · exact hopening line hshort
    · exact read_wide (List.mem_singleton.mp hlong)
  refine ⟨tooLong_greeting, (@converse_framed_iff Codec.brief _ greeting hplain).mpr ?_⟩
  intro line hline
  rw [tooLong_greeting] at hline
  obtain rfl := Option.some.inj hline
  refine ⟨List.replicate (lineLimit - 1) 'x' ++ ['x'], ['x', '\n'], ?_, ?_⟩
  · rw [wide, List.append_assoc]
    rfl
  · rw [length_utf8Bytes_wide]
    decide

/-- A line whose last character stands across the limit. -/
def straddling : List Char := wide ['é']

/-- The client that sends it is not answered. -/
theorem converse_straddling :
    (∀ line ∈ splitInclusive '\n' straddling,
      @Codec.read Codec.brief (trim (String.ofList line)) ≠ .ok .subscribe) ∧
    ¬@Framed Codec.brief (fun _ _ => .ok) straddling
      (@converse Codec.brief (fun _ _ => .ok) 0 (utf8Bytes straddling)) := by
  have hplain : ∀ line ∈ splitInclusive '\n' straddling,
      @Codec.read Codec.brief (trim (String.ofList line)) ≠ .ok .subscribe := by
    rw [straddling, splitInclusive_wide (by decide)]
    intro line hline
    exact read_wide (List.mem_singleton.mp hline)
  have htooLong : tooLong straddling = some straddling := by
    have hlong : ¬fits (wide ['é']) = true := by
      rw [fits_wide (List.cons_ne_nil _ _)]
      exact Bool.false_ne_true
    rw [tooLong, straddling, splitInclusive_wide (by decide), List.dropWhile_cons_of_neg hlong]
    rfl
  have hcut : ¬AtChar straddling lineLimit := by
    apply not_atChar
    · have hstart := length_utf8Bytes_wide []
      have hlimit : 0 < lineLimit := by decide
      simp only [List.append_nil, utf8Bytes_nil, List.length_nil] at hstart
      omega
    · have hlast : (utf8Bytes ['é']).length = 2 := by decide
      rw [length_utf8Bytes_wide, hlast]
      omega
  exact ⟨hplain, @not_framed_of_inside _ _ Codec.brief _ hplain htooLong hcut⟩

end Nhop.Daemon
