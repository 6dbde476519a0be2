import Nhop.Cli.Json
import Nhop.Upstream.Selection

/-!
The records of the daemon's log, and what is read back of its lines.

A record is a list of fields that are present or absent, and three kinds of it can
be shown to a reader: a routed connection, a turnover of a verdict, and a move of
new connections between upstreams. The others, on open files and on what went wrong
around a socket, have no rendering. Writer and reader are separate code and meet in
the names of the fields. The formatter in between is not part of the program: it
keeps the fields that are present, under `fields`, beside a timestamp.
-/

namespace Nhop.Cli.Logging

open Foundation Ipc Proxy Upstream Json

/-- The fields of a record. -/
abbrev Record := List (String × Option Value)

def present (record : Record) : List (String × Value) :=
  record.filterMap fun field => field.2.map fun value => (field.1, value)

/-- The formatter of the log, and the readers of what it writes. -/
class Formatter where
  /-- The line of a record, by when it is written and its fields. -/
  line : ℤ → List (String × Value) → List Char
  /-- What JSON value a line is. -/
  value : List Char → Option Value
  /-- What instant a text in RFC 3339 is. -/
  rfc3339 : String → Option ℤ
  /-- A line keeps the fields under `fields`, beside a timestamp. -/
  keeps : ∀ stamp fields, (fields.map Prod.fst).Nodup → (∀ field ∈ fields, IsScalar field.2) →
    ∃ members written instant kept, value (line stamp fields) = some (.object members) ∧
      members.lookup "timestamp" = some (.text written) ∧ rfc3339 written = some instant ∧
      members.lookup "fields" = some (.object kept) ∧
      ∀ name, kept.lookup name = fields.lookup name

/-! ### Names -/

def decisionName : DecisionKind → String
  | .direct => "direct"
  | .never => "never"
  | .upstream => "upstream"

def className : RuleClass → String
  | .require => "require"
  | .prefer => "prefer"
  | .never => "never"

def hopName : EffectiveHop → String
  | .direct => "direct"
  | .upstream => "upstream"
  | .fallbackDirect => "fallback_direct"

def healthName : HealthState → String
  | .up => "up"
  | .down => "down"

def causeName : VerdictCause → String
  | .probe => "probe"
  | .dial => "dial"

def switchCauseName : SwitchCause → String
  | .down => "down"
  | .held => "held"
  | .recovered => "recovered"
  | .reload => "reload"

/-! ### Writing -/

/-- The record of a routed connection. -/
def decision (event : EventView) : Record :=
  [("host", some (.text event.host.name)),
    ("port", some (.number event.port.toNat)),
    ("decision", some (.text (decisionName event.decision))),
    ("rule_index", event.ruleIndex.map .number),
    ("class", event.ruleClass.map fun ruleClass => .text (className ruleClass)),
    ("upstream", some (.text (healthName event.upstream))),
    ("connect_ms", event.connectMs.map .number),
    ("hop", event.hop.map fun hop => .text (hopName hop)),
    ("via", event.via.map fun via => .text via.text),
    ("duration_ms", some (.number event.durationMs)),
    ("error", event.error.map .text)]

/-- The record of a turnover. -/
def turnover (logged : VerdictLine) : Record :=
  [("upstream", some (.text logged.upstream.text)),
    ("verdict_from", some (.text (healthName logged.verdictFrom))),
    ("verdict_to", some (.text (healthName logged.verdictTo))),
    ("cause", some (.text (causeName logged.cause)))]

/-- A side of a move, empty for none. -/
def loggedAddr (upstream : Option UpstreamAddr) : String :=
  match upstream with
  | some upstream => upstream.text
  | none => ""

/-- The record of a move. -/
def switch (move : Switch) : Record :=
  [("upstream_from", some (.text (loggedAddr move.left))),
    ("upstream_to", some (.text (loggedAddr move.reached))),
    ("switch_cause", some (.text (switchCauseName move.cause)))]

/-- The record of how many files the daemon may open. -/
def openFiles (soft hard : UInt64) : Record :=
  [("open_files_soft", some (.number soft.toNat)), ("open_files_hard", some (.number hard.toNat))]

/-- The record of a limit on open files that could not be raised. -/
def openFilesFailed (failure : String) : Record := [("open_files_error", some (.text failure))]

/-- The record of a failure that is got over. -/
def warned (field message failure : String) : Record :=
  [("message", some (.text message)), (field, some (.text failure))]

def directKeepalive : String → Record :=
  warned "keepalive_error" "a direct relay socket carries no tcp keepalive"

def upstreamKeepalive : String → Record :=
  warned "keepalive_error" "an upstream relay socket carries no tcp keepalive"

def unacceptedClient : String → Record := warned "error" "accepting a client failed"

def unacceptedCommand : String → Record := warned "error" "accepting a command failed"

/-! ### Reading -/

section read

variable {α : Type}

def textOf : Value → Option String
  | .text text => some text
  | _ => none

/-- A number below a bound. -/
def numberOf (bound : ℕ) : Value → Option ℕ
  | .number number => if number < bound then some number else none
  | _ => none

/-- One of the values of an enumeration, by its name. -/
def variantOf (names : List (String × α)) : Value → Option α
  | .text name => names.lookup name
  | .object [(name, .null)] => names.lookup name
  | _ => none

def decisionKinds : List (String × DecisionKind) :=
  [("direct", .direct), ("never", .never), ("upstream", .upstream)]

def ruleClasses : List (String × RuleClass) :=
  [("require", .require), ("prefer", .prefer), ("never", .never)]

def effectiveHops : List (String × EffectiveHop) :=
  [("direct", .direct), ("upstream", .upstream), ("fallback_direct", .fallbackDirect)]

def healthStates : List (String × HealthState) := [("up", .up), ("down", .down)]

def verdictCauses : List (String × VerdictCause) := [("probe", .probe), ("dial", .dial)]

def switchCauses : List (String × SwitchCause) :=
  [("down", .down), ("held", .held), ("recovered", .recovered), ("reload", .reload)]

/-- A field that has to be there. -/
def required (get : String → Option Value) (name : String) (read : Value → Option α) : Option α :=
  (get name).bind read

/-- A field that may be missing, or `null`. -/
def optional (get : String → Option Value) (name : String) (read : Value → Option α) :
    Option (Option α) :=
  match get name with
  | none => some none
  | some .null => some none
  | some value => (read value).map some

/-- The fields of a structure, by their names or in their order. -/
def structFields (names : List String) : Value → Option (String → Option Value)
  | .object members => some fun name => members.lookup name
  | .array items =>
      if items.length = names.length then some fun name => (names.zip items).lookup name else none
  | _ => none

def eventNames : List String :=
  ["host", "port", "decision", "rule_index", "class", "upstream", "connect_ms", "hop", "via",
    "duration_ms", "error"]

def readEvent (get : String → Option Value) : Option EventView := do
  let host ← required get "host" textOf
  let port ← required get "port" (numberOf (2 ^ 16))
  let decision ← required get "decision" (variantOf decisionKinds)
  let ruleIndex ← optional get "rule_index" (numberOf (2 ^ 32))
  let ruleClass ← optional get "class" (variantOf ruleClasses)
  let upstream ← required get "upstream" (variantOf healthStates)
  let connectMs ← optional get "connect_ms" (numberOf (2 ^ 64))
  let hop ← optional get "hop" (variantOf effectiveHops)
  let via ← optional get "via" textOf
  let durationMs ← required get "duration_ms" (numberOf (2 ^ 64))
  let error ← optional get "error" textOf
  return {
    host := ⟨host⟩, port := UInt16.ofNat port, decision := decision, ruleIndex := ruleIndex,
    ruleClass := ruleClass, upstream := upstream, connectMs := connectMs, hop := hop,
    via := via.map UpstreamAddr.mk, durationMs := durationMs, error := error }

structure VerdictFields where
  upstream : Option UpstreamAddr
  verdictFrom : HealthState
  verdictTo : HealthState
  cause : VerdictCause
  deriving DecidableEq, Repr

def verdictNames : List String := ["upstream", "verdict_from", "verdict_to", "cause"]

def readVerdict (get : String → Option Value) : Option VerdictFields := do
  let upstream ← optional get "upstream" textOf
  let verdictFrom ← required get "verdict_from" (variantOf healthStates)
  let verdictTo ← required get "verdict_to" (variantOf healthStates)
  let cause ← required get "cause" (variantOf verdictCauses)
  return ⟨upstream.map UpstreamAddr.mk, verdictFrom, verdictTo, cause⟩

structure SwitchFields where
  upstreamFrom : UpstreamAddr
  upstreamTo : UpstreamAddr
  switchCause : SwitchCause
  deriving DecidableEq, Repr

def switchNames : List String := ["upstream_from", "upstream_to", "switch_cause"]

def readSwitch (get : String → Option Value) : Option SwitchFields := do
  let upstreamFrom ← required get "upstream_from" textOf
  let upstreamTo ← required get "upstream_to" textOf
  let cause ← required get "switch_cause" (variantOf switchCauses)
  return ⟨⟨upstreamFrom⟩, ⟨upstreamTo⟩, cause⟩

/-- One record of the log that says something a reader can be shown. -/
inductive Logged
  /-- A connection the ruleset routed. -/
  | decision (stamp : ℤ) (event : EventView)
  /-- A turnover of the verdict on an upstream, absent on a line that does not name it. -/
  | verdict (stamp : ℤ) (upstream : Option UpstreamAddr) (left reached : HealthState)
      (cause : VerdictCause)
  /-- A move of new connections, either side absent when none was selected. -/
  | switch (stamp : ℤ) (left reached : Option UpstreamAddr) (cause : SwitchCause)
  deriving DecidableEq, Repr

/-- A side of a move, where the empty text means none. -/
def named (upstream : UpstreamAddr) : Option UpstreamAddr :=
  if upstream.text = "" then none else some upstream

def memberOf (line : Value) (name : String) : Option Value :=
  match line with
  | .object members => members.lookup name
  | _ => none

variable [Formatter]

def stampedValue (line : Value) : Option ℤ :=
  match memberOf line "timestamp" with
  | some (.text stamp) => Formatter.rfc3339 stamp
  | _ => none

/-- What a line records, absent when it records something with no rendering. A
decision is tried first, then a verdict, then a switch. -/
def logged (line : List Char) : Option Logged := do
  let line ← Formatter.value line
  let stamp ← stampedValue line
  let fields ← memberOf line "fields"
  match (structFields eventNames fields).bind readEvent with
  | some event => return .decision stamp event
  | none =>
      match (structFields verdictNames fields).bind readVerdict with
      | some verdict =>
          return .verdict stamp verdict.upstream verdict.verdictFrom verdict.verdictTo verdict.cause
      | none =>
          let switch ← (structFields switchNames fields).bind readSwitch
          return .switch stamp (named switch.upstreamFrom) (named switch.upstreamTo)
            switch.switchCause

end read

/-! ### What is written is read -/

section fields

variable {α : Type} {record : Record} {get : String → Option Value} {name : String}
  {read : Value → Option α}

/-- What a field of a record is kept as. -/
def fieldOf (record : Record) (name : String) : Option Value := (record.lookup name).join

theorem lookup_present (h : (record.map Prod.fst).Nodup) (name : String) :
    (present record).lookup name = fieldOf record name := by
  unfold fieldOf
  induction record with
  | nil => rfl
  | cons field record ih =>
      obtain ⟨key, value⟩ := field
      obtain ⟨hkey, hrecord⟩ := List.nodup_cons.mp h
      have hrest := ih hrecord
      by_cases hname : name = key
      · subst hname
        have habsent : record.lookup name = none := by
          rw [List.lookup_eq_none_iff]
          intro field hfield
          rw [bne_iff_ne]
          rintro rfl
          exact hkey (List.mem_map.mpr ⟨field, hfield, rfl⟩)
        cases value with
        | none =>
            rw [habsent] at hrest
            simpa [present, List.lookup] using hrest
        | some value => simp [present, List.lookup]
      · have hbeq : (name == key) = false := by simpa using hname
        cases value with
        | none => simpa [present, List.lookup, hbeq] using hrest
        | some value => simpa [present, List.lookup, hbeq] using hrest

theorem nodup_present (h : (record.map Prod.fst).Nodup) :
    ((present record).map Prod.fst).Nodup := by
  have hsublist : List.Sublist ((present record).map Prod.fst) (record.map Prod.fst) := by
    induction record with
    | nil => exact List.Sublist.slnil
    | cons field record ih =>
        have hrest := ih (List.nodup_cons.mp h).2
        obtain ⟨key, value⟩ := field
        cases value with
        | none => exact hrest.cons key
        | some value => exact hrest.cons_cons key
  exact h.sublist hsublist

theorem required_eq {value : Value} {a : α} (hget : get name = some value)
    (hread : read value = some a) : required get name read = some a := by
  rw [required, hget, Option.bind_some, hread]

theorem optional_eq {x : Option α} {write : α → Value} (hget : get name = x.map write)
    (hread : ∀ a, x = some a → read (write a) = some a) (hnull : read .null = none) :
    optional get name read = some x := by
  cases x with
  | none => rw [optional, hget, Option.map_none]
  | some a =>
      have ha := hread a rfl
      rw [optional, hget, Option.map_some]
      cases hwrite : write a with
      | null =>
          rw [hwrite, hnull] at ha
          cases ha
      | _ => simp only [← hwrite, ha, Option.map_some]

theorem variantOf_decisionName (decision : DecisionKind) :
    variantOf decisionKinds (.text (decisionName decision)) = some decision := by
  cases decision <;> rfl

theorem variantOf_className (ruleClass : RuleClass) :
    variantOf ruleClasses (.text (className ruleClass)) = some ruleClass := by
  cases ruleClass <;> rfl

theorem variantOf_hopName (hop : EffectiveHop) :
    variantOf effectiveHops (.text (hopName hop)) = some hop := by
  cases hop <;> rfl

theorem variantOf_healthName (state : HealthState) :
    variantOf healthStates (.text (healthName state)) = some state := by
  cases state <;> rfl

theorem variantOf_causeName (cause : VerdictCause) :
    variantOf verdictCauses (.text (causeName cause)) = some cause := by
  cases cause <;> rfl

theorem variantOf_switchCauseName (cause : SwitchCause) :
    variantOf switchCauses (.text (switchCauseName cause)) = some cause := by
  cases cause <;> rfl

end fields

/-! ### The three records -/

section records

variable {record : Record} {event : EventView} {get : String → Option Value}

/-- The numbers of an event have the widths they have in the program. -/
structure Fits (event : EventView) : Prop where
  ruleIndex : ∀ index, event.ruleIndex = some index → index < 2 ^ 32
  connectMs : ∀ length, event.connectMs = some length → length < 2 ^ 64
  durationMs : event.durationMs < 2 ^ 64

theorem numberOf_of_lt {bound n : ℕ} (h : n < bound) : numberOf bound (.number n) = some n :=
  if_pos h

/-- **A routed connection is read back.** -/
theorem readEvent_decision (h : Fits event) :
    readEvent (fieldOf (decision event)) = some event := by
  have hhost : required (fieldOf (decision event)) "host" textOf = some event.host.name :=
    required_eq rfl rfl
  have hport : required (fieldOf (decision event)) "port" (numberOf (2 ^ 16)) =
      some event.port.toNat :=
    required_eq rfl (numberOf_of_lt event.port.toNat_lt)
  have hdecision : required (fieldOf (decision event)) "decision" (variantOf decisionKinds) =
      some event.decision :=
    required_eq rfl (variantOf_decisionName _)
  have hindex : optional (fieldOf (decision event)) "rule_index" (numberOf (2 ^ 32)) =
      some event.ruleIndex :=
    optional_eq rfl (fun index hindex => numberOf_of_lt (h.ruleIndex index hindex)) rfl
  have hclass : optional (fieldOf (decision event)) "class" (variantOf ruleClasses) =
      some event.ruleClass :=
    optional_eq rfl (fun ruleClass _ => variantOf_className ruleClass) rfl
  have hupstream : required (fieldOf (decision event)) "upstream" (variantOf healthStates) =
      some event.upstream :=
    required_eq rfl (variantOf_healthName _)
  have hconnect : optional (fieldOf (decision event)) "connect_ms" (numberOf (2 ^ 64)) =
      some event.connectMs :=
    optional_eq rfl (fun length hlength => numberOf_of_lt (h.connectMs length hlength)) rfl
  have hhop : optional (fieldOf (decision event)) "hop" (variantOf effectiveHops) =
      some event.hop :=
    optional_eq rfl (fun hop _ => variantOf_hopName hop) rfl
  have hget : fieldOf (decision event) "via" = (event.via.map UpstreamAddr.text).map .text := by
    rw [Option.map_map]
    rfl
  have hvia : optional (fieldOf (decision event)) "via" textOf =
      some (event.via.map UpstreamAddr.text) :=
    optional_eq hget (fun text _ => rfl) rfl
  have hduration : required (fieldOf (decision event)) "duration_ms" (numberOf (2 ^ 64)) =
      some event.durationMs :=
    required_eq rfl (numberOf_of_lt h.durationMs)
  have herror : optional (fieldOf (decision event)) "error" textOf = some event.error :=
    optional_eq rfl (fun text _ => rfl) rfl
  have hname : (event.via.map UpstreamAddr.text).map UpstreamAddr.mk = event.via := by
    cases event.via <;> rfl
  simp only [readEvent, hhost, hport, hdecision, hindex, hclass, hupstream, hconnect, hhop, hvia,
    hduration, herror, hname, Option.bind_eq_bind, Option.bind_some, UInt16.ofNat_toNat]
  rfl

theorem readEvent_of_noHost (h : get "host" = none) : readEvent get = none := by
  simp [readEvent, required, h]

theorem readSwitch_of_noCause (h : get "switch_cause" = none) : readSwitch get = none := by
  cases hfrom : required get "upstream_from" textOf with
  | none => simp [readSwitch, hfrom]
  | some upstreamFrom =>
      cases hto : required get "upstream_to" textOf with
      | none => simp [readSwitch, hfrom, hto]
      | some upstreamTo =>
          have hcause : required get "switch_cause" (variantOf switchCauses) = none := by
            rw [required, h, Option.bind_none]
          simp [readSwitch, hfrom, hto, hcause]

/-- **A turnover is read back.** -/
theorem readVerdict_turnover (logged : VerdictLine) :
    readVerdict (fieldOf (turnover logged)) =
      some ⟨some logged.upstream, logged.verdictFrom, logged.verdictTo, logged.cause⟩ := by
  have hget : fieldOf (turnover logged) "upstream" = (some logged.upstream.text).map .text := rfl
  have hupstream : optional (fieldOf (turnover logged)) "upstream" textOf =
      some (some logged.upstream.text) :=
    optional_eq hget (fun text _ => rfl) rfl
  have hfrom : required (fieldOf (turnover logged)) "verdict_from" (variantOf healthStates) =
      some logged.verdictFrom :=
    required_eq rfl (variantOf_healthName _)
  have hto : required (fieldOf (turnover logged)) "verdict_to" (variantOf healthStates) =
      some logged.verdictTo :=
    required_eq rfl (variantOf_healthName _)
  have hcause : required (fieldOf (turnover logged)) "cause" (variantOf verdictCauses) =
      some logged.cause :=
    required_eq rfl (variantOf_causeName _)
  simp only [readVerdict, hupstream, hfrom, hto, hcause, Option.bind_eq_bind, Option.bind_some,
    Option.map_some]
  rfl

theorem readVerdict_of_noVerdict (h : get "verdict_from" = none) : readVerdict get = none := by
  cases hupstream : optional get "upstream" textOf with
  | none => simp [readVerdict, hupstream]
  | some upstream =>
      have hfrom : required get "verdict_from" (variantOf healthStates) = none := by
        rw [required, h, Option.bind_none]
      simp [readVerdict, hupstream, hfrom]

/-- **A move is read back**, either side as what is logged of it. -/
theorem readSwitch_switch (move : Switch) :
    readSwitch (fieldOf (switch move)) =
      some ⟨⟨loggedAddr move.left⟩, ⟨loggedAddr move.reached⟩, move.cause⟩ := by
  have hfrom : required (fieldOf (switch move)) "upstream_from" textOf =
      some (loggedAddr move.left) :=
    required_eq rfl rfl
  have hto : required (fieldOf (switch move)) "upstream_to" textOf =
      some (loggedAddr move.reached) :=
    required_eq rfl rfl
  have hcause : required (fieldOf (switch move)) "switch_cause" (variantOf switchCauses) =
      some move.cause :=
    required_eq rfl (variantOf_switchCauseName _)
  simp only [readSwitch, hfrom, hto, hcause, Option.bind_eq_bind, Option.bind_some]
  rfl

/-- An upstream is not written as nothing. -/
theorem named_loggedAddr (upstream : Option Upstream) :
    named ⟨loggedAddr (upstream.map Upstream.written)⟩ = upstream.map Upstream.written := by
  cases upstream with
  | none => rfl
  | some upstream =>
      have hsome : upstream.written.text ≠ "" := by
        intro hempty
        have hreads := upstream.reads
        have hnone : SocketAddr.parse (bareAddr ⟨""⟩) = none := by decide +kernel
        rw [show upstream.written = ⟨""⟩ from congrArg UpstreamAddr.mk hempty, hnone] at hreads
        cases hreads
      simp [named, loggedAddr, hsome]

theorem isScalar_present (h : ∀ field ∈ record, ∀ value, field.2 = some value → IsScalar value) :
    ∀ field ∈ present record, IsScalar field.2 := by
  intro field hfield
  obtain ⟨entry, hentry, hvalue⟩ := List.mem_filterMap.mp hfield
  obtain ⟨value, hsome, rfl⟩ := Option.map_eq_some_iff.mp hvalue
  exact h entry hentry value hsome

theorem isScalar_decision (h : Fits event) :
    ∀ field ∈ present (decision event), IsScalar field.2 := by
  have htext {x : Option String} : ∀ value, x.map Value.text = some value → IsScalar value := by
    intro value hvalue
    obtain ⟨text, _, rfl⟩ := Option.map_eq_some_iff.mp hvalue
    trivial
  have hnumber {x : Option ℕ} (hx : ∀ n, x = some n → n < 2 ^ 64) :
      ∀ value, x.map Value.number = some value → IsScalar value := by
    intro value hvalue
    obtain ⟨n, hn, rfl⟩ := Option.map_eq_some_iff.mp hvalue
    exact hx n hn
  have hname {α : Type} {x : Option α} {name : α → String} :
      ∀ value, (x.map fun a => Value.text (name a)) = some value → IsScalar value := by
    intro value hvalue
    obtain ⟨a, _, rfl⟩ := Option.map_eq_some_iff.mp hvalue
    trivial
  have hport : event.port.toNat < 2 ^ 64 := by
    have hlt := event.port.toNat_lt
    omega
  have hindex : ∀ index, event.ruleIndex = some index → index < 2 ^ 64 := by
    intro index hsome
    have hlt := h.ruleIndex index hsome
    omega
  apply isScalar_present
  simp only [decision, List.forall_mem_cons]
  refine ⟨@htext (some _), @hnumber (some _) ?_, @htext (some _), hnumber hindex, hname,
    @htext (some _), hnumber h.connectMs, hname, hname, @hnumber (some _) ?_, htext, ?_⟩
  · rintro n ⟨⟩
    exact hport
  · rintro n ⟨⟩
    exact h.durationMs
  · rintro field ⟨⟩

theorem isScalar_turnover (logged : VerdictLine) :
    ∀ field ∈ present (turnover logged), IsScalar field.2 := by
  apply isScalar_present
  simp [turnover, IsScalar]

theorem isScalar_switch (move : Switch) : ∀ field ∈ present (switch move), IsScalar field.2 := by
  apply isScalar_present
  simp [switch, IsScalar]

theorem setAt_line {handle : HealthHandle} {seen : HealthState} {cause : VerdictCause}
    {settled : ℤ} {verdicts : Verdicts} {line : VerdictLine}
    (h : (handle.setAt seen cause settled verdicts).2 = some line) :
    line = ⟨(verdicts.read handle.cell).upstream, handle.state verdicts, seen, cause⟩ := by
  simp only [HealthHandle.setAt, HealthHandle.settle] at h
  split at h
  · cases h
  · cases h
  · cases h
    rfl
  · cases h
    rfl

theorem switched_move {observed : Observed} {list : Arc UpstreamEntries} {new : Option ℕ}
    {cells : Verdicts} {move : Switch} (h : (observed.switched list new cells).2 = some move) :
    move.left = (upstreamAt observed.list.val observed.selected).map Upstream.written ∧
      move.reached = (upstreamAt list.val new).map Upstream.written := by
  unfold Observed.switched at h
  dsimp only at h
  split_ifs at h
  all_goals
    cases h
    exact ⟨rfl, rfl⟩

end records

/-! ### The lines -/

section lines

variable [Formatter] {record : Record} {event : EventView}

/-- What is read of the line of a record is what its fields are read as. -/
theorem logged_line (stamp : ℤ) (hdistinct : (record.map Prod.fst).Nodup)
    (hscalar : ∀ field ∈ present record, IsScalar field.2) :
    ∃ instant, logged (Formatter.line stamp (present record)) =
      match readEvent (fieldOf record) with
      | some event => some (.decision instant event)
      | none =>
          match readVerdict (fieldOf record) with
          | some verdict =>
              some (.verdict instant verdict.upstream verdict.verdictFrom verdict.verdictTo
                verdict.cause)
          | none =>
              (readSwitch (fieldOf record)).map fun switch =>
                .switch instant (named switch.upstreamFrom) (named switch.upstreamTo)
                  switch.switchCause := by
  obtain ⟨members, written, instant, kept, hvalue, hstamp, hinstant, hfields, hkept⟩ :=
    Formatter.keeps stamp (present record) (nodup_present hdistinct) hscalar
  refine ⟨instant, ?_⟩
  have hget : (fun name => kept.lookup name) = fieldOf record := by
    funext name
    rw [hkept name, lookup_present hdistinct name]
  have hstamped : stampedValue (.object members) = some instant := by
    simp only [stampedValue, memberOf, hstamp, hinstant]
  have hobject : memberOf (.object members) "fields" = some (.object kept) := hfields
  simp only [logged, hvalue, hstamped, hobject, Option.bind_eq_bind, Option.bind_some,
    structFields, hget]
  cases readEvent (fieldOf record) with
  | some event => rfl
  | none =>
      cases readVerdict (fieldOf record) with
      | some verdict => rfl
      | none =>
          cases readSwitch (fieldOf record) with
          | some switch => rfl
          | none => rfl

/-- The line of a routed connection is read as that connection. -/
theorem logged_decision (stamp : ℤ) (h : Fits event) :
    ∃ instant, logged (Formatter.line stamp (present (decision event))) =
      some (.decision instant event) := by
  have hdistinct : ((decision event).map Prod.fst).Nodup := by
    simp [decision]
  obtain ⟨instant, hlogged⟩ := logged_line stamp hdistinct (isScalar_decision h)
  rw [readEvent_decision h] at hlogged
  exact ⟨instant, hlogged⟩

/-- **The log is read back.** The line of a routed connection is read as that
connection, the line of a turnover as that turnover, and the line of a move as that
move. -/
theorem logged_records :
    (∀ stamp event, Fits event →
      ∃ instant, logged (Formatter.line stamp (present (decision event))) =
        some (.decision instant event)) ∧
    (∀ (handle : HealthHandle) (seen : HealthState) (cause : VerdictCause) (settled stamp : ℤ)
      (verdicts : Verdicts) (line : VerdictLine),
      (handle.setAt seen cause settled verdicts).2 = some line →
        ∃ instant, logged (Formatter.line stamp (present (turnover line))) =
          some (.verdict instant (some (verdicts.read handle.cell).upstream)
            (handle.state verdicts) seen cause)) ∧
    ∀ (observed : Observed) (list : Arc UpstreamEntries) (new : Option ℕ) (cells : Verdicts)
      (stamp : ℤ) (move : Switch),
      (observed.switched list new cells).2 = some move →
        ∃ instant, logged (Formatter.line stamp (present (switch move))) =
          some (.switch instant
            ((upstreamAt observed.list.val observed.selected).map Upstream.written)
            ((upstreamAt list.val new).map Upstream.written) move.cause) := by
  refine ⟨?_, ?_, ?_⟩
  · intro stamp event hfits
    exact logged_decision stamp hfits
  · intro handle seen cause settled stamp verdicts line hline
    obtain rfl := setAt_line hline
    obtain ⟨instant, hlogged⟩ := logged_line stamp (by simp [turnover]) (isScalar_turnover _)
    rw [readEvent_of_noHost rfl, readVerdict_turnover] at hlogged
    exact ⟨instant, hlogged⟩
  · intro observed list new cells stamp move hmove
    obtain ⟨hleft, hreached⟩ := switched_move hmove
    obtain ⟨instant, hlogged⟩ := logged_line stamp (by simp [switch]) (isScalar_switch move)
    rw [readEvent_of_noHost rfl, readVerdict_of_noVerdict rfl, readSwitch_switch,
      Option.map_some, hleft, hreached, named_loggedAddr, named_loggedAddr] at hlogged
    exact ⟨instant, hlogged⟩

end lines

/-! ### A formatter to run the model with

Its clock has the first ten seconds of the epoch, over and over. -/

namespace Formatter

def second (stamp : ℤ) : ℕ := (stamp / 10 ^ 9 % 10).toNat

/-- What the clock keeps of an instant. -/
def kept (stamp : ℤ) : ℤ := second stamp * 10 ^ 9

def clock (second : ℕ) : String := "1970-01-01T00:00:0" ++ toString second ++ ".000000Z"

def instantOf (text : String) : Option ℤ :=
  ((List.range 10).find? fun second => clock second = text).map fun second => second * 10 ^ 9

theorem instantOf_clock (stamp : ℤ) : instantOf (clock (second stamp)) = some (kept stamp) := by
  have hclock : ∀ n : Fin 10, instantOf (clock n) = some (n * 10 ^ 9 : ℤ) := by decide +kernel
  have hlt : second stamp < 10 := by
    unfold second
    omega
  exact hclock ⟨second stamp, hlt⟩

/-- A line of the log as JSON. -/
def members (stamp : ℤ) (fields : List (String × Value)) : List (String × Value) :=
  [("timestamp", .text (clock (second stamp))), ("level", .text "INFO"),
    ("fields", .object fields), ("target", .text "nhop")]

def jsonLine (stamp : ℤ) (fields : List (String × Value)) : List Char :=
  object ((members stamp fields).map fun field => (field.1, nested field.2))

theorem parse_jsonLine {stamp : ℤ} {fields : List (String × Value)}
    (hscalar : ∀ field ∈ fields, IsScalar field.2) :
    parse (jsonLine stamp fields) = some (.object (members stamp fields)) := by
  have hnested : ∀ field ∈ members stamp fields, IsNested field.2 := by
    simp only [members, List.forall_mem_cons]
    exact ⟨trivial, trivial, hscalar, trivial, List.forall_mem_nil _⟩
  exact parse_object hnested

@[reducible] def json : Formatter where
  line := jsonLine
  value := parse
  rfc3339 := instantOf
  keeps stamp fields _ hscalar :=
    ⟨members stamp fields, _, kept stamp, fields, parse_jsonLine hscalar, rfl,
      instantOf_clock stamp, rfl, fun _ => rfl⟩

end Formatter

/-- A connection that fell back to the direct route. -/
def fellBack : EventView where
  host := ⟨"example.com"⟩
  port := 443
  decision := .upstream
  ruleIndex := some 2
  ruleClass := some .prefer
  upstream := .down
  connectMs := some 120
  hop := some .fallbackDirect
  via := none
  durationMs := 4000
  error := some "connection reset by peer"

theorem logged_fellBack :
    ∃ instant, @logged Formatter.json
      (@Formatter.line Formatter.json 0 (present (decision fellBack))) =
        some (.decision instant fellBack) := by
  have hfits : Fits fellBack := ⟨by decide, by decide, by decide⟩
  exact (@logged_records Formatter.json).1 0 fellBack hfits

end Nhop.Cli.Logging
