import Nhop.Rules.Matcher

/-!
Rules in declaration order, and where they route a destination: the first
matching `never` rule decides, then the first matching rule of the other two
classes, then nothing does and the destination is dialled directly.
-/

namespace Nhop.Rules

open Foundation Ipc

/-- Position of a rule in declaration order. -/
structure RuleId where
  index : ℕ
  deriving DecidableEq, Repr

/-- One rule, as declared. -/
structure Rule where
  id : RuleId
  ruleClass : RuleClass
  matcher : Matcher
  value : RuleValue
  deriving DecidableEq, Repr

/-- Where a destination is routed. -/
inductive Decision
  | direct
  | never (rule : RuleId)
  | upstream (ruleClass : RuleClass) (rule : RuleId)
  deriving DecidableEq, Repr

namespace Decision

def kind : Decision → DecisionKind
  | .direct => .direct
  | .never _ => .never
  | .upstream _ _ => .upstream

def rule : Decision → Option RuleId
  | .direct => none
  | .never rule => some rule
  | .upstream _ rule => some rule

def ruleClass : Decision → Option RuleClass
  | .direct => none
  | .never _ => some .never
  | .upstream ruleClass _ => some ruleClass

end Decision

/-- Rules in declaration order, each numbered by its position. -/
structure Ruleset where
  rules : List Rule
  numbered : rules.map Rule.id = (List.range rules.length).map RuleId.mk
  deriving DecidableEq, Repr

namespace Ruleset

def empty : Ruleset := ⟨[], rfl⟩

instance : Inhabited Ruleset := ⟨empty⟩

@[ext] theorem ext {a b : Ruleset} (h : a.rules = b.rules) : a = b := by
  cases a
  cases b
  simp_all

/-- Appends a rule that has been read, numbered by the position it takes. -/
def append (rules : Ruleset) (ruleClass : RuleClass) (matcher : Matcher) (value : RuleValue) :
    Ruleset where
  rules := rules.rules ++ [⟨⟨rules.rules.length⟩, ruleClass, matcher, value⟩]
  numbered := by simp [rules.numbered, List.range_succ]

def count (rules : Ruleset) (ruleClass : RuleClass) : ℕ :=
  (rules.rules.filter fun rule => rule.ruleClass == ruleClass).length

variable [External]

/-- Appends a rule and returns its position, or rejects the value. -/
def push (rules : Ruleset) (ruleClass : RuleClass) (kind : RuleKind) (value : RuleValue) :
    Except InvalidRule (RuleId × Ruleset) :=
  match Matcher.parse kind value with
  | .error failure => .error failure
  | .ok matcher => .ok (⟨rules.rules.length⟩, rules.append ruleClass matcher value)

/-- The first rule accepted by `eligible` whose value matches. -/
def firstMatch (rules : Ruleset) (eligible : RuleClass → Bool) (host : NormalizedHost)
    (port : Port) : Option Rule :=
  rules.rules.find? fun rule => eligible rule.ruleClass && rule.matcher.matches host port

/-- Where a destination is routed. -/
def decide (rules : Ruleset) (host : Host) (port : Port) : Decision :=
  let host := NormalizedHost.new host
  match rules.firstMatch (fun ruleClass => ruleClass == .never) host port with
  | some rule => .never rule.id
  | none =>
      match rules.firstMatch (fun ruleClass => ruleClass != .never) host port with
      | some rule => .upstream rule.ruleClass rule.id
      | none => .direct

/-- The rule `rule` matches a destination. -/
def Matches (rule : Rule) (host : Host) (port : Port) : Prop :=
  rule.matcher.matches (NormalizedHost.new host) port = true

/-- `rule` is the first rule of an eligible class that matches. -/
def FirstMatch (rules : Ruleset) (eligible : RuleClass → Prop) (host : Host) (port : Port)
    (rule : Rule) : Prop :=
  ∃ before after, rules.rules = before ++ rule :: after ∧ eligible rule.ruleClass ∧
    Matches rule host port ∧
    ∀ earlier ∈ before, eligible earlier.ruleClass → ¬Matches earlier host port

/-- No rule of an eligible class matches. -/
def NoMatch (rules : Ruleset) (eligible : RuleClass → Prop) (host : Host) (port : Port) : Prop :=
  ∀ rule ∈ rules.rules, eligible rule.ruleClass → ¬Matches rule host port

section firstMatch

variable {rules : Ruleset} {eligible : RuleClass → Bool} {host : Host} {port : Port}

theorem firstMatch_eq_some {rule : Rule} :
    rules.firstMatch eligible (NormalizedHost.new host) port = some rule ↔
      rules.FirstMatch (fun c => eligible c = true) host port rule := by
  unfold firstMatch FirstMatch Matches
  rw [List.find?_eq_some_iff_append]
  simp only [Bool.and_eq_true, Bool.not_eq_true', Bool.and_eq_false_imp]
  constructor
  · rintro ⟨⟨heligible, hmatches⟩, before, after, hsplit, hbefore⟩
    refine ⟨before, after, hsplit, heligible, hmatches, fun earlier hmem hclass => ?_⟩
    simpa using hbefore earlier hmem hclass
  · rintro ⟨before, after, hsplit, heligible, hmatches, hbefore⟩
    refine ⟨⟨heligible, hmatches⟩, before, after, hsplit, fun earlier hmem hclass => ?_⟩
    simpa using hbefore earlier hmem hclass

theorem firstMatch_eq_none :
    rules.firstMatch eligible (NormalizedHost.new host) port = none ↔
      rules.NoMatch (fun c => eligible c = true) host port := by
  simp [firstMatch, NoMatch, Matches, List.find?_eq_none]

end firstMatch

section decide

variable {rules : Ruleset} {host : Host} {port : Port} {rule : Rule}

theorem decide_never (h : rules.FirstMatch (· = .never) host port rule) :
    rules.decide host port = .never rule.id := by
  have hfirst : rules.firstMatch (fun c => c == .never) (NormalizedHost.new host) port =
      some rule := firstMatch_eq_some.mpr (by simpa using h)
  simp [decide, hfirst]

/-- With no matching `never` rule, the first matching rule of the other classes
decides. -/
theorem decide_upstream (hnever : rules.NoMatch (· = .never) host port)
    (h : rules.FirstMatch (· ≠ .never) host port rule) :
    rules.decide host port = .upstream rule.ruleClass rule.id := by
  have hnone : rules.firstMatch (fun c => c == .never) (NormalizedHost.new host) port =
      none := firstMatch_eq_none.mpr (by simpa using hnever)
  have hfirst : rules.firstMatch (fun c => c != .never) (NormalizedHost.new host) port =
      some rule := firstMatch_eq_some.mpr (by simpa using h)
  simp [decide, hnone, hfirst]

theorem decide_direct (h : rules.NoMatch (fun _ => True) host port) :
    rules.decide host port = .direct := by
  have hnever : rules.firstMatch (fun c => c == .never) (NormalizedHost.new host) port =
      none := firstMatch_eq_none.mpr fun rule hmem _ => h rule hmem trivial
  have hother : rules.firstMatch (fun c => c != .never) (NormalizedHost.new host) port =
      none := firstMatch_eq_none.mpr fun rule hmem _ => h rule hmem trivial
  simp [decide, hnever, hother]

end decide

/-- A push is accepted exactly when the value reads as its kind, and appends
what was read under the next number. -/
theorem push_eq_ok {rules rules' : Ruleset} {ruleClass : RuleClass} {kind : RuleKind}
    {value : RuleValue} {id : RuleId} :
    rules.push ruleClass kind value = .ok (id, rules') ↔
      ∃ matcher, Matcher.parse kind value = .ok matcher ∧ id = ⟨rules.rules.length⟩ ∧
        rules' = rules.append ruleClass matcher value := by
  unfold push
  split
  · next failure hread => simp [hread]
  · next matcher hread =>
      simp only [Except.ok.injEq, Prod.mk.injEq, hread]
      constructor
      · rintro ⟨rfl, rfl⟩
        exact ⟨matcher, rfl, rfl, rfl⟩
      · rintro ⟨_, rfl, rfl, rfl⟩
        exact ⟨rfl, rfl⟩

end Ruleset

end Nhop.Rules
