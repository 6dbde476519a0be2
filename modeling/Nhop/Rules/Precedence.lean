import Nhop.Rules.Ruleset

/-!
Which rule decides, for every ruleset that was declared rule by rule.

A ruleset is what a sequence of pushes has left, rejected ones included. The rule
at the least position of the class consulted decides, and it is known by that
position. The kind and the class of a decision depend on less: on which `never`
rules there are, in whatever order, and on the order of the others.
-/

namespace Nhop.Rules

open Foundation Ipc

/-- A rule as it is declared. -/
structure Declaration where
  ruleClass : RuleClass
  kind : RuleKind
  value : RuleValue
  deriving DecidableEq, Repr

namespace Ruleset

variable [External]

/-- The ruleset after one more declaration, accepted or not. -/
def after (rules : Ruleset) (declaration : Declaration) : Ruleset :=
  match rules.push declaration.ruleClass declaration.kind declaration.value with
  | .ok (_, pushed) => pushed
  | .error _ => rules

/-- The ruleset a sequence of declarations leaves. -/
def declared (declarations : List Declaration) : Ruleset := declarations.foldl after .empty

/-- Position `i` is the first to hold a rule of an eligible class that matches. -/
structure FirstAt (rules : Ruleset) (eligible : RuleClass → Prop) (host : Host) (port : Port)
    (i : ℕ) (rule : Rule) : Prop where
  held : rules.rules[i]? = some rule
  consulted : eligible rule.ruleClass
  matching : Matches rule host port
  first : ∀ j earlier, j < i → rules.rules[j]? = some earlier → eligible earlier.ruleClass →
    ¬Matches earlier host port

/-- The decision the rules make for a destination. -/
structure Decides (rules : Ruleset) (host : Host) (port : Port) (decision : Decision) : Prop where
  never : ∀ i rule, rules.FirstAt (· = .never) host port i rule → decision = .never ⟨i⟩
  upstream : rules.NoMatch (· = .never) host port →
    ∀ i rule, rules.FirstAt (· ≠ .never) host port i rule →
      decision = .upstream rule.ruleClass ⟨i⟩
  direct : rules.NoMatch (fun _ => True) host port → decision = .direct
  proper : ∀ rule, decision ≠ .upstream .never rule

/-- The same declarations but for where the `never` rules stand. -/
structure NeverMoved (declarations moved : List Declaration) : Prop where
  others : (declarations.filter fun d => d.ruleClass != .never) =
    moved.filter fun d => d.ruleClass != .never
  nevers : (declarations.filter fun d => d.ruleClass == .never).Perm
    (moved.filter fun d => d.ruleClass == .never)

section position

variable {rules : Ruleset} {eligible : RuleClass → Prop} {host : Host} {port : Port} {i : ℕ}
  {rule : Rule}

omit [External] in
theorem id_of_getElem (h : rules.rules[i]? = some rule) : rule.id = ⟨i⟩ := by
  have hlength : i < rules.rules.length := (List.getElem?_eq_some_iff.mp h).1
  have hid : (rules.rules.map Rule.id)[i]? = some rule.id := by rw [List.getElem?_map, h]; rfl
  have hposition : ((List.range rules.rules.length).map RuleId.mk)[i]? = some ⟨i⟩ := by
    rw [List.getElem?_map, List.getElem?_range hlength]
    rfl
  rw [rules.numbered, hposition] at hid
  exact (Option.some.inj hid).symm

theorem FirstAt.firstMatch (h : rules.FirstAt eligible host port i rule) :
    rules.FirstMatch eligible host port rule := by
  obtain ⟨hlength, hget⟩ := List.getElem?_eq_some_iff.mp h.held
  refine ⟨rules.rules.take i, rules.rules.drop (i + 1), ?_, h.consulted, h.matching, ?_⟩
  · rw [← hget, List.cons_getElem_drop_succ, List.take_append_drop]
  · intro earlier hmem hclass
    obtain ⟨j, hj⟩ := List.getElem?_of_mem hmem
    have hlt : j < i := by
      have := (List.getElem?_eq_some_iff.mp hj).1
      rw [List.length_take] at this
      omega
    rw [List.getElem?_take_of_lt hlt] at hj
    exact h.first j earlier hlt hj hclass

end position

/-- **The rules decide as declared.** -/
theorem decides_decide (rules : Ruleset) (host : Host) (port : Port) :
    rules.Decides host port (rules.decide host port) where
  never i rule h := by
    rw [decide_never h.firstMatch, id_of_getElem h.held]
  upstream hnever i rule h := by
    rw [decide_upstream hnever h.firstMatch, id_of_getElem h.held]
  direct h := decide_direct h
  proper rule := by
    unfold decide
    intro hupstream
    cases hnever : rules.firstMatch (fun c => c == .never) (NormalizedHost.new host) port with
    | some first => simp [hnever] at hupstream
    | none =>
        cases hother : rules.firstMatch (fun c => c != .never) (NormalizedHost.new host) port with
        | none => simp [hnever, hother] at hupstream
        | some first =>
            have hclass := (firstMatch_eq_some.mp hother)
            obtain ⟨_, _, _, hclass, _⟩ := hclass
            simp only [hnever, hother, Decision.upstream.injEq] at hupstream
            simp [hupstream.1] at hclass

/-! ### What a decision depends on -/

/-- A declaration as it is read, absent when it is rejected. -/
def read (declaration : Declaration) : Option (RuleClass × Matcher) :=
  match Matcher.parse declaration.kind declaration.value with
  | .ok matcher => some (declaration.ruleClass, matcher)
  | .error _ => none

/-- How rules read in this order route a destination, without the deciding line. -/
def verdict (read : List (RuleClass × Matcher)) (host : NormalizedHost) (port : Port) :
    DecisionKind × Option RuleClass :=
  if (read.filter fun rule => rule.1 == .never).any fun rule => rule.2.matches host port then
    (.never, some .never)
  else
    match (read.filter fun rule => rule.1 != .never).find? fun rule => rule.2.matches host port with
    | some rule => (.upstream, some rule.1)
    | none => (.direct, none)

section verdict

variable {declarations moved : List Declaration} {declaration : Declaration} {host : Host}
  {port : Port}

theorem declared_append : declared (declarations ++ [declaration]) =
    (declared declarations).after declaration := by
  rw [declared, List.foldl_append]
  rfl

theorem rules_declared :
    ((declared declarations).rules.map fun rule => (rule.ruleClass, rule.matcher)) =
      declarations.filterMap read := by
  induction declarations using List.reverseRecOn with
  | nil => rfl
  | append_singleton declarations declaration ih =>
      rw [declared_append, List.filterMap_append, ← ih, after, push]
      cases hparse : Matcher.parse declaration.kind declaration.value with
      | error failure => simp [read, hparse]
      | ok matcher => simp [read, hparse, append]

theorem firstMatch_map (rules : Ruleset) (eligible : RuleClass → Bool) (host : NormalizedHost) :
    (rules.firstMatch eligible host port).map (fun rule => (rule.ruleClass, rule.matcher)) =
      ((rules.rules.map fun rule => (rule.ruleClass, rule.matcher)).filter fun rule =>
        eligible rule.1).find? fun rule => rule.2.matches host port := by
  rw [firstMatch, List.filter_map, List.find?_map, List.find?_filter]
  simp only [Function.comp_def, Bool.decide_and, Bool.decide_eq_true]

theorem verdict_decide (rules : Ruleset) :
    ((rules.decide host port).kind, (rules.decide host port).ruleClass) =
      verdict (rules.rules.map fun rule => (rule.ruleClass, rule.matcher))
        (NormalizedHost.new host) port := by
  unfold decide verdict
  simp only
  rw [← List.isSome_find?, ← firstMatch_map rules (fun c => c == .never)]
  cases hnever : rules.firstMatch (fun c => c == .never) (NormalizedHost.new host) port with
  | some rule => rfl
  | none =>
      rw [← firstMatch_map rules fun c => c != .never]
      cases hother : rules.firstMatch (fun c => c != .never) (NormalizedHost.new host) port with
      | some rule => rfl
      | none => rfl

/-- A declaration is read under the class it declares. -/
theorem filter_read (eligible : RuleClass → Bool) :
    (declarations.filterMap read).filter (fun rule => eligible rule.1) =
      (declarations.filter fun d => eligible d.ruleClass).filterMap read := by
  induction declarations with
  | nil => rfl
  | cons declaration rest ih =>
      have hclass : ∀ rule, read declaration = some rule → rule.1 = declaration.ruleClass := by
        intro rule hread
        unfold read at hread
        split at hread
        · cases hread
          rfl
        · cases hread
      cases hread : read declaration with
      | none =>
          cases heligible : eligible declaration.ruleClass <;> simp [hread, heligible, ih]
      | some rule =>
          have hsame := hclass rule hread
          cases heligible : eligible declaration.ruleClass <;>
            simp [hread, heligible, hsame, ih]

theorem verdict_moved (h : NeverMoved declarations moved) (host : NormalizedHost) :
    verdict (declarations.filterMap read) host port =
      verdict (moved.filterMap read) host port := by
  have hnever : ((declarations.filterMap read).filter fun rule => rule.1 == .never).any
      (fun rule => rule.2.matches host port) =
      ((moved.filterMap read).filter fun rule => rule.1 == .never).any
        fun rule => rule.2.matches host port := by
    rw [filter_read fun c => c == .never, filter_read fun c => c == .never]
    exact (h.nevers.filterMap read).any_eq
  have hother : (declarations.filterMap read).filter (fun rule => rule.1 != .never) =
      (moved.filterMap read).filter fun rule => rule.1 != .never := by
    rw [filter_read fun c => c != .never, filter_read fun c => c != .never, h.others]
  rw [verdict, verdict, hnever, hother]

end verdict

/-! ### The rules in the order consulted -/

/-- The `never` rules in front of the others. -/
def consulted (rules : Ruleset) : List Rule :=
  (rules.rules.filter fun rule => rule.ruleClass == .never) ++
    rules.rules.filter fun rule => rule.ruleClass != .never

/-- Where a rule that decides routes. -/
def routes (rule : Rule) : Decision :=
  if rule.ruleClass = .never then .never rule.id else .upstream rule.ruleClass rule.id

section consulted

variable {rules : Ruleset} {host host' : Host} {port : Port} {rule : Rule}

omit [External] in
theorem mem_consulted : rule ∈ rules.consulted ↔ rule ∈ rules.rules := by
  rw [consulted, List.mem_append, List.mem_filter, List.mem_filter]
  by_cases h : rule.ruleClass = .never <;> simp [h]

/-- The first rule consulted that matches decides. -/
theorem decide_eq_consulted : rules.decide host port =
    ((rules.consulted.find? fun rule =>
      rule.matcher.matches (NormalizedHost.new host) port).map routes).getD .direct := by
  have hfirst : ∀ eligible : RuleClass → Bool,
      (rules.rules.filter fun rule => eligible rule.ruleClass).find?
          (fun rule => rule.matcher.matches (NormalizedHost.new host) port) =
        rules.firstMatch eligible (NormalizedHost.new host) port := by
    intro eligible
    rw [firstMatch, List.find?_filter]
    simp only [Bool.decide_and, Bool.decide_eq_true]
  rw [consulted, List.find?_append, hfirst fun c => c == .never, hfirst fun c => c != .never]
  unfold decide
  simp only
  cases hnever : rules.firstMatch (fun c => c == .never) (NormalizedHost.new host) port with
  | some rule =>
      obtain ⟨_, _, _, hclass, _⟩ := firstMatch_eq_some.mp hnever
      simp [routes, eq_of_beq hclass]
  | none =>
      cases hother : rules.firstMatch (fun c => c != .never) (NormalizedHost.new host) port with
      | some rule =>
          obtain ⟨_, _, _, hclass, _⟩ := firstMatch_eq_some.mp hother
          simp only [Option.none_or, Option.map_some, Option.getD_some, routes]
          rw [if_neg (by simpa using hclass)]
      | none => rfl

omit [External] in
theorem routes_injective {other : Rule} (hrule : rule ∈ rules.rules) (hother : other ∈ rules.rules)
    (h : routes rule = routes other) : rule = other := by
  have hid : rule.id = other.id := by
    unfold routes at h
    split_ifs at h
    · exact Decision.never.inj h
    · exact (Decision.upstream.inj h).2
  apply List.inj_on_of_nodup_map _ hrule hother hid
  rw [rules.numbered]
  exact List.nodup_range.map fun i j h => RuleId.mk.inj h

/-- Two hosts are decided alike exactly when the same rule is the first to match. -/
theorem decide_eq_iff : rules.decide host port = rules.decide host' port ↔
    rules.consulted.find? (fun rule => rule.matcher.matches (NormalizedHost.new host) port) =
      rules.consulted.find? fun rule =>
        rule.matcher.matches (NormalizedHost.new host') port := by
  constructor
  · intro h
    rw [decide_eq_consulted, decide_eq_consulted] at h
    have hdirect : ∀ rule : Rule, routes rule ≠ .direct := by
      intro rule
      unfold routes
      split_ifs <;> simp
    cases hfirst : rules.consulted.find? fun rule =>
        rule.matcher.matches (NormalizedHost.new host) port with
    | none =>
        cases hother : rules.consulted.find? fun rule =>
            rule.matcher.matches (NormalizedHost.new host') port with
        | none => rfl
        | some other =>
            rw [hfirst, hother] at h
            exact absurd h.symm (hdirect other)
    | some rule =>
        cases hother : rules.consulted.find? fun rule =>
            rule.matcher.matches (NormalizedHost.new host') port with
        | none =>
            rw [hfirst, hother] at h
            exact absurd h (hdirect rule)
        | some other =>
            rw [hfirst, hother] at h
            rw [routes_injective (mem_consulted.mp (List.mem_of_find?_eq_some hfirst))
              (mem_consulted.mp (List.mem_of_find?_eq_some hother)) h]
  · intro h
    rw [decide_eq_consulted, decide_eq_consulted, h]

end consulted

/-! ### Precedence -/

/-- **Precedence.** After any declarations, accepted and rejected, rules are numbered
by position, a rejected declaration changes nothing and an accepted one takes the next
number; a destination is decided by the least matching `never` rule, else by the least
matching rule of the other classes, else directly, and never sent upstream by a
`never` rule; and moving `never` rules changes neither the kind nor the class. -/
theorem precedence (declarations : List Declaration) :
    (declared declarations).rules.map Rule.id =
        (List.range (declared declarations).rules.length).map RuleId.mk ∧
      (∀ declaration : Declaration,
        match (declared declarations).push declaration.ruleClass declaration.kind
          declaration.value with
        | .error _ => declared (declarations ++ [declaration]) = declared declarations
        | .ok (id, _) => id = ⟨(declared declarations).rules.length⟩ ∧
            ∃ matcher, Matcher.parse declaration.kind declaration.value = .ok matcher ∧
              (declared (declarations ++ [declaration])).rules =
                (declared declarations).rules ++
                  [⟨id, declaration.ruleClass, matcher, declaration.value⟩]) ∧
      (∀ host port, (declared declarations).Decides host port
        ((declared declarations).decide host port)) ∧
      ∀ moved, NeverMoved declarations moved → ∀ host port,
        ((declared moved).decide host port).kind =
            ((declared declarations).decide host port).kind ∧
          ((declared moved).decide host port).ruleClass =
            ((declared declarations).decide host port).ruleClass := by
  refine ⟨(declared declarations).numbered, ?_, fun host port => decides_decide _ host port, ?_⟩
  · intro declaration
    cases hpush : (declared declarations).push declaration.ruleClass declaration.kind
      declaration.value with
    | error failure => rw [declared_append, after, hpush]
    | ok pushed =>
        obtain ⟨id, rules⟩ := pushed
        obtain ⟨matcher, hparse, rfl, rfl⟩ := push_eq_ok.mp hpush
        refine ⟨rfl, matcher, hparse, ?_⟩
        rw [declared_append, after, hpush]
        rfl
  · intro moved hmoved host port
    have hsame : (((declared moved).decide host port).kind,
        ((declared moved).decide host port).ruleClass) =
        (((declared declarations).decide host port).kind,
          ((declared declarations).decide host port).ruleClass) := by
      rw [verdict_decide, verdict_decide, rules_declared, rules_declared, verdict_moved hmoved]
    exact Prod.mk.inj hsame

end Ruleset

/-- A suffix, and behind it a port that is excepted. -/
def excepting : List Declaration := [⟨.require, .suffix, ⟨"corp"⟩⟩, ⟨.never, .port, ⟨"22"⟩⟩]

/-- The exception may be declared first. -/
theorem precedence_exception :
    (@Ruleset.declared External.ascii excepting).rules.map Rule.id = [⟨0⟩, ⟨1⟩] ∧
      (@Ruleset.decide External.ascii (@Ruleset.declared External.ascii excepting.reverse)
          ⟨"db.corp"⟩ 22).kind =
        (@Ruleset.decide External.ascii (@Ruleset.declared External.ascii excepting)
          ⟨"db.corp"⟩ 22).kind := by
  obtain ⟨hids, _, _, hmoved⟩ := @Ruleset.precedence External.ascii excepting
  refine ⟨hids.trans (by decide +kernel), ?_⟩
  exact (hmoved excepting.reverse ⟨by decide, by decide⟩ ⟨"db.corp"⟩ 22).1

end Nhop.Rules
