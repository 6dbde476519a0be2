import Nhop.Upstream.Dial

/-!
Which way a destination travels, from the rule that matches it to the network.

Each route is stated from the rules alone and proved by composing their decision
with the dial it calls for: `require` never leaves the upstreams, `prefer` leaves
them exactly when the dial failed, everything else never touches them. Whatever
the route, a dial judges at most the one entry it went through, and judges it
down only for a failure of that entry's own.
-/

namespace Nhop.Upstream

open Foundation Ipc Proxy Rules

/-- The SOCKS5 replies that judge the destination, with the one raised for a
status outside the assigned range. -/
def repliesAboutDestination : List SocksError :=
  [.generalSocksServerFailure, .connectionNotAllowedByRuleset, .networkUnreachable,
    .hostUnreachable, .connectionRefused, .ttlExpired, .commandNotSupported,
    .addressTypeNotSupported, .unknownAuthMethod]

/-- The dial never left the process. -/
def SocksError.NeverSent (failure : SocksError) : Prop :=
  ∃ text, failure = .invalidTargetAddress text

/-- The dial failed for a reason of the upstream's own: it did not answer in
time, or failed without answering about the destination. -/
def UpstreamSide (answer : SocksAnswer) : Prop :=
  answer = none ∨ ∃ failure, answer = some (.error failure) ∧
    failure ∉ repliesAboutDestination ∧ ¬failure.NeverSent

/-- The verdicts a trace writes. -/
def verdictsOf (effects : List Effect) : List (HealthHandle × HealthState × VerdictCause) :=
  effects.filterMap Effect.verdict?

/-- The upstreams a trace dials. -/
def upstreamsOf (effects : List Effect) : List SocketAddr := effects.filterMap Effect.upstream?

/-- The destinations a trace connects to directly. -/
def directsOf (effects : List Effect) : List (Host × Port) := effects.filterMap Effect.direct?

/-- A trace writes no verdict, or one: to the entry it dialled, and down only for
a failure of that entry's own within the budget of the dial. -/
def JudgesFairly (net : Network) (list : UpstreamEntries) (host : Host) (port : Port)
    (budget : UpstreamBudget) (effects : List Effect) : Prop :=
  verdictsOf effects = [] ∨
    ∃ entry ∈ list.entries, ∃ state : HealthState,
      verdictsOf effects = [(entry.health, state, .dial)] ∧
      upstreamsOf effects = [entry.upstream.socket] ∧
      (state = .down →
        UpstreamSide (net.socks entry.upstream.socket host port (seconds budget.allowance)))

section dial

variable {net : Network} {list : UpstreamEntries} {host : Host} {port : Port} {rule : RuleId}
  {entry : UpstreamEntry} {budget : UpstreamBudget} {failure : SocksError} {io : IoError}

theorem failedDial_upstream (h : failedDial failure = .upstream io) :
    failure ∉ repliesAboutDestination ∧ ¬failure.NeverSent := by
  unfold SocksError.NeverSent
  cases failure <;> simp_all [failedDial, repliesAboutDestination]

theorem mem_of_get {selected : Option ℕ} (h : list.get selected = some entry) :
    entry ∈ list.entries := by
  cases selected with
  | none => cases h
  | some index => exact List.mem_of_getElem? h

theorem mem_of_required {selected : Option ℕ} (h : list.required selected = some entry) :
    entry ∈ list.entries := by
  unfold UpstreamEntries.required at h
  split at h
  · next hget => exact Option.some.inj h ▸ mem_of_get hget
  · exact List.mem_of_head? h

/-- A failure that went down as the upstream's was the upstream's. -/
theorem through_upstreamSide
    (h : (through net host port entry.upstream.socket budget).1 = .error (.upstream io)) :
    UpstreamSide (net.socks entry.upstream.socket host port (seconds budget.allowance)) := by
  unfold through at h
  split at h
  · next hnone => exact Or.inl hnone
  · cases h
  · next failure hanswer =>
      have hfailed : failedDial failure = .upstream io := by simpa using h
      exact Or.inr ⟨failure, hanswer, failedDial_upstream hfailed⟩

theorem through_ok {stream : TcpStream} :
    (through net host port entry.upstream.socket budget).1 = .ok stream ↔
      net.socks entry.upstream.socket host port (seconds budget.allowance) =
        some (.ok stream) := by
  unfold through
  split <;> simp_all

@[simp] theorem through_effects :
    (through net host port entry.upstream.socket budget).2 =
      [.dialled entry.upstream.socket host port] := by
  unfold through
  split <;> rfl

/-! ### `require` -/

theorem required_attempted (net : Network) (host : Host) (port : Port) (rule : RuleId)
    (entry : UpstreamEntry) : ∃ next, (required net host port rule (some entry)).1 =
      .attempted .upstream (some entry.upstream.written) next ∧
    ∀ stream, next = .ok stream ↔
      net.socks entry.upstream.socket host port (seconds requireConnectTimeout) =
        some (.ok stream) := by
  have hok (stream : TcpStream) :
      (through net host port entry.upstream.socket .require).1 = .ok stream ↔
        net.socks entry.upstream.socket host port (seconds requireConnectTimeout) =
          some (.ok stream) := through_ok
  simp only [← hok, required, carriedBy]
  cases (through net host port entry.upstream.socket .require).1 with
  | ok reached => exact ⟨.ok reached, rfl, fun _ => by simp⟩
  | error failure => cases failure <;> exact ⟨_, rfl, fun _ => by simp⟩

/-- What a `require` dial does, by how the dial through the upstream ended. -/
theorem required_effects (net : Network) (host : Host) (port : Port) (rule : RuleId)
    (entry : UpstreamEntry) : ∃ verdicts,
    (required net host port rule (some entry)).2 =
      .dialled entry.upstream.socket host port :: verdicts ∧
    (verdicts = [] ∨ verdicts = [.wrote entry.health .up .dial] ∨
      verdicts = [.wrote entry.health .down .dial] ∧
        UpstreamSide
          (net.socks entry.upstream.socket host port (seconds UpstreamBudget.require.allowance))) := by
  unfold required
  simp only [through_effects, observed]
  split
  · exact ⟨_, rfl, Or.inr (Or.inl rfl)⟩
  · exact ⟨_, rfl, Or.inr (Or.inl rfl)⟩
  · exact ⟨_, rfl, Or.inl rfl⟩
  · next hfailed => exact ⟨_, rfl, Or.inr (Or.inr ⟨rfl, through_upstreamSide hfailed⟩)⟩

theorem required_directs (dialled : Option UpstreamEntry) :
    directsOf (required net host port rule dialled).2 = [] := by
  cases dialled with
  | none => rfl
  | some entry =>
      obtain ⟨verdicts, heffects, hverdicts⟩ := required_effects net host port rule entry
      rw [heffects]
      rcases hverdicts with rfl | rfl | ⟨rfl, _⟩ <;> rfl

/-- It goes through the upstream, and ends well exactly when the network says so. -/
theorem required_upstreams (dialled : Option UpstreamEntry) :
    upstreamsOf (required net host port rule dialled).2 =
      dialled.toList.map fun entry => entry.upstream.socket := by
  cases dialled with
  | none => rfl
  | some entry =>
      obtain ⟨verdicts, heffects, hverdicts⟩ := required_effects net host port rule entry
      rw [heffects]
      rcases hverdicts with rfl | rfl | ⟨rfl, _⟩ <;> rfl

theorem required_judges {dialled : Option UpstreamEntry}
    (h : ∀ entry, dialled = some entry → entry ∈ list.entries) :
    JudgesFairly net list host port .require (required net host port rule dialled).2 := by
  cases dialled with
  | none => exact Or.inl rfl
  | some entry =>
      obtain ⟨verdicts, heffects, hverdicts⟩ := required_effects net host port rule entry
      rw [heffects]
      rcases hverdicts with rfl | rfl | ⟨rfl, hside⟩
      · exact Or.inl rfl
      · exact Or.inr ⟨entry, h entry rfl, .up, rfl, rfl, by simp⟩
      · exact Or.inr ⟨entry, h entry rfl, .down, rfl, rfl, fun _ => hside⟩

/-! ### `prefer` -/

theorem fallenBack_eq : fallenBack net host port =
    (.attempted .fallbackDirect none ((net.connect host port).mapError .os),
      [.connected host port]) :=
  rfl

/-- A `prefer` dial that reached its destination through the entry. -/
theorem preferred_reached {stream : TcpStream}
    (h : net.socks entry.upstream.socket host port (seconds UpstreamBudget.prefer.allowance) =
      some (.ok stream)) :
    preferred net host port (some entry) =
      (.attempted .upstream (some entry.upstream.written) (.ok stream),
        [.dialled entry.upstream.socket host port, .wrote entry.health .up .dial]) := by
  have hthrough := through_ok.mpr h
  simp [preferred, hthrough, carriedBy, observed]

/-- A `prefer` dial that did not falls back, once it has dialled and judged. -/
theorem preferred_fell_back
    (h : ¬∃ stream,
      net.socks entry.upstream.socket host port (seconds UpstreamBudget.prefer.allowance) =
        some (.ok stream)) :
    ∃ verdicts, preferred net host port (some entry) =
      (.attempted .fallbackDirect none ((net.connect host port).mapError .os),
        .dialled entry.upstream.socket host port :: (verdicts ++ [.connected host port])) ∧
      (verdicts = [] ∨ verdicts = [.wrote entry.health .up .dial] ∨
        verdicts = [.wrote entry.health .down .dial] ∧ UpstreamSide
          (net.socks entry.upstream.socket host port (seconds UpstreamBudget.prefer.allowance))) := by
  unfold preferred
  simp only [through_effects, fallenBack_eq, observed]
  split
  · next stream hthrough => exact absurd ⟨stream, through_ok.mp hthrough⟩ h
  · exact ⟨_, rfl, Or.inr (Or.inl rfl)⟩
  · exact ⟨[], rfl, Or.inl rfl⟩
  · next hfailed => exact ⟨_, rfl, Or.inr (Or.inr ⟨rfl, through_upstreamSide hfailed⟩)⟩

theorem preferred_upstreams (dialled : Option UpstreamEntry) :
    upstreamsOf (preferred net host port dialled).2 =
      dialled.toList.map fun entry => entry.upstream.socket := by
  cases dialled with
  | none => rfl
  | some entry =>
      by_cases hreached : ∃ stream, net.socks entry.upstream.socket host port
          (seconds UpstreamBudget.prefer.allowance) = some (.ok stream)
      · obtain ⟨stream, hstream⟩ := hreached
        rw [preferred_reached hstream]
        rfl
      · obtain ⟨verdicts, hfell, hverdicts⟩ := preferred_fell_back hreached
        rw [hfell]
        rcases hverdicts with rfl | rfl | ⟨rfl, _⟩ <;> rfl

theorem preferred_judges {dialled : Option UpstreamEntry}
    (h : ∀ entry, dialled = some entry → entry ∈ list.entries) :
    JudgesFairly net list host port .prefer (preferred net host port dialled).2 := by
  cases dialled with
  | none => exact Or.inl rfl
  | some entry =>
      by_cases hreached : ∃ stream, net.socks entry.upstream.socket host port
          (seconds UpstreamBudget.prefer.allowance) = some (.ok stream)
      · obtain ⟨stream, hstream⟩ := hreached
        rw [preferred_reached hstream]
        exact Or.inr ⟨entry, h entry rfl, .up, rfl, rfl, by simp⟩
      · obtain ⟨verdicts, hfell, hverdicts⟩ := preferred_fell_back hreached
        rw [hfell]
        rcases hverdicts with rfl | rfl | ⟨rfl, hside⟩
        · exact Or.inl rfl
        · exact Or.inr ⟨entry, h entry rfl, .up, rfl, rfl, by simp⟩
        · exact Or.inr ⟨entry, h entry rfl, .down, rfl, rfl, fun _ => hside⟩

end dial

/-! ### From the rules to the network -/

section routes

variable {net : Network} {host : Host} {port : Port} {list : Arc UpstreamEntries}
  {cells : Verdicts} {now : ℤ} {hold : ℕ}

/-- The entry selected when a dial begins. -/
def selectedEntry (list : Arc UpstreamEntries) (cells : Verdicts) (now : ℤ) (hold : ℕ) :
    Option UpstreamEntry :=
  list.val.get (list.val.selected cells now hold)

theorem required_eq : list.val.required (list.val.selected cells now hold) =
    (selectedEntry list cells now hold <|> list.val.entries.head?) := by
  unfold UpstreamEntries.required selectedEntry UpstreamEntries.first
  cases list.val.get (list.val.selected cells now hold) <;> rfl

theorem required_eq_none : list.val.required (list.val.selected cells now hold) = none ↔
    list.val.entries = [] := by
  constructor
  · intro h
    rw [required_eq, Option.orElse_eq_none] at h
    exact List.head?_eq_none_iff.mp h.2
  · intro h
    cases hentry : list.val.required (list.val.selected cells now hold) with
    | none => rfl
    | some entry =>
        have hmem := mem_of_required hentry
        rw [h] at hmem
        cases hmem

variable [External] {rules : Ruleset} {rule : Rule}

/-- The dial the rules call for. -/
def dialByRules (net : Network) (rules : Ruleset) (list : Arc UpstreamEntries) (cells : Verdicts)
    (now : ℤ) (hold : ℕ) (host : Host) (port : Port) : Dialled × List Effect :=
  dial net list cells now hold host port (rules.decide host port)

theorem dialByRules_require (hnever : rules.NoMatch (· = .never) host port)
    (hfirst : rules.FirstMatch (· ≠ .never) host port rule) (hclass : rule.ruleClass = .require) :
    dialByRules net rules list cells now hold host port =
      ((required net host port rule.id
          (list.val.required (list.val.selected cells now hold))).1,
        .observed list (list.val.selected cells now hold) ::
          (required net host port rule.id
            (list.val.required (list.val.selected cells now hold))).2) := by
  simp only [dialByRules, Ruleset.decide_upstream hnever hfirst, hclass, dial, routed]

theorem dialByRules_prefer (hnever : rules.NoMatch (· = .never) host port)
    (hfirst : rules.FirstMatch (· ≠ .never) host port rule) (hclass : rule.ruleClass = .prefer) :
    dialByRules net rules list cells now hold host port =
      ((preferred net host port (selectedEntry list cells now hold)).1,
        .observed list (list.val.selected cells now hold) ::
          (preferred net host port (selectedEntry list cells now hold)).2) := by
  simp only [dialByRules, Ruleset.decide_upstream hnever hfirst, hclass, dial, routed,
    selectedEntry]

theorem dialByRules_direct
    (h : (∃ rule, rules.FirstMatch (· = .never) host port rule) ∨
      rules.NoMatch (fun _ => True) host port) :
    dialByRules net rules list cells now hold host port =
      (.attempted .direct none ((net.connect host port).mapError .os),
        [.connected host port]) := by
  unfold dialByRules
  rcases h with ⟨rule, hfirst⟩ | hnone
  · rw [Ruleset.decide_never hfirst]
    rfl
  · rw [Ruleset.decide_direct hnone]
    rfl

/-- Whatever the rules say, the dial judges fairly. -/
theorem dialByRules_judges : ∃ budget, JudgesFairly net list.val host port budget
    (dialByRules net rules list cells now hold host port).2 := by
  unfold dialByRules
  cases rules.decide host port with
  | direct => exact ⟨.require, Or.inl rfl⟩
  | never id => exact ⟨.require, Or.inl rfl⟩
  | upstream ruleClass id =>
      have hobserved : ∀ budget effects, JudgesFairly net list.val host port budget effects →
          JudgesFairly net list.val host port budget
            (.observed list (list.val.selected cells now hold) :: effects) :=
        fun _ _ h => h
      cases ruleClass with
      | require =>
          exact ⟨.require, hobserved _ _ (required_judges fun entry h => mem_of_required h)⟩
      | prefer => exact ⟨.prefer, hobserved _ _ (preferred_judges fun entry h => mem_of_get h)⟩
      | never => exact ⟨.require, Or.inl rfl⟩

/-- **The route of a rule class, end to end.** -/
theorem dialByRules_routes (net : Network) (rules : Ruleset) (list : Arc UpstreamEntries)
    (cells : Verdicts) (now : ℤ) (hold : ℕ) (host : Host) (port : Port) :
    let dialled := (dialByRules net rules list cells now hold host port).1
    let effects := (dialByRules net rules list cells now hold host port).2
    (∀ rule, rules.NoMatch (· = .never) host port →
      rules.FirstMatch (· ≠ .never) host port rule → rule.ruleClass = .require →
        directsOf effects = [] ∧
        ((∃ failure, dialled = .refused failure) ↔ list.val.entries = []) ∧
        (list.val.entries = [] → upstreamsOf effects = []) ∧
        (list.val.entries ≠ [] → ∃ entry next,
          (selectedEntry list cells now hold <|> list.val.entries.head?) = some entry ∧
          dialled = .attempted .upstream (some entry.upstream.written) next ∧
          upstreamsOf effects = [entry.upstream.socket] ∧
          ∀ stream, next = .ok stream ↔
            net.socks entry.upstream.socket host port (seconds requireConnectTimeout) =
              some (.ok stream)) ∧
        JudgesFairly net list.val host port .require effects) ∧
    (∀ rule, rules.NoMatch (· = .never) host port →
      rules.FirstMatch (· ≠ .never) host port rule → rule.ruleClass = .prefer →
        (∀ entry stream, selectedEntry list cells now hold = some entry →
          net.socks entry.upstream.socket host port (seconds preferConnectTimeout) =
            some (.ok stream) →
          dialled = .attempted .upstream (some entry.upstream.written) (.ok stream) ∧
            directsOf effects = []) ∧
        ((¬∃ entry stream, selectedEntry list cells now hold = some entry ∧
          net.socks entry.upstream.socket host port (seconds preferConnectTimeout) =
            some (.ok stream)) →
          dialled = .attempted .fallbackDirect none ((net.connect host port).mapError .os) ∧
            directsOf effects = [(host, port)]) ∧
        upstreamsOf effects =
          (selectedEntry list cells now hold).toList.map (fun entry => entry.upstream.socket) ∧
        JudgesFairly net list.val host port .prefer effects) ∧
    ((∃ rule, rules.FirstMatch (· = .never) host port rule) ∨
      rules.NoMatch (fun _ => True) host port →
        dialled = .attempted .direct none ((net.connect host port).mapError .os) ∧
        directsOf effects = [(host, port)] ∧ upstreamsOf effects = [] ∧
        verdictsOf effects = []) ∧
    ∃ budget, JudgesFairly net list.val host port budget effects := by
  refine ⟨?_, ?_, ?_, dialByRules_judges⟩
  · intro rule hnever hfirst hclass
    rw [dialByRules_require hnever hfirst hclass]
    refine ⟨required_directs _, ?_, ?_, ?_, required_judges fun entry h => mem_of_required h⟩
    · have hnone : list.val.required (list.val.selected cells now hold) = none ↔
          list.val.entries = [] := required_eq_none
      rw [← hnone]
      cases list.val.required (list.val.selected cells now hold) with
      | none => exact iff_of_true ⟨_, rfl⟩ rfl
      | some entry =>
          obtain ⟨next, hnext, _⟩ := required_attempted net host port rule.id entry
          simp [hnext]
    · intro hempty
      rw [required_eq_none.mpr hempty]
      rfl
    · intro hne
      obtain ⟨entry, hentry⟩ := Option.ne_none_iff_exists'.mp (mt required_eq_none.mp hne)
      have hdials : upstreamsOf (required net host port rule.id (some entry)).2 =
          [entry.upstream.socket] := required_upstreams (some entry)
      obtain ⟨next, hnext, hanswer⟩ := required_attempted net host port rule.id entry
      rw [hentry]
      exact ⟨entry, next, by rw [← required_eq, hentry], hnext, hdials, hanswer⟩
  · intro rule hnever hfirst hclass
    rw [dialByRules_prefer hnever hfirst hclass]
    refine ⟨?_, ?_, preferred_upstreams _, preferred_judges fun entry h => mem_of_get h⟩
    · intro entry stream hentry hanswer
      rw [hentry, preferred_reached hanswer]
      exact ⟨rfl, rfl⟩
    · intro hnot
      cases hentry : selectedEntry list cells now hold with
      | none => exact ⟨rfl, rfl⟩
      | some entry =>
          obtain ⟨verdicts, hfell, hverdicts⟩ := @preferred_fell_back net host port entry
            fun ⟨stream, hanswer⟩ => hnot ⟨entry, stream, hentry, hanswer⟩
          rw [hfell]
          refine ⟨rfl, ?_⟩
          rcases hverdicts with rfl | rfl | ⟨rfl, _⟩ <;> rfl
  · intro h
    rw [dialByRules_direct h]
    exact ⟨rfl, rfl, rfl, rfl⟩

end routes

end Nhop.Upstream
