import Nhop.Daemon.State
import Nhop.Proxy.Coherence
import Nhop.Rules.Precedence
import Nhop.Upstream.Routes

/-!
What `test` and `status` say a connection would do is what one does.

`test` reports a decision and the address a connection would be handed to without
opening any; `status` marks the upstream a dial made at that instant would take.
Neither runs the code that routes. A connection served by the rules and the
upstreams they read, at the instant they read them, publishes the decision and the
rule `test` names, goes to the address it names when it goes where it was decided
to, and dials the upstream `status` marks (`serving_foretold`). While all are down
none is marked: a `require` rule dials the first one all the same, and a `prefer`
rule dials none, though `test` names the first.
-/

namespace Nhop.Daemon

open Foundation Ipc Rules Proxy Upstream

/-- What a thing done dials, connects and judges. -/
def dialEffects : Action → List Effect
  | .dialled _ effects => effects
  | .told _ _ _ | .decided _ _ _ | .sent _ | .relayed _ _ | .published _ => []

/-- What the dials of a connection did. -/
def effectsOf (trace : List Action) : List Effect := trace.flatMap dialEffects

section effects

variable {actions : List Action}

theorem effectsOf_append (before behind : List Action) :
    effectsOf (before ++ behind) = effectsOf before ++ effectsOf behind := List.flatMap_append

theorem effectsOf_eq_nil (h : ∀ action ∈ actions, dialEffects action = []) :
    effectsOf actions = [] := List.flatMap_eq_nil_iff.mpr h

theorem effectsOf_greeted (h : Greeted actions) : effectsOf actions = [] := by
  refine effectsOf_eq_nil fun action hmem => ?_
  obtain ⟨_, _, rfl⟩ := h action hmem
  rfl

theorem effectsOf_answered {cause ends : Failure} {speaks : Bool}
    (h : Proxy.Answered wire cause speaks actions ends) : effectsOf actions = [] := by
  refine effectsOf_eq_nil fun action hmem => ?_
  obtain ⟨_, _, rfl⟩ := h.eq_told hmem
  rfl

theorem effectsOf_traffic (h : Traffic actions) : effectsOf actions = [] := by
  refine effectsOf_eq_nil fun action hmem => ?_
  have htraffic := h action hmem
  cases action with
  | sent | relayed => rfl
  | told | decided | dialled | published => cases htraffic

theorem effectsOf_carried (h : Carried actions) : effectsOf actions = [] := by
  cases h with
  | traffic h => exact effectsOf_traffic h
  | granted bytes lost h =>
      show [] ++ effectsOf _ = []
      rw [effectsOf_traffic h, List.nil_append]

end effects

/-- Of the upstreams only the one at this address is dialled. -/
def Dials (entries : List UpstreamEntry) (effects : List Effect) (addr : UpstreamAddr) : Prop :=
  ∃ entry ∈ entries, entry.upstream.written = addr ∧ upstreamsOf effects = [entry.upstream.socket]

/-- What was reported holds of the connection an event is about, whose dials had
these effects. The destination of the connection may be the front end's own
address. -/
structure Foretold [External] (own : Prop) (test : DecisionView) (status : StatusView)
    (entries : List UpstreamEntry) (effects : List Effect) (event : EventView) : Prop where
  decision : event.decision = test.decision
  ruleIndex : event.ruleIndex = test.ruleIndex
  ruleClass : event.ruleClass = test.ruleClass
  verdict : event.upstream = .up ↔ ∃ view ∈ status.upstreams, view.selected = true
  direct : event.hop = some .direct →
    test.decision ≠ .upstream ∧ test.nextHop = Cli.dialledName event.host event.port ∧
      directsOf effects = [(event.host, event.port)] ∧ upstreamsOf effects = []
  carried : event.hop = some .upstream → event.via ≠ none
  /-- The upstream that carried it is the one marked, or for a `require` rule the first
  one when none is. -/
  upstream : ∀ via, event.via = some via →
    test.decision = .upstream ∧ test.nextHop = via.text ∧ Dials entries effects via ∧
      directsOf effects = [] ∧
      ((∃ view ∈ status.upstreams, view.selected = true ∧ view.addr = via) ∨
        event.ruleClass = some .require ∧ status.upstream = via ∧
          ∀ view ∈ status.upstreams, view.selected = false)
  /-- What falls back has dialled the upstream that is marked first, if one is. -/
  fallback : event.hop = some .fallbackDirect →
    test.decision = .upstream ∧ test.ruleClass = some .prefer ∧
      directsOf effects = [(event.host, event.port)] ∧
      (∀ view ∈ status.upstreams, view.selected = true → Dials entries effects view.addr) ∧
      ((∀ view ∈ status.upstreams, view.selected = false) → upstreamsOf effects = [])
  undialled : event.hop = none → upstreamsOf effects = [] ∧ directsOf effects = [] ∧
      (own ∨ test.ruleClass = some .require ∧ test.nextHop = "none" ∧ status.upstreams = [])

section reports

variable {list : UpstreamEntries} {cells : Verdicts} {now : ℤ} {hold index : ℕ}
  {selected : Option ℕ} {entry : UpstreamEntry} {view : UpstreamView}

theorem mem_upstreamViews : view ∈ Cli.upstreamViews list cells selected ↔
    ∃ index entry, list.entries[index]? = some entry ∧
      view = ⟨entry.upstream.written, (entry.health.verdict cells).state,
        (entry.health.verdict cells).changedAt, selected == some index⟩ := by
  unfold Cli.upstreamViews
  rw [List.mem_mapIdx]
  constructor
  · rintro ⟨index, hlength, rfl⟩
    exact ⟨index, list.entries[index], List.getElem?_eq_getElem hlength, rfl⟩
  · rintro ⟨index, entry, hentry, rfl⟩
    obtain ⟨hlength, rfl⟩ := List.getElem?_eq_some_iff.mp hentry
    exact ⟨index, hlength, rfl⟩

theorem marked_of_get (cells : Verdicts) (h : list.get selected = some entry) :
    ∃ view ∈ Cli.upstreamViews list cells selected,
      view.selected = true ∧ view.addr = entry.upstream.written := by
  obtain ⟨index, hindex, hentry⟩ := Option.bind_eq_some_iff.mp h
  refine ⟨_, mem_upstreamViews.mpr ⟨index, entry, hentry, rfl⟩, ?_, rfl⟩
  simp [hindex]

theorem get_of_marked (hmem : view ∈ Cli.upstreamViews list cells selected)
    (hmarked : view.selected = true) :
    ∃ entry, list.get selected = some entry ∧ view.addr = entry.upstream.written := by
  obtain ⟨index, entry, hentry, rfl⟩ := mem_upstreamViews.mp hmem
  refine ⟨entry, ?_, rfl⟩
  rw [beq_iff_eq.mp hmarked]
  exact hentry

theorem unmarked_of_none :
    ∀ view ∈ Cli.upstreamViews list cells none, view.selected = false := by
  intro view hmem
  obtain ⟨index, entry, _, rfl⟩ := mem_upstreamViews.mp hmem
  rfl

theorem required_of_get (h : list.get selected = some entry) :
    list.required selected = some entry := by
  simp [UpstreamEntries.required, h]

theorem get_of_selected (h : list.selected cells now hold = some index) :
    ∃ entry, list.get (some index) = some entry := by
  obtain ⟨verdict, hverdict, _⟩ := select_up h
  rw [UpstreamEntries.getElem?_verdicts] at hverdict
  obtain ⟨entry, hentry, _⟩ := Option.map_eq_some_iff.mp hverdict
  exact ⟨entry, hentry⟩

theorem selected_none_of_get (h : list.get (list.selected cells now hold) = none) :
    list.selected cells now hold = none := by
  cases hselected : list.selected cells now hold with
  | none => rfl
  | some index =>
      obtain ⟨entry, hentry⟩ := get_of_selected hselected
      rw [hselected, hentry] at h
      cases h

end reports

/-! ### The dial -/

section dial

variable [External] {net : Network} {list : Arc UpstreamEntries} {cells : Verdicts} {now : ℤ}
  {hold : ℕ} {host : Host} {port : Port} {rules : Ruleset} {way : EffectiveHop}
  {via : Option UpstreamAddr} {next : Except IoError TcpStream}

/-- The upstream `test` names. -/
def foreseen (list : UpstreamEntries) (cells : Verdicts) (now : ℤ) (hold : ℕ) :
    Option UpstreamAddr :=
  (list.required (list.selected cells now hold)).map fun entry => entry.upstream.written

/-- A dial goes the way `test` says, or falls back from it. -/
structure Goes (rules : Ruleset) (list : UpstreamEntries) (cells : Verdicts) (now : ℤ) (hold : ℕ)
    (host : Host) (port : Port) (effects : List Effect) (way : EffectiveHop)
    (via : Option UpstreamAddr) : Prop where
  direct : way = .direct →
    (Cli.decisionView rules (foreseen list cells now hold) host port).decision ≠ .upstream ∧
      (Cli.decisionView rules (foreseen list cells now hold) host port).nextHop =
        Cli.dialledName host port ∧
      directsOf effects = [(host, port)] ∧ upstreamsOf effects = []
  carried : way = .upstream → via ≠ none
  upstream : ∀ addr, via = some addr → ∃ ruleClass rule entry,
    rules.decide host port = .upstream ruleClass rule ∧ entry.upstream.written = addr ∧
      upstreamsOf effects = [entry.upstream.socket] ∧ directsOf effects = [] ∧
      list.required (list.selected cells now hold) = some entry ∧
      (ruleClass = .require ∨ list.get (list.selected cells now hold) = some entry)
  fallback : way = .fallbackDirect → (∃ rule, rules.decide host port = .upstream .prefer rule) ∧
    directsOf effects = [(host, port)] ∧ upstreamsOf effects =
      (list.get (list.selected cells now hold)).toList.map fun entry => entry.upstream.socket

theorem Goes.observed {effects : List Effect} {read : Arc UpstreamEntries}
    {seen : Option ℕ} (h : Goes rules list.val cells now hold host port effects way via) :
    Goes rules list.val cells now hold host port (.observed read seen :: effects) way via :=
  ⟨h.direct, h.carried, h.upstream, h.fallback⟩

theorem decisionView_upstream {ruleClass : RuleClass} {rule : RuleId}
    {upstream : Option UpstreamAddr} (h : rules.decide host port = .upstream ruleClass rule) :
    Cli.decisionView rules upstream host port =
      ⟨.upstream, some (Cli.indexed rule), some ruleClass, Cli.upstreamName upstream⟩ := by
  cases ruleClass with
  | require => simp [Cli.decisionView, h]
  | prefer => simp [Cli.decisionView, h]
  | never => exact absurd h ((Ruleset.decides_decide rules host port).proper rule)

theorem preferred_goes {rule : RuleId} {effects : List Effect}
    (hdecide : rules.decide host port = .upstream .prefer rule)
    (h : preferred net host port (list.val.get (list.val.selected cells now hold)) =
      (.attempted way via next, effects)) :
    Goes rules list.val cells now hold host port effects way via := by
  have hdials : upstreamsOf effects =
      (list.val.get (list.val.selected cells now hold)).toList.map
        fun entry => entry.upstream.socket := by
    rw [← preferred_upstreams, h]
  cases hget : list.val.get (list.val.selected cells now hold) with
  | none =>
      rw [hget] at h
      cases h
      refine ⟨by simp, by simp, by simp, fun _ => ⟨⟨rule, hdecide⟩, rfl, ?_⟩⟩
      rw [hget]
      rfl
  | some entry =>
      rw [hget] at h
      by_cases hreached : ∃ stream, net.socks entry.upstream.socket host port
          (seconds UpstreamBudget.prefer.allowance) = some (.ok stream)
      · obtain ⟨stream, hstream⟩ := hreached
        rw [preferred_reached hstream] at h
        cases h
        refine ⟨by simp, by simp, ?_, by simp⟩
        rintro _ ⟨⟩
        exact ⟨_, rule, entry, hdecide, rfl, rfl, rfl, required_of_get hget, Or.inr hget⟩
      · obtain ⟨verdicts, hfell, hverdicts⟩ := preferred_fell_back hreached
        rw [hfell] at h
        cases h
        refine ⟨by simp, by simp, by simp, fun _ => ⟨⟨rule, hdecide⟩, ?_, hdials⟩⟩
        rcases hverdicts with rfl | rfl | ⟨rfl, _⟩ <;> rfl

theorem dial_goes {effects : List Effect}
    (h : dial net list cells now hold host port (rules.decide host port) =
      (.attempted way via next, effects)) :
    Goes rules list.val cells now hold host port effects way via := by
  cases hdecide : rules.decide host port with
  | direct =>
      rw [hdecide] at h
      cases h
      refine ⟨fun _ => ?_, by simp, by simp, by simp⟩
      simp [Cli.decisionView, hdecide, directsOf, upstreamsOf, Effect.direct?, Effect.upstream?]
  | never rule =>
      rw [hdecide] at h
      cases h
      refine ⟨fun _ => ?_, by simp, by simp, by simp⟩
      simp [Cli.decisionView, hdecide, directsOf, upstreamsOf, Effect.direct?, Effect.upstream?]
  | upstream ruleClass rule =>
      rw [hdecide] at h
      cases ruleClass with
      | never => exact absurd hdecide ((Ruleset.decides_decide rules host port).proper rule)
      | prefer =>
          obtain ⟨hdialled, rfl⟩ := Prod.mk.inj h
          exact (preferred_goes hdecide (Prod.ext hdialled rfl)).observed
      | require =>
          cases hrequired : list.val.required (list.val.selected cells now hold) with
          | none =>
              simp only [dial, Upstream.routed, hrequired] at h
              cases h
          | some entry =>
              have hdials : upstreamsOf (required net host port rule (some entry)).2 =
                  [entry.upstream.socket] := required_upstreams (some entry)
              have hdirects : directsOf (required net host port rule (some entry)).2 = [] :=
                required_directs (some entry)
              simp only [dial, Upstream.routed, hrequired] at h
              cases h
              refine ⟨by simp, by simp, ?_, by simp⟩
              rintro _ ⟨⟩
              exact ⟨_, rule, entry, hdecide, rfl, hdials, hdirects, hrequired, Or.inl rfl⟩

omit [External] in
/-- A `prefer` dial has the direct route left. -/
theorem preferred_ne_refused {selected : Option UpstreamEntry} {failure : IoError} :
    (preferred net host port selected).1 ≠ .refused failure := by
  intro h
  cases selected with
  | none => cases h
  | some entry =>
      by_cases hreached : ∃ stream, net.socks entry.upstream.socket host port
          (seconds UpstreamBudget.prefer.allowance) = some (.ok stream)
      · obtain ⟨stream, hstream⟩ := hreached
        rw [preferred_reached hstream] at h
        cases h
      · obtain ⟨verdicts, hfell, _⟩ := preferred_fell_back hreached
        rw [hfell] at h
        cases h

/-- A dial that is refused has no upstream to go through, and opens nothing. -/
theorem dial_refused {failure : IoError} {effects : List Effect}
    (h : dial net list cells now hold host port (rules.decide host port) =
      (.refused failure, effects)) :
    (∃ rule, rules.decide host port = .upstream .require rule) ∧ list.val.entries = [] ∧
      upstreamsOf effects = [] ∧ directsOf effects = [] := by
  cases hdecide : rules.decide host port with
  | direct =>
      rw [hdecide] at h
      cases h
  | never rule =>
      rw [hdecide] at h
      cases h
  | upstream ruleClass rule =>
      rw [hdecide] at h
      cases ruleClass with
      | never => exact absurd hdecide ((Ruleset.decides_decide rules host port).proper rule)
      | prefer => exact absurd (congrArg Prod.fst h) preferred_ne_refused
      | require =>
          cases hrequired : list.val.required (list.val.selected cells now hold) with
          | none =>
              simp only [dial, Upstream.routed, hrequired] at h
              cases h
              exact ⟨⟨rule, rfl⟩, required_eq_none.mp hrequired, rfl, rfl⟩
          | some entry =>
              simp only [dial, Upstream.routed, hrequired] at h
              cases h

end dial

/-! ### The connection -/

section connection

variable [External] [SocksText] {state : DaemonState} {moment : Moment} {net : Network}
  {wire : Wire} {host : Host} {port : Port} {status : StatusView}

/-- The rules, the published upstreams and the clock a connection is routed by. -/
def DaemonState.here (state : DaemonState) (moment : Moment) : Proxy.Moment :=
  ⟨state.upstream, state.cells, moment.now⟩

/-- What becomes of the record of a connection whose dial phase is over, and what its
dial did. -/
inductive Dialling (state : DaemonState) (moment : Moment) (net : Network) (wire : Wire)
    (host : Host) (port : Port) : List Effect → Connect → Prop
  | loop (hown : wire.Own host port) : Dialling state moment net wire host port [] .refused
  | refused {failure : IoError} {effects : List Effect}
      (h : dial net state.upstream state.cells moment.now state.hold host port
        (state.rules.decide host port) = (.refused failure, effects)) :
      Dialling state moment net wire host port effects .refused
  | attempted {took : ℕ} {way : EffectiveHop} {via : Option UpstreamAddr}
      {next : Except IoError TcpStream} {effects : List Effect}
      (h : dial net state.upstream state.cells moment.now state.hold host port
        (state.rules.decide host port) = (.attempted way via next, effects)) :
      Dialling state moment net wire host port effects (.attempted took way via)

omit [SocksText] in
theorem phase_of_timed {connect : Connect} {next : Except Failure TcpStream}
    (h : timed (dial net state.upstream state.cells moment.now state.hold host port
      (state.rules.decide host port)).1 wire.took = (connect, next)) :
    Dialling state moment net wire host port (dial net state.upstream state.cells moment.now
      state.hold host port (state.rules.decide host port)).2 connect := by
  cases hdial : dial net state.upstream state.cells moment.now state.hold host port
      (state.rules.decide host port) with
  | mk dialled effects =>
      rw [hdial] at h
      cases dialled with
      | refused failure =>
          cases h
          exact .refused hdial
      | attempted way via next =>
          cases h
          exact .attempted hdial

omit [SocksText] in
/-- What a course dials is what its dial phase did. -/
theorem dialling_of_course {speaks : Bool} {actions : List Action} {connect : Connect}
    {failure : Option Failure}
    (h : Course wire (upstreamHop net state.hold (state.here moment) (state.here moment)) host port
      (state.rules.decide host port) speaks actions connect failure) :
    Dialling state moment net wire host port (effectsOf actions) connect := by
  cases h with
  | loop hown h =>
      rw [effectsOf_answered h]
      exact .loop hown
  | failed helsewhere htimed h =>
      have hdial := phase_of_timed htimed
      rw [effectsOf, List.flatMap_cons, ← effectsOf, effectsOf_answered h, List.append_nil]
      exact hdial
  | reached helsewhere htimed h =>
      have hdial := phase_of_timed htimed
      rw [effectsOf, List.flatMap_cons, ← effectsOf, effectsOf_carried h, List.append_nil]
      exact hdial

omit [SocksText] in
/-- `test` names the decision and the rule an event will. -/
theorem decision_foretold (state : DaemonState) (moment : Moment) (host : Host) (port : Port) :
    (state.rules.decide host port).kind = (state.decision moment host port).decision ∧
      matchedIndex (state.rules.decide host port) = (state.decision moment host port).ruleIndex ∧
      (state.rules.decide host port).ruleClass = (state.decision moment host port).ruleClass := by
  unfold DaemonState.decision
  cases hdecide : state.rules.decide host port with
  | direct => simp [Cli.decisionView, hdecide, Decision.kind, matchedIndex, Decision.rule,
      Decision.ruleClass]
  | never rule => simp [Cli.decisionView, hdecide, Decision.kind, matchedIndex, Decision.rule,
      Decision.ruleClass, Cli.indexed, Cli.counted]
  | upstream ruleClass rule =>
      rw [decisionView_upstream hdecide]
      exact ⟨rfl, rfl, rfl⟩

omit [External] [SocksText] in
/-- An upstream is marked exactly when one is selected. -/
theorem verdict_foretold (state : DaemonState) (moment : Moment) (net : Network) :
    (upstreamHop net state.hold (state.here moment) (state.here moment)).verdict = .up ↔
      ∃ view ∈ Cli.upstreamViews state.upstream.val state.cells
        (state.upstream.val.selected state.cells moment.now state.hold), view.selected = true := by
  cases hselected : state.upstream.val.selected state.cells moment.now state.hold with
  | none =>
      simp only [upstreamHop, DaemonState.here, hselected, reduceCtorEq, false_iff]
      rintro ⟨view, hmem, hmarked⟩
      rw [unmarked_of_none view hmem] at hmarked
      cases hmarked
  | some index =>
      obtain ⟨entry, hentry⟩ := get_of_selected hselected
      obtain ⟨view, hmem, hmarked, _⟩ := marked_of_get state.cells hentry
      simp only [upstreamHop, DaemonState.here, hselected, true_iff]
      exact ⟨view, hmem, hmarked⟩

omit [SocksText] in
/-- The address `test` names for an upstream that is dialled. -/
theorem nextHop_foretold (moment : Moment) {ruleClass : RuleClass} {rule : RuleId}
    {upstream : Option UpstreamEntry}
    (hdecide : state.rules.decide host port = .upstream ruleClass rule)
    (hupstream : state.upstream.val.required
      (state.upstream.val.selected state.cells moment.now state.hold) = upstream) :
    (state.decision moment host port).decision = .upstream ∧
      (state.decision moment host port).ruleClass = some ruleClass ∧
      (state.decision moment host port).nextHop =
        Cli.upstreamName (upstream.map fun entry => entry.upstream.written) := by
  unfold DaemonState.decision
  rw [decisionView_upstream hdecide, hupstream]
  exact ⟨rfl, rfl, rfl⟩

/-- **An event says what was foretold.** -/
theorem Dialling.foretold {connect : Connect} {failure : Option Failure} {lasted : ℕ}
    {effects : List Effect} (h : Dialling state moment net wire host port effects connect)
    (hstatus : state.report moment = .status status) :
    Foretold (wire.Own host port) (state.decision moment host port) status
      state.upstream.val.entries effects
      (((Routed.begun
        (upstreamHop net state.hold (state.here moment) (state.here moment)).verdict host port
        (state.rules.decide host port)).dialled connect).ended failure lasted) := by
  obtain rfl := Response.status.inj hstatus
  obtain ⟨hkind, hindex, hclass⟩ := decision_foretold state moment host port
  have hverdict := verdict_foretold state moment net
  cases h with
  | loop hown =>
      exact ⟨hkind, hindex, hclass, hverdict, by simp [Routed.ended, Routed.dialled],
        by simp [Routed.ended, Routed.dialled], by simp [Routed.ended, Routed.dialled],
        by simp [Routed.ended, Routed.dialled], fun _ => ⟨rfl, rfl, Or.inl hown⟩⟩
  | refused hdial =>
      obtain ⟨⟨rule, hdecide⟩, hempty, hupstreams, hdirects⟩ := dial_refused hdial
      obtain ⟨_, hrequire, hnext⟩ := nextHop_foretold moment hdecide (required_eq_none.mpr hempty)
      refine ⟨hkind, hindex, hclass, hverdict, by simp [Routed.ended, Routed.dialled],
        by simp [Routed.ended, Routed.dialled], by simp [Routed.ended, Routed.dialled],
        by simp [Routed.ended, Routed.dialled],
        fun _ => ⟨hupstreams, hdirects, Or.inr ⟨hrequire, hnext, ?_⟩⟩⟩
      simp [Cli.upstreamViews, hempty]
  | @attempted took way via next _ hdial =>
      have hgoes := dial_goes hdial
      refine ⟨hkind, hindex, hclass, hverdict, ?_, ?_, ?_, ?_, by simp [Routed.ended,
        Routed.dialled]⟩
      · intro hway
        exact hgoes.direct (Option.some.inj hway)
      · intro hway
        exact hgoes.carried (Option.some.inj hway)
      · intro addr hvia
        obtain ⟨ruleClass, rule, entry, hdecide, rfl, hdials, hdirects, hrequired, hchosen⟩ :=
          hgoes.upstream addr hvia
        obtain ⟨hdecision, _, hnext⟩ := nextHop_foretold moment hdecide hrequired
        refine ⟨hdecision, hnext, ⟨entry, mem_of_required hrequired, rfl, hdials⟩, hdirects, ?_⟩
        cases hget : state.upstream.val.get
            (state.upstream.val.selected state.cells moment.now state.hold) with
        | some chosen =>
            rw [required_of_get hget] at hrequired
            obtain rfl := Option.some.inj hrequired
            exact Or.inl (marked_of_get state.cells hget)
        | none =>
            -- nothing is up, so only a rule that insists still goes through an upstream
            have hrequire : ruleClass = .require := hchosen.resolve_right (by simp [hget])
            have hfirst : state.upstream.val.first = some entry := by
              simpa [UpstreamEntries.required, hget] using hrequired
            refine Or.inr ⟨?_, ?_, ?_⟩
            · show (state.rules.decide host port).ruleClass = _
              rw [hdecide, hrequire]
              rfl
            · show (state.first state.upstream.val).1 = _
              simp [DaemonState.first, hfirst]
            · rw [selected_none_of_get hget]
              exact unmarked_of_none
      · intro hway
        obtain ⟨⟨rule, hdecide⟩, hdirects, hupstreams⟩ := hgoes.fallback (Option.some.inj hway)
        obtain ⟨hdecision, hprefer, _⟩ := nextHop_foretold moment hdecide rfl
        refine ⟨hdecision, hprefer, hdirects, ?_, ?_⟩
        · intro view hmem hmarked
          obtain ⟨entry, hget, haddr⟩ := get_of_marked hmem hmarked
          refine ⟨entry, mem_of_get hget, haddr.symm, ?_⟩
          rw [hupstreams, hget]
          rfl
        · intro hunmarked
          have hnone : state.upstream.val.get
              (state.upstream.val.selected state.cells moment.now state.hold) = none := by
            refine Option.eq_none_iff_forall_ne_some.mpr fun entry hget => ?_
            obtain ⟨view, hmem, hmarked, _⟩ := marked_of_get state.cells hget
            rw [hunmarked view hmem] at hmarked
            cases hmarked
          rw [hupstreams, hnone]
          rfl

/-- **What `test` and `status` foretell.** A connection that a front end serves by
the rules, the upstreams and the clock `test` and `status` read publishes the decision
and the rule `test` names. It goes straight to the destination only where `test` names
the destination, and dials no upstream; it goes through an upstream only where `test`
names that upstream, having dialled it alone, and `status` marks it, or a `require`
rule has it for the first one while none is marked. It falls back only for a `prefer`
rule, having dialled the upstream marked, or none while none is; and it dials nothing
only if it was for the front end's own address, or `test` names no next hop. -/
theorem serving_foretold (frontEnd : FrontEnd) (state : DaemonState) (moment : Moment)
    (net : Network) (wire : Wire) (incoming : List UInt8) :
    let here := state.here moment
    let run := frontEnd.serve ⟨state.rules⟩ (upstreamHop net state.hold here here) wire
      (.accepted incoming)
    ∃ status, state.report moment = .status status ∧
      ∀ event ∈ eventsOf run.2.trace, Foretold (wire.Own event.host event.port)
        (state.decision moment event.host event.port) status state.upstream.val.entries
        (effectsOf run.2.trace) event := by
  intro here run
  refine ⟨_, rfl, fun event hmem => ?_⟩
  have hstory : Story ⟨state.rules⟩ wire (upstreamHop net state.hold here here) frontEnd.speaks
      (failureOf run.1) run.2.trace := frontEnd.serve_story incoming
  obtain ⟨trace, htrace⟩ : ∃ trace, run.2.trace = trace := ⟨_, rfl⟩
  obtain ⟨failure, hfailure⟩ : ∃ failure, failureOf run.1 = failure := ⟨_, rfl⟩
  rw [htrace, hfailure] at hstory
  rw [htrace] at hmem ⊢
  cases hstory with
  | unrouted hgreeted =>
      rw [hgreeted.events] at hmem
      cases hmem
  | turnedAway hgreeted bytes lost =>
      rw [eventsOf_append, hgreeted.events] at hmem
      cases hmem
  | @routed before _ host port hgreeted hrouting =>
      obtain ⟨actions, connect, hcourse, rfl⟩ := hrouting
      rw [events_of_amid hgreeted fun _ haction => hcourse.amid haction] at hmem
      obtain rfl := List.mem_singleton.mp hmem
      have heffects : effectsOf (before ++ .decided host port (state.rules.decide host port) ::
          actions ++ [.published (((Routed.begun (upstreamHop net state.hold here here).verdict host
            port (state.rules.decide host port)).dialled connect).ended failure wire.lasted)]) =
          effectsOf actions := by
        rw [effectsOf_append, effectsOf_append, effectsOf_greeted hgreeted]
        exact List.append_nil _
      rw [heffects]
      exact (dialling_of_course hcourse).foretold rfl

end connection

end Nhop.Daemon
