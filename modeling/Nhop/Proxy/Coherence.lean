import Nhop.Proxy.FrontEnd

/-!
The trace contract of a front end: one coherent event for each routed connection.

Nothing is published before a decision and exactly one event once there is one,
and what the event says is what happened: the decision is that of the rules the
connection was accepted with, a dial is reported when one was attempted, and a
failure when serving failed. A success is told only behind a dial that succeeded
and before any byte moves, and of the two answers at most one is given.
-/

namespace Nhop.Proxy

open Foundation Ipc Rules Nhop.Upstream

/-! ### Reading a trace -/

def Action.event? : Action → Option EventView
  | .published event => some event
  | .told _ _ _ | .decided _ _ _ | .dialled _ _ | .sent _ | .relayed _ _ => none

/-- Whether the client's request is granted or refused. -/
def Action.isAnswer : Action → Bool
  | .told .granted _ _ | .told .refusal _ _ => true
  | .told .chosen _ _ | .decided _ _ _ | .dialled _ _ | .sent _ | .relayed _ _
  | .published _ => false

/-- The events a trace publishes. -/
def eventsOf (trace : List Action) : List EventView := trace.filterMap Action.event?

/-- The answers a trace gives. -/
def answersOf (trace : List Action) : List Action := trace.filter Action.isAnswer

/-- A dial was attempted. -/
def Attempted (trace : List Action) : Prop :=
  ∃ hop via next effects, .dialled (.attempted hop via next) effects ∈ trace

/-- A dial succeeded. -/
def Succeeded (trace : List Action) : Prop :=
  ∃ hop via next effects, .dialled (.attempted hop via (.ok next)) effects ∈ trace

/-! ### The contract -/

/-- What the event of a connection to `host` and `port` says. -/
structure Reports [External] (rules : Ruleset) (host : Host) (port : Port)
    (result : Except Failure Unit) (trace : List Action) (event : EventView) : Prop where
  destination : event.host = host ∧ event.port = port
  decision : event.decision = (rules.decide host port).kind
  ruleIndex : event.ruleIndex =
    (rules.decide host port).rule.map fun rule => min rule.index (2 ^ 32 - 1)
  ruleClass : event.ruleClass = (rules.decide host port).ruleClass
  timed : event.connectMs.isSome ↔ event.hop.isSome
  dialled : event.hop.isSome ↔ Attempted trace
  via : event.via.isSome ↔ event.hop = some .upstream
  fallback : event.hop = some .fallbackDirect → event.ruleClass = some .prefer
  error : event.error.isSome ↔ ∃ failure, result = .error failure

structure Coherent [External] (rules : Ruleset) (result : Except Failure Unit)
    (trace : List Action) : Prop where
  /-- No event without a decision before it. -/
  quiet : ∀ before event after, trace = before ++ .published event :: after →
    ∃ host port decision, .decided host port decision ∈ before
  /-- Exactly one event once there is a decision. -/
  told : ∀ host port decision, .decided host port decision ∈ trace →
    decision = rules.decide host port ∧
      ∃ event, eventsOf trace = [event] ∧ Reports rules host port result trace event
  granted : ∀ before bytes lost after, trace = before ++ .told .granted bytes lost :: after →
    Succeeded before ∧ ∀ action ∈ before, action.isTraffic = false
  answers : (answersOf trace).length ≤ 1

/-! ### What a dial reports -/

section dial

variable {net : Network} {moment : Moment} {hold : ℕ} {host : Host} {port : Port}
  {decision : Decision} {hop : EffectiveHop} {via : Option UpstreamAddr}
  {next : Except IoError TcpStream}

/-- A dial names an upstream exactly when it reports having gone through one, and
falls back only for a `prefer` rule. -/
structure Travels (decision : Decision) (hop : EffectiveHop) (via : Option UpstreamAddr) :
    Prop where
  via : via.isSome ↔ hop = .upstream
  fallback : hop = .fallbackDirect → decision.ruleClass = some .prefer

theorem travels_direct : Travels decision .direct none := by
  constructor <;> simp

theorem travels_upstream {addr : UpstreamAddr} : Travels decision .upstream (some addr) := by
  constructor <;> simp

theorem travels_fallback {rule : RuleId} :
    Travels (.upstream .prefer rule) .fallbackDirect none := by
  constructor <;> simp [Decision.ruleClass]

theorem preferred_travels {selected : Option UpstreamEntry} {rule : RuleId}
    (h : (preferred net host port selected).1 = .attempted hop via next) :
    Travels (.upstream .prefer rule) hop via := by
  unfold preferred at h
  cases selected with
  | none =>
      cases h
      exact travels_fallback
  | some entry =>
      dsimp only at h
      cases hreached : (through net host port entry.upstream.socket .prefer).1 with
      | ok stream =>
          rw [hreached] at h
          cases h
          exact travels_upstream
      | error failure =>
          rw [hreached] at h
          cases failure with
          | upstream | destination | unsent =>
              cases h
              exact travels_fallback

theorem required_travels {entry : Option UpstreamEntry} {rule : RuleId}
    (h : (required net host port rule entry).1 = .attempted hop via next) :
    Travels decision hop via := by
  cases entry with
  | none => cases h
  | some entry =>
      cases h
      exact travels_upstream

theorem dial_travels
    (h : (dial net moment.list moment.cells moment.now hold host port decision).1 =
      .attempted hop via next) : Travels decision hop via := by
  cases decision with
  | direct | never =>
      cases h
      exact travels_direct
  | upstream ruleClass rule =>
      cases ruleClass with
      | never =>
          cases h
          exact travels_direct
      | require => exact required_travels h
      | prefer => exact preferred_travels h

end dial

/-! ### What a course consists of -/

section course

variable [External] {wire : Wire} {hop : NextHop} {host : Host} {port : Port}
  {decision : Decision} {speaks : Bool} {actions before after : List Action} {connect : Connect}
  {failure : Option Failure} {action : Action}

/-- What may stand between a decision and its event. -/
def Action.Amid (hop : NextHop) (host : Host) (port : Port) (decision : Decision) :
    Action → Prop
  | .told word _ _ => word ≠ .chosen
  | .dialled outcome effects => hop.dial host port decision = (outcome, effects)
  | .sent _ | .relayed _ _ => True
  | .decided _ _ _ | .published _ => False

omit [External] in
theorem Answered.eq_told {cause ends : Failure} (h : Answered wire cause speaks actions ends)
    (hmem : action ∈ actions) : ∃ bytes lost, action = .told .refusal bytes lost := by
  cases h with
  | mute => cases hmem
  | told bytes | lost bytes => exact ⟨bytes, _, List.mem_singleton.mp hmem⟩

omit [External] in
theorem Answered.amid {cause ends : Failure} (h : Answered wire cause speaks actions ends)
    (hmem : action ∈ actions) : action.Amid hop host port decision := by
  obtain ⟨_, _, rfl⟩ := h.eq_told hmem
  exact fun h => Word.noConfusion h

omit [External] in
theorem Traffic.amid (h : Traffic actions) (hmem : action ∈ actions) :
    action.Amid hop host port decision := by
  have htraffic := h action hmem
  cases action with
  | sent | relayed => trivial
  | told | decided | dialled | published => cases htraffic

omit [External] in
theorem Carried.amid (h : Carried actions) (hmem : action ∈ actions) :
    action.Amid hop host port decision := by
  cases h with
  | traffic h => exact h.amid hmem
  | granted bytes lost h =>
      rcases List.mem_cons.mp hmem with rfl | hmem
      · exact fun h => Word.noConfusion h
      · exact h.amid hmem

theorem Course.amid (h : Course wire hop host port decision speaks actions connect failure)
    (hmem : action ∈ actions) : action.Amid hop host port decision := by
  cases h with
  | loop _ h => exact h.amid hmem
  | failed _ _ h =>
      rcases List.mem_cons.mp hmem with rfl | hmem
      · exact rfl
      · exact h.amid hmem
  | reached _ _ h =>
      rcases List.mem_cons.mp hmem with rfl | hmem
      · exact rfl
      · exact h.amid hmem

omit [External] in
/-- A refusal is one answer at most. -/
theorem Answered.answers {cause ends : Failure} (h : Answered wire cause speaks actions ends) :
    (answersOf actions).length ≤ 1 := by
  cases h with
  | mute => exact Nat.zero_le 1
  | told | lost => exact Nat.le_refl 1

omit [External] in
theorem Traffic.answers (h : Traffic actions) : answersOf actions = [] := by
  refine List.filter_eq_nil_iff.mpr fun action hmem => ?_
  have htraffic := h action hmem
  cases action with
  | sent | relayed => exact Bool.false_ne_true
  | told | decided | dialled | published => cases htraffic

omit [External] in
theorem Carried.answers (h : Carried actions) : (answersOf actions).length ≤ 1 := by
  cases h with
  | traffic h => simp [h.answers]
  | granted bytes lost h =>
      show (_ :: answersOf _).length ≤ 1
      simp [h.answers]

theorem Course.answers (h : Course wire hop host port decision speaks actions connect failure) :
    (answersOf actions).length ≤ 1 := by
  cases h with
  | loop _ h => exact h.answers
  | failed _ _ h => exact h.answers
  | reached _ _ h => exact h.answers

omit [External] in
theorem timed_ok {outcome : Dialled} {took : ℕ} {next : TcpStream}
    (h : timed outcome took = (connect, .ok next)) :
    ∃ way via, outcome = .attempted way via (.ok next) := by
  cases outcome with
  | refused => cases h
  | attempted way via reached =>
      cases reached with
      | error => cases h
      | ok stream =>
          cases h
          exact ⟨way, via, rfl⟩

omit [External] in
theorem timed_attempted {outcome : Dialled} {took : ℕ} {next : Except Failure TcpStream}
    (h : timed outcome took = (connect, next)) :
    (∃ way via reached, outcome = .attempted way via reached) ↔
      ∃ took way via, connect = .attempted took way via := by
  cases outcome with
  | refused =>
      cases h
      simp
  | attempted way via reached =>
      cases h
      simp

/-- A success is told right behind a dial that succeeded. -/
theorem Course.granted (h : Course wire hop host port decision speaks actions connect failure)
    {bytes : List UInt8} {lost : Option OsError}
    (hsplit : actions = before ++ .told .granted bytes lost :: after) :
    Succeeded before ∧ ∀ action ∈ before, action.isTraffic = false := by
  have hmem : .told .granted bytes lost ∈ actions := by
    rw [hsplit]
    simp
  cases h with
  | loop _ h => obtain ⟨_, _, hne⟩ := h.eq_told hmem; cases hne
  | failed _ _ h =>
      obtain ⟨_, _, hne⟩ := h.eq_told (List.mem_of_ne_of_mem (by simp) hmem)
      cases hne
  | reached _ htimed h =>
      obtain ⟨way, via, hdial⟩ := timed_ok htimed
      cases h with
      | traffic h => cases h _ (List.mem_of_ne_of_mem (by simp) hmem)
      | granted bytes' lost' h =>
          match before, hsplit with
          | [], hsplit => cases hsplit
          | [_], hsplit =>
              obtain ⟨rfl, _⟩ := List.cons.inj hsplit
              refine ⟨⟨way, via, _, _, by rw [hdial]; exact List.mem_cons_self ..⟩, ?_⟩
              intro action hmem
              rw [List.mem_singleton.mp hmem]
              rfl
          | _ :: _ :: rest, hsplit =>
              have hrest : _ = rest ++ .told .granted bytes lost :: after :=
                (List.cons.inj (List.cons.inj hsplit).2).2
              cases h (.told .granted bytes lost) (by rw [hrest]; simp)

omit [External] in
theorem attempted_dialled {took : ℕ} {next : Except Failure TcpStream}
    (htimed : timed (hop.dial host port decision).1 took = (connect, next))
    (hamid : ∀ action ∈ actions, action.Amid hop host port decision) :
    Attempted (.dialled (hop.dial host port decision).1 (hop.dial host port decision).2 ::
      actions) ↔ ∃ took way via, connect = .attempted took way via := by
  rw [← timed_attempted htimed]
  constructor
  · rintro ⟨way, via, next, effects, hmem⟩
    rcases List.mem_cons.mp hmem with heq | hmem
    · exact ⟨way, via, next, (Action.dialled.inj heq).1.symm⟩
    · have hagain : hop.dial host port decision = (.attempted way via next, effects) :=
        hamid _ hmem
      exact ⟨way, via, next, by rw [hagain]⟩
  · rintro ⟨way, via, next, heq⟩
    exact ⟨way, via, next, _, by rw [heq]; exact List.mem_cons_self ..⟩

/-- A dial was attempted exactly when the dial phase cost something. -/
theorem Course.attempted
    (h : Course wire hop host port decision speaks actions connect failure) :
    Attempted actions ↔ ∃ took way via, connect = .attempted took way via := by
  cases h with
  | loop _ h =>
      constructor
      · rintro ⟨way, via, next, effects, hmem⟩
        obtain ⟨_, _, hne⟩ := h.eq_told hmem
        cases hne
      · rintro ⟨_, _, _, hne⟩
        cases hne
  | failed _ htimed h => exact attempted_dialled htimed fun _ hmem => h.amid hmem
  | reached _ htimed h => exact attempted_dialled htimed fun _ hmem => h.amid hmem

/-- What a dial phase cost says which way the dial went. -/
theorem Course.travelled
    (h : Course wire hop host port decision speaks actions connect failure) {took : ℕ}
    {way : EffectiveHop} {via : Option UpstreamAddr} (hconnect : connect = .attempted took way via) :
    ∃ next, (hop.dial host port decision).1 = .attempted way via next := by
  have hsplit {next : Except Failure TcpStream}
      (htimed : timed (hop.dial host port decision).1 wire.took = (connect, next)) :
      ∃ next, (hop.dial host port decision).1 = .attempted way via next := by
    subst hconnect
    cases hdial : (hop.dial host port decision).1 with
    | refused =>
        rw [hdial] at htimed
        cases htimed
    | attempted =>
        rw [hdial] at htimed
        cases htimed
        exact ⟨_, rfl⟩
  cases h with
  | loop => cases hconnect
  | failed _ htimed _ => exact hsplit htimed
  | reached _ htimed _ => exact hsplit htimed

omit [External] in
theorem Action.Amid.event (h : action.Amid hop host port decision) : action.event? = none := by
  cases action with
  | told | decided | dialled | sent | relayed => rfl
  | published => cases h

end course

/-! ### The contract is kept -/

section coherent

variable [External] [SocksText] {ctx : ConnCtx} {wire : Wire} {hop : NextHop} {host : Host}
  {port : Port} {speaks : Bool} {before trace : List Action} {failure : Option Failure}

omit [External] [SocksText] in
theorem eventsOf_append (before behind : List Action) :
    eventsOf (before ++ behind) = eventsOf before ++ eventsOf behind := List.filterMap_append

omit [External] [SocksText] in
theorem Greeted.events (h : Greeted trace) : eventsOf trace = [] := by
  refine List.filterMap_eq_nil_iff.mpr fun action hmem => ?_
  obtain ⟨_, _, rfl⟩ := h action hmem
  rfl

omit [External] [SocksText] in
theorem Greeted.answers (h : Greeted trace) : answersOf trace = [] := by
  refine List.filter_eq_nil_iff.mpr fun action hmem => ?_
  obtain ⟨_, _, rfl⟩ := h action hmem
  exact Bool.false_ne_true

omit [External] [SocksText] in
theorem mem_eventsOf {event : EventView} (h : .published event ∈ trace) : event ∈ eventsOf trace :=
  List.mem_filterMap.mpr ⟨_, h, rfl⟩

omit [SocksText] in
/-- A connection without an event was not decided, and told nothing but at most one
refusal. -/
theorem coherent_of_undecided {rules : Ruleset} {result : Except Failure Unit}
    (h : ∀ action ∈ trace, ∃ word bytes lost, action = .told word bytes lost ∧ word ≠ .granted)
    (hanswers : (answersOf trace).length ≤ 1) : Coherent rules result trace where
  quiet := by
    rintro before event after rfl
    obtain ⟨_, _, _, hne, _⟩ := h (.published event) (by simp)
    cases hne
  told := by
    intro host port decision hmem
    obtain ⟨_, _, _, hne, _⟩ := h _ hmem
    cases hne
  granted := by
    rintro before bytes lost after rfl
    obtain ⟨_, _, _, heq, hne⟩ := h (.told .granted bytes lost) (by simp)
    cases heq
    exact absurd rfl hne
  answers := hanswers

/-- The event of a routed connection says what happened to it. -/
theorem Course.reports {rules : Ruleset} {actions : List Action} {connect : Connect}
    {result : Except Failure Unit} {lasted : ℕ}
    (hdial : ∀ way via next,
      (hop.dial host port (rules.decide host port)).1 = .attempted way via next →
        Travels (rules.decide host port) way via)
    (h : Course wire hop host port (rules.decide host port) speaks actions connect
      (failureOf result))
    (hattempted : Attempted trace ↔ Attempted actions) :
    Reports rules host port result trace
      (((Routed.begun hop.verdict host port (rules.decide host port)).dialled connect).ended
        (failureOf result) lasted) := by
  have herror : ((failureOf result).map Failure.display).isSome ↔
      ∃ failure, result = .error failure := by
    cases result <;> simp [failureOf]
  rw [h.attempted] at hattempted
  cases hconnect : connect with
  | refused =>
      refine ⟨⟨rfl, rfl⟩, rfl, rfl, rfl, by simp [Routed.dialled, Routed.ended], ?_, ?_, ?_, herror⟩
      · rw [hattempted, hconnect]
        simp [Routed.dialled, Routed.ended]
      · simp [Routed.dialled, Routed.ended]
      · intro hfallback
        cases hfallback
  | attempted took way via =>
      obtain ⟨next, hnext⟩ := h.travelled hconnect
      have htravels := hdial way via next hnext
      refine ⟨⟨rfl, rfl⟩, rfl, rfl, rfl, by simp [Routed.dialled, Routed.ended], ?_, ?_, ?_, herror⟩
      · rw [hattempted, hconnect]
        simp [Routed.dialled, Routed.ended]
      · simpa [Routed.dialled, Routed.ended] using htravels.via
      · intro hfallback
        exact htravels.fallback (by simpa [Routed.dialled, Routed.ended] using hfallback)

section routed

variable {actions : List Action} {decision : Decision} {event : EventView}

omit [External] [SocksText] in
/-- Nothing is published before the course is over. -/
theorem silent_of_amid (hgreeted : Greeted before)
    (hamid : ∀ action ∈ actions, action.Amid hop host port decision) :
    eventsOf (before ++ .decided host port decision :: actions) = [] := by
  rw [eventsOf_append, hgreeted.events, List.nil_append]
  refine List.filterMap_eq_nil_iff.mpr fun action hmem => ?_
  rcases List.mem_cons.mp hmem with rfl | hmem
  · rfl
  · exact (hamid action hmem).event

omit [External] [SocksText] in
theorem events_of_amid (hgreeted : Greeted before)
    (hamid : ∀ action ∈ actions, action.Amid hop host port decision) :
    eventsOf (before ++ .decided host port decision :: actions ++ [.published event]) =
      [event] := by
  rw [eventsOf_append, silent_of_amid hgreeted hamid]
  rfl

omit [External] [SocksText] in
/-- There is one decision. -/
theorem decided_of_amid (hgreeted : Greeted before)
    (hamid : ∀ action ∈ actions, action.Amid hop host port decision) {host' : Host} {port' : Port}
    {decision' : Decision}
    (hmem : .decided host' port' decision' ∈
      before ++ .decided host port decision :: actions ++ [.published event]) :
    host' = host ∧ port' = port ∧ decision' = decision := by
  rcases List.mem_append.mp hmem with hmem | hmem
  · rcases List.mem_append.mp hmem with hmem | hmem
    · obtain ⟨_, _, hne⟩ := hgreeted _ hmem
      cases hne
    · rcases List.mem_cons.mp hmem with heq | hmem
      · cases heq
        exact ⟨rfl, rfl, rfl⟩
      · cases hamid _ hmem
  · cases List.mem_singleton.mp hmem

end routed

/-- What is routed is coherent. -/
theorem Routing.coherent {result : Except Failure Unit}
    (hdial : ∀ way via next,
      (hop.dial host port (ctx.rules.decide host port)).1 = .attempted way via next →
        Travels (ctx.rules.decide host port) way via)
    (hgreeted : Greeted before)
    (h : Routing ctx wire hop host port speaks before (failureOf result) trace) :
    Coherent ctx.rules result trace := by
  obtain ⟨actions, connect, hcourse, htrace⟩ := h
  have hamid : ∀ action ∈ actions, action.Amid hop host port (ctx.rules.decide host port) :=
    fun _ hmem => hcourse.amid hmem
  generalize hevent : ((Routed.begun hop.verdict host port
    (ctx.rules.decide host port)).dialled connect).ended (failureOf result) wire.lasted = event
    at htrace
  have hanswers : answersOf trace = answersOf actions := by
    rw [htrace]
    show List.filter _ _ = _
    rw [List.filter_append, List.filter_append]
    show answersOf before ++ answersOf actions ++ [] = _
    rw [hgreeted.answers, List.nil_append, List.append_nil]
  have hattempted : Attempted trace ↔ Attempted actions := by
    constructor
    · rintro ⟨way, via, next, effects, hmem⟩
      refine ⟨way, via, next, effects, ?_⟩
      rw [htrace] at hmem
      rcases List.mem_append.mp hmem with hmem | hmem
      · rcases List.mem_append.mp hmem with hmem | hmem
        · obtain ⟨_, _, hne⟩ := hgreeted _ hmem
          cases hne
        · exact List.mem_of_ne_of_mem (by simp) hmem
      · simp at hmem
    · rintro ⟨way, via, next, effects, hmem⟩
      exact ⟨way, via, next, effects, by rw [htrace]; simp [hmem]⟩
  refine ⟨?_, ?_, ?_, ?_⟩
  · intro earlier event' after hsplit
    refine ⟨host, port, ctx.rules.decide host port, ?_⟩
    have hfirst : .published event' ∉
        before ++ .decided host port (ctx.rules.decide host port) :: actions := fun hmem => by
      have hevent := mem_eventsOf hmem
      rw [silent_of_amid hgreeted hamid] at hevent
      cases hevent
    -- the event is the last of the trace, so the decision stands before it
    obtain ⟨between, rfl, _⟩ := split_behind hfirst (htrace.symm.trans hsplit)
    simp
  · intro host' port' decision' hmem
    rw [htrace] at hmem
    obtain ⟨rfl, rfl, rfl⟩ := decided_of_amid hgreeted hamid hmem
    refine ⟨rfl, event, by rw [htrace, events_of_amid hgreeted hamid], ?_⟩
    rw [← hevent]
    exact hcourse.reports hdial hattempted
  · intro earlier bytes lost after hsplit
    have hbefore : .told .granted bytes lost ∉
        before ++ [.decided host port (ctx.rules.decide host port)] := fun hmem => by
      rcases List.mem_append.mp hmem with hmem | hmem
      · obtain ⟨_, _, hne⟩ := hgreeted _ hmem
        cases hne
      · simp at hmem
    have hwhole : (before ++ [.decided host port (ctx.rules.decide host port)]) ++
        (actions ++ [.published event]) = earlier ++ .told .granted bytes lost :: after := by
      rw [← hsplit, htrace]
      simp
    obtain ⟨amid, rfl, hrest⟩ := split_behind hbefore hwhole
    -- and the grant is among what was done for the destination, not the event behind it
    obtain ⟨_, hactions⟩ := split_before (by simp) hrest
    obtain ⟨⟨way, via, next, effects, hdialled⟩, hquiet⟩ := hcourse.granted hactions
    refine ⟨⟨way, via, next, effects, List.mem_append_right _ hdialled⟩, fun action hmem => ?_⟩
    rcases List.mem_append.mp hmem with hmem | hmem
    · rcases List.mem_append.mp hmem with hmem | hmem
      · obtain ⟨_, _, rfl⟩ := hgreeted _ hmem
        rfl
      · rw [List.mem_singleton.mp hmem]
        rfl
    · exact hquiet action hmem
  · rw [hanswers]
    exact hcourse.answers

theorem Story.coherent {result : Except Failure Unit}
    (hdial : ∀ host port way via next,
      (hop.dial host port (ctx.rules.decide host port)).1 = .attempted way via next →
        Travels (ctx.rules.decide host port) way via)
    (h : Story ctx wire hop speaks (failureOf result) trace) :
    Coherent ctx.rules result trace := by
  cases h with
  | unrouted h =>
      refine coherent_of_undecided (fun action hmem => ?_) (by simp [h.answers])
      obtain ⟨bytes, lost, rfl⟩ := h action hmem
      exact ⟨.chosen, bytes, lost, rfl, by simp⟩
  | @turnedAway before h bytes lost =>
      refine coherent_of_undecided (fun action hmem => ?_) ?_
      · rcases List.mem_append.mp hmem with hmem | hmem
        · obtain ⟨bytes, lost, rfl⟩ := h action hmem
          exact ⟨.chosen, bytes, lost, rfl, by simp⟩
        · exact ⟨.refusal, bytes, lost, List.mem_singleton.mp hmem, by simp⟩
      · show (List.filter _ _).length ≤ 1
        rw [List.filter_append]
        show (answersOf before ++ _).length ≤ 1
        rw [h.answers]
        exact Nat.le_refl 1
  | routed h hrouting => exact hrouting.coherent (hdial _ _) h

/-- **One coherent event for each routed connection**, whatever front end serves
it, whatever the client sends and whichever step fails. -/
theorem FrontEnd.serve_coherent (frontEnd : FrontEnd) (ctx : ConnCtx) (net : Network) (hold : ℕ)
    (decided dialling : Moment) (wire : Wire) (incoming : List UInt8) :
    let run := frontEnd.serve ctx (upstreamHop net hold decided dialling) wire (.accepted incoming)
    Coherent ctx.rules run.1 run.2.trace := by
  intro run
  have hstory : Story ctx wire (upstreamHop net hold decided dialling) frontEnd.speaks
      (failureOf run.1) run.2.trace := frontEnd.serve_story incoming
  exact hstory.coherent fun _ _ _ _ _ => dial_travels

end coherent

/-! ### An index beyond 32 bits -/

/-- `n` rules for one port, and a last one for another. -/
def crowded (n : ℕ) : Ruleset where
  rules := (List.range (n + 1)).map fun index =>
    ⟨⟨index⟩, .prefer, .port (if index < n then 1 else 443), ⟨"443"⟩⟩
  numbered := by simp [Function.comp_def]

theorem crowded_decides [External] (n : ℕ) (host : Host) :
    (crowded n).decide host 443 = .upstream .prefer ⟨n⟩ := by
  have hlast : (crowded n).FirstMatch (· ≠ .never) host 443
      ⟨⟨n⟩, .prefer, .port 443, ⟨"443"⟩⟩ := by
    refine ⟨(List.range n).map fun index => ⟨⟨index⟩, .prefer, .port 1, ⟨"443"⟩⟩,
      [], ?_, by simp, ?_, ?_⟩
    · simp only [crowded, List.range_succ, List.map_append, List.map_cons, List.map_nil,
        lt_irrefl, if_false]
      congr 1
      refine List.map_congr_left fun index hmem => ?_
      simp [List.mem_range.mp hmem]
    · simp [Ruleset.Matches, Matcher.matches]
    · rintro earlier hmem -
      obtain ⟨index, _, rfl⟩ := List.mem_map.mp hmem
      simp [Ruleset.Matches, Matcher.matches]
  refine Ruleset.decide_upstream (fun rule hmem hnever => ?_) hlast
  obtain ⟨index, _, rfl⟩ := List.mem_map.mp hmem
  cases hnever

/-- A forward front end routes every connection to its target. -/
theorem Forward.serve_routing [External] [SocksText] (ctx : ConnCtx) (hop : NextHop)
    (target : Target) (wire : Wire) (incoming : List UInt8) :
    let run := Forward.serve ctx hop target wire (.accepted incoming)
    Routing ctx wire hop target.host target.port false [] (failureOf run.1) run.2.trace := by
  intro run
  have hmute : Answers false fun _ => pure () := fun _ => rfl
  have hroute : Script.Ensures wire (Stands [] none) (Forward.serve ctx hop target)
      (fun _ conn => Routing ctx wire hop target.host target.port false [] none conn.trace)
      fun e conn => Routing ctx wire hop target.host target.port false [] (some e) conn.trace :=
    ensures_route hmute hmute moves_copyBidirectional.carries fun _ => rfl
  have hran := hroute (.accepted incoming) ⟨rfl, rfl⟩
  show Routing _ _ _ _ _ _ _ (failureOf (Forward.serve ctx hop target wire (.accepted incoming)).1)
    (Forward.serve ctx hop target wire (.accepted incoming)).2.trace
  rcases hrun : Forward.serve ctx hop target wire (.accepted incoming) with ⟨e | _, conn⟩
  · rw [hrun] at hran
    exact hran
  · rw [hrun] at hran
    exact hran

theorem Routing.published [External] [SocksText] {ctx : ConnCtx} {wire : Wire} {hop : NextHop}
    {host : Host} {port : Port} {speaks : Bool} {before trace : List Action}
    {failure : Option Failure} (h : Routing ctx wire hop host port speaks before failure trace) :
    ∃ event, .decided host port (ctx.rules.decide host port) ∈ trace ∧ event ∈ eventsOf trace ∧
      event.ruleIndex = matchedIndex (ctx.rules.decide host port) := by
  obtain ⟨actions, connect, _, htrace⟩ := h
  refine ⟨_, ?_, mem_eventsOf (htrace ▸ List.mem_append_right _ (List.mem_singleton_self _)), rfl⟩
  rw [htrace]
  simp

/-- Rules are numbered without a bound, events in 32 bits: with enough rules an
event names a rule that did not decide. -/
theorem ruleIndex_saturates :
    ¬∀ (_ : External) (_ : SocksText) (frontEnd : FrontEnd) (ctx : ConnCtx) (net : Network)
      (hold : ℕ) (decided dialling : Moment) (wire : Wire) (incoming : List UInt8) (host : Host)
      (port : Port) (decision : Decision) (event : EventView),
      let run := frontEnd.serve ctx (upstreamHop net hold decided dialling) wire
        (.accepted incoming)
      .decided host port decision ∈ run.2.trace → event ∈ eventsOf run.2.trace →
      event.ruleIndex = decision.rule.map RuleId.index := by
  intro h
  -- the number of rules stays a variable, so that no list is ever unfolded
  obtain ⟨n, hn⟩ : ∃ n, n = 2 ^ 32 := ⟨_, rfl⟩
  let _ : External := .ascii
  let _ : SocksText := .silent
  have hdecides := crowded_decides n ⟨"example.com"⟩
  have hrouting := Forward.serve_routing ⟨crowded n⟩
    (upstreamHop openNetwork 0 .unconfigured .unconfigured) ⟨⟨"example.com"⟩, 443⟩
    (.smooth noUpstream) []
  obtain ⟨event, hdecided, hmem, hsaturated⟩ := hrouting.published
  have hindex := h .ascii .silent (.forward ⟨⟨"example.com"⟩, 443⟩) ⟨crowded n⟩ openNetwork
    0 .unconfigured .unconfigured (.smooth noUpstream) [] _ _ _ event hdecided hmem
  rw [hsaturated, hdecides] at hindex
  simp only [matchedIndex, Decision.rule, Option.map_some, Option.some.injEq] at hindex
  omega

end Nhop.Proxy
