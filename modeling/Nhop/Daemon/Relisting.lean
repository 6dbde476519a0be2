import Nhop.Daemon.Reconcile
import Nhop.Rules.Precedence

/-!
Whether what the daemon reports is all there is to its configuration.

`rules` lists every rule as it was declared and `status` lists the addresses, the
forwards and the upstreams. Declaring all of it in a run is taken without a
rejection, and the commit of that run changes nothing (`relisted`). What is behind
it is that a report leaves nothing out that was read: the kind and the value of a
rule read as its matcher (`Listed`), the text of an upstream reads as its socket,
and no address is listed twice.
-/

namespace Nhop.Daemon

open Foundation Ipc Rules Proxy Upstream Cli

/-- The command that declares a rule as it is reported. -/
def ruleCommand (load : LoadId) (view : RuleView) : Command :=
  .addRule view.ruleClass view.kind view.value (some load)

/-- The command that names the upstreams as they are reported, if there are any. -/
def upstreamsCommand (load : LoadId) (views : List UpstreamView) : Option Command :=
  match views.map UpstreamView.addr with
  | [] => none
  | addr :: fallbacks => some (Command.upstreams addr fallbacks (some load))

/-- The command that declares a forward as it is reported. -/
def forwardCommand (load : LoadId) (view : ForwardView) : Command :=
  .addForward view.listen view.host view.port (some load)

/-- The commands of a run that declare what a daemon reports. -/
def declaring (load : LoadId) (rules : List RuleView) (view : StatusView) : List Command :=
  rules.map (ruleCommand load) ++ (upstreamsCommand load view.upstreams).toList ++
    [.setListen view.httpListen view.socksListen (some load)] ++
    view.forwards.map (forwardCommand load)

/-- What a run has built after these commands. -/
def Staging.takeEach [External] (staging : Staging) (commands : List Command) : Staging :=
  commands.foldl (fun staging command => (staging.take command).2) staging

/-! ### What a run rejects -/

section viable

variable [External] {staging : Staging} {command : Command}

omit [External] in
theorem accepted_of_replied {ε : Type} {refused : ε → Response}
    {result : Except ε Unit × Staging}
    (hresult : (result.1 = .ok () ∧ result.2.failed = staging.failed) ∨ result.2.failed ≠ none)
    (h : (replied refused result).2.failed = none) :
    staging.failed = none ∧ (replied refused result).1.isErr = false := by
  obtain ⟨outcome, staged⟩ := result
  have hstaged : staged.failed = none := by
    cases outcome <;> exact h
  rcases hresult with ⟨rfl, hsame⟩ | hmarked
  · exact ⟨hsame.symm.trans hstaged, rfl⟩
  · exact absurd hstaged hmarked

/-- A run that is still viable has accepted the command it took last. -/
theorem Staging.accepted_of_viable (h : (staging.take command).2.failed = none) :
    staging.failed = none ∧ (staging.take command).1.isErr = false := by
  have hupstream : ∀ first fallbacks,
      ((staging.setUpstream first fallbacks).1 = .ok () ∧
        (staging.setUpstream first fallbacks).2.failed = staging.failed) ∨
      (staging.setUpstream first fallbacks).2.failed ≠ none := by
    intro first fallbacks
    unfold setUpstream
    cases Upstreams.parse first fallbacks with
    | ok upstreams => exact Or.inl ⟨rfl, rfl⟩
    | error failure => exact Or.inr failed_fail
  cases command <;> simp only [take] at h ⊢
  case addRule ruleClass kind value load =>
      refine accepted_of_replied ?_ h
      unfold pushRule
      cases staging.rules.push ruleClass kind value with
      | ok pushed => exact Or.inl ⟨rfl, rfl⟩
      | error failure => exact Or.inr failed_fail
  case setUpstream addr load => exact accepted_of_replied (hupstream addr []) h
  case setUpstreams addr fallbacks load => exact accepted_of_replied (hupstream addr fallbacks) h
  case addForward listen host port load =>
      refine accepted_of_replied ?_ h
      unfold pushForward
      cases staging.forwards.push ⟨listen, ⟨host, port⟩⟩ with
      | ok forwards => exact Or.inl ⟨rfl, rfl⟩
      | error failure => exact Or.inr failed_fail
  all_goals exact ⟨h, rfl⟩

theorem Staging.viable_of_takeEach {commands : List Command}
    (h : (staging.takeEach commands).failed = none) : staging.failed = none := by
  induction commands generalizing staging with
  | nil => exact h
  | cons command commands ih => exact (accepted_of_viable (ih h)).1

end viable

/-! ### Declaring what is reported -/

section declaring

variable [External] {staging : Staging} {load : LoadId}

/-- Every rule is what its kind and its value read as. -/
def Listed (rules : Ruleset) : Prop :=
  ∀ rule ∈ rules.rules, Matcher.parse rule.matcher.kind rule.value = .ok rule.matcher

theorem listed_empty : Listed Ruleset.empty := by
  intro rule hmem
  cases hmem

theorem Listed.push {rules : Ruleset} (h : Listed rules) {ruleClass : RuleClass}
    {kind : RuleKind} {value : RuleValue} {pushed : RuleId × Ruleset}
    (hpush : rules.push ruleClass kind value = .ok pushed) : Listed pushed.2 := by
  obtain ⟨matcher, hread, _, hrules⟩ := Ruleset.push_eq_ok.mp hpush
  rw [hrules]
  intro rule hmem
  rcases List.mem_append.mp hmem with hmem | hmem
  · exact h rule hmem
  · obtain rfl := List.mem_singleton.mp hmem
    show Matcher.parse matcher.kind value = .ok matcher
    rw [Matcher.kind_parse hread]
    exact hread

theorem takeEach_rules {whole : Ruleset} (hlisted : Listed whole) {rest : List Rule}
    (hrest : staging.rules.rules ++ rest = whole.rules) :
    staging.takeEach (rest.map fun rule =>
        .addRule rule.ruleClass rule.matcher.kind rule.value (some load)) =
      { staging with rules := whole } := by
  induction rest generalizing staging with
  | nil =>
      have hwhole : staging.rules = whole := Ruleset.ext (by simpa using hrest)
      rw [← hwhole]
      rfl
  | cons rule rest ih =>
      have hmem : rule ∈ whole.rules := by
        rw [← hrest]
        exact List.mem_append_right _ (List.mem_cons_self ..)
      have hposition : whole.rules[staging.rules.rules.length]? = some rule := by
        rw [← hrest]
        simp
      have hrule :
          (⟨⟨staging.rules.rules.length⟩, rule.ruleClass, rule.matcher, rule.value⟩ : Rule) =
            rule := by
        rw [← Ruleset.id_of_getElem hposition]
      have hpush : staging.rules.push rule.ruleClass rule.matcher.kind rule.value =
          .ok (⟨staging.rules.rules.length⟩,
            staging.rules.append rule.ruleClass rule.matcher rule.value) :=
        Ruleset.push_eq_ok.mpr ⟨rule.matcher, hlisted rule hmem, rfl, rfl⟩
      set pushed := staging.rules.append rule.ruleClass rule.matcher rule.value with hpushed
      have htaken : (staging.take (.addRule rule.ruleClass rule.matcher.kind rule.value
          (some load))).2 = { staging with rules := pushed } := by
        simp only [Staging.take, Staging.pushRule, hpush, replied]
      have hlater : pushed.rules ++ rest = whole.rules := by
        show staging.rules.rules ++ [_] ++ rest = whole.rules
        rw [hrule, List.append_assoc, List.singleton_append]
        exact hrest
      simp only [List.map_cons, Staging.takeEach, List.foldl_cons] at ih ⊢
      rw [htaken]
      exact ih hlater

omit [External] in
/-- A list of upstreams is read back from what was written. -/
theorem foldlM_add {whole start : Upstreams} {rest : List Proxy.Upstream}
    (hrest : start.entries ++ rest = whole.entries) :
    (rest.map Upstream.written).foldlM Upstreams.add start = .ok whole := by
  induction rest generalizing start with
  | nil =>
      have hwhole : start = whole := Upstreams.ext (by simpa using hrest)
      rw [hwhole]
      rfl
  | cons upstream rest ih =>
      have hparse : Upstream.parse upstream.written = .ok upstream := by
        unfold Upstream.parse
        split
        · next socket hread =>
            have hsocket : socket = upstream.socket :=
              Option.some.inj (hread.symm.trans upstream.reads)
            subst hsocket
            rfl
        · next hread =>
            rw [upstream.reads] at hread
            cases hread
      have hnew : upstream.socket ∉ start.entries.map Upstream.socket := by
        have hdistinct := whole.distinct
        rw [← hrest, List.map_append, List.nodup_append] at hdistinct
        intro hmem
        exact hdistinct.2.2 _ hmem _ (List.mem_map_of_mem (List.mem_cons_self ..)) rfl
      obtain ⟨added, hadd, hentries⟩ : ∃ added, start.add upstream.written = .ok added ∧
          added.entries = start.entries ++ [upstream] := by
        unfold Upstreams.add
        rw [hparse]
        simp only [hnew, dite_false]
        exact ⟨_, rfl, rfl⟩
      have hlater : added.entries ++ rest = whole.entries := by
        rw [hentries, List.append_assoc, List.singleton_append]
        exact hrest
      rw [List.map_cons, List.foldlM_cons, hadd]
      exact ih hlater

theorem take_named {addr : UpstreamAddr} {fallbacks : List UpstreamAddr} {named : Upstreams}
    (h : Upstreams.parse addr fallbacks = .ok named) :
    (staging.take (Command.upstreams addr fallbacks (some load))).2 =
      { staging with upstream := some named } := by
  have hset : staging.setUpstream addr fallbacks =
      (.ok (), { staging with upstream := some named }) := by
    unfold Staging.setUpstream
    rw [h]
  cases fallbacks with
  | nil =>
      show (replied unreadable (staging.setUpstream addr [])).2 = _
      rw [hset]
      rfl
  | cons fallback rest =>
      show (replied unreadable (staging.setUpstream addr (fallback :: rest))).2 = _
      rw [hset]
      rfl

theorem takeEach_upstreams {whole : Upstreams} {views : List UpstreamView}
    (hviews : views.map UpstreamView.addr = whole.entries.map Upstream.written) :
    staging.takeEach (upstreamsCommand load views).toList =
      { staging with upstream := if whole.entries = [] then staging.upstream else some whole } := by
  unfold upstreamsCommand
  rw [hviews]
  cases hentries : whole.entries with
  | nil =>
      rw [if_pos rfl]
      rfl
  | cons upstream rest =>
      have hparse : Upstreams.parse upstream.written (rest.map Upstream.written) = .ok whole := by
        rw [Upstreams.parse, ← List.map_cons]
        apply foldlM_add
        rw [← hentries]
        rfl
      rw [if_neg (List.cons_ne_nil _ _)]
      exact take_named hparse

theorem takeEach_forwards {whole : Forwards} {rest : List Forward}
    (hrest : staging.forwards.forwards ++ rest = whole.forwards) :
    staging.takeEach ((rest.map Forward.view).map (forwardCommand load)) =
      { staging with forwards := whole } := by
  induction rest generalizing staging with
  | nil =>
      have hwhole : staging.forwards = whole := Forwards.ext (by simpa using hrest)
      rw [← hwhole]
      rfl
  | cons forward rest ih =>
      have hnew : forward.listen ∉ staging.forwards.forwards.map Forward.listen := by
        have hdistinct := whole.distinct
        rw [← hrest, List.map_append, List.nodup_append] at hdistinct
        intro hmem
        exact hdistinct.2.2 _ hmem _ (List.mem_map_of_mem (List.mem_cons_self ..)) rfl
      obtain ⟨pushed, hpush, hforwards⟩ : ∃ pushed, staging.forwards.push forward = .ok pushed ∧
          pushed.forwards = staging.forwards.forwards ++ [forward] := by
        unfold Forwards.push
        simp only [hnew, dite_false]
        exact ⟨_, rfl, rfl⟩
      have htaken : (staging.take (forwardCommand load forward.view)).2 =
          { staging with forwards := pushed } := by
        simp only [forwardCommand, Forward.view, Staging.take, Staging.pushForward, hpush, replied]
      have hlater : pushed.forwards ++ rest = whole.forwards := by
        rw [hforwards, List.append_assoc, List.singleton_append]
        exact hrest
      simp only [List.map_cons, Staging.takeEach, List.foldl_cons] at ih ⊢
      rw [htaken]
      exact ih hlater

theorem takeEach_append {commands commands' : List Command} :
    staging.takeEach (commands ++ commands') =
      (staging.takeEach commands).takeEach commands' :=
  List.foldl_append

end declaring

/-- The upstreams a published list judges. -/
def judged (list : UpstreamEntries) : Upstreams where
  entries := list.entries.map UpstreamEntry.upstream
  distinct := by
    rw [List.map_map]
    exact list.distinct

namespace DaemonState

/-! ### Every rule there is was read -/

section listed

variable [External] {os : Os} {moment : Moment} {state : DaemonState} {command : Command}
variable {reply : ℕ} {outcome : ScriptOutcome}

/-- The rules in force were read, and so were those a run has built. -/
structure Reads (state : DaemonState) : Prop where
  rules : Listed state.rules
  staged : ∀ load, state.load = some load → Listed load.staged.rules

theorem listed_fail {staging : Staging} {failed : FailedCommand} (h : Listed staging.rules) :
    Listed (staging.fail failed).rules := by
  have hcommit : (staging.fail failed).commit = staging.commit := Staging.commit_fail
  rw [(Committed.mk.inj hcommit).1]
  exact h

theorem listed_setUpstream {staging : Staging} {addr : UpstreamAddr}
    {fallbacks : List UpstreamAddr} (h : Listed staging.rules) :
    Listed (replied unreadable (staging.setUpstream addr fallbacks)).2.rules := by
  unfold Staging.setUpstream
  cases hparse : Upstreams.parse addr fallbacks with
  | error failure => exact listed_fail h
  | ok list => exact h

theorem listed_take {staging : Staging} (h : Listed staging.rules) :
    Listed (staging.take command).2.rules := by
  cases command with
  | addRule ruleClass kind value load =>
      simp only [Staging.take, Staging.pushRule]
      cases hpush : staging.rules.push ruleClass kind value with
      | ok pushed => exact h.push hpush
      | error failure => exact listed_fail h
  | clearRules load => exact listed_empty
  | setUpstream addr load =>
      simp only [Staging.take]
      exact listed_setUpstream h
  | setUpstreams addr fallbacks load =>
      simp only [Staging.take]
      exact listed_setUpstream h
  | setListen http socks load => exact h
  | addForward listen host port load =>
      simp only [Staging.take, Staging.pushForward]
      cases staging.forwards.push ⟨listen, ⟨host, port⟩⟩ with
      | ok forwards => exact h
      | error failure => exact listed_fail h
  | reload | on | off | status | rules | test | doctor | subscribe => exact h

omit [External] in
theorem rules_rebind {listen : Listen} : (state.rebind os listen).2.rules = state.rules := by
  unfold rebind
  split <;> rfl

omit [External] in
theorem rules_rebindForwards {forwards : Forwards} :
    (state.rebindForwards os forwards).2.rules = state.rules := by
  unfold rebindForwards
  split <;> rfl

theorem listed_applied {live : Response × DaemonState} {apply : Staging → Response × Staging}
    {carried : Option LoadId} (hidle : state.load = none) (h : Listed state.rules)
    (hlive : Listed live.2.rules) :
    Listed (match state.target carried with
      | .refused refusal => (refusal, state)
      | .staged => state.staged apply
      | .live => live).2.rules := by
  rcases target_idle hidle carried with htarget | ⟨message, htarget⟩ <;> rw [htarget]
  · exact hlive
  · exact h

theorem listed_reload {path : Option String} (hidle : state.load = none)
    (h : Listed state.rules) : Listed (state.reload moment path reply).2.rules := by
  rcases reload_idle hidle moment reply path with ⟨response, hsame⟩ | ⟨script, hbegun⟩
  · rw [hsame]
    exact h
  · rw [hbegun]
    exact h

theorem listed_upstream {addr : UpstreamAddr} {fallbacks : List UpstreamAddr}
    {carried : Option LoadId} (hidle : state.load = none) (h : Listed state.rules) :
    Listed (state.setUpstream moment addr fallbacks carried).2.rules := by
  apply listed_applied hidle h
  split
  · exact h
  · exact h

/-- With no run in flight, the rules in force stay read whatever is asked. -/
theorem listed_handle (hidle : state.load = none) (h : Listed state.rules) :
    Listed (state.handle os moment command reply).2.rules := by
  cases command with
  | addRule ruleClass kind value load =>
      apply listed_applied hidle h
      cases hpush : state.rules.push ruleClass kind value with
      | ok pushed => exact h.push hpush
      | error failure => exact h
  | clearRules load => exact listed_applied hidle h listed_empty
  | setUpstream addr load => exact listed_upstream hidle h
  | setUpstreams addr fallbacks load => exact listed_upstream hidle h
  | setListen http socks load =>
      apply listed_applied hidle h
      have hsame : (state.rebind os ⟨http, socks⟩).2.rules = state.rules := rules_rebind
      cases hmoved : state.rebind os ⟨http, socks⟩ with
      | mk result moved =>
          rw [hmoved] at hsame
          rw [← hsame] at h
          cases result <;> exact h
  | addForward listen host port load =>
      apply listed_applied hidle h
      cases state.forwards.push ⟨listen, ⟨host, port⟩⟩ with
      | error failure => exact h
      | ok forwards =>
          have hsame : (state.rebindForwards os forwards).2.rules = state.rules :=
            rules_rebindForwards
          simp only
          cases hforwarded : state.rebindForwards os forwards with
          | mk result forwarded =>
              rw [hforwarded] at hsame
              rw [← hsame] at h
              cases result <;> exact h
  | reload path => exact listed_reload hidle h
  | on => exact listed_reload hidle h
  | off =>
      simp only [handle, answered, turnOff, inFlight, hidle, Option.map_none]
      exact listed_empty
  | status | rules | test | doctor | subscribe => exact h

theorem Reads.handle (h : state.Reads) : (state.handle os moment command reply).2.Reads := by
  cases hload : state.load with
  | some load =>
      have hstaged := h.staged load hload
      by_cases hid : command.load? = some (some load.id)
      · rw [handle_staged hload hid]
        refine ⟨h.rules, ?_⟩
        rintro _ ⟨⟩
        exact listed_take hstaged
      · obtain ⟨response, hsame, _⟩ := handle_elsewhere os moment reply hload hid
        rw [hsame]
        exact h
  | none =>
      refine ⟨listed_handle hload h.rules, ?_⟩
      intro load hafter
      rcases handle_idle os moment command reply hload with
        ⟨response, after, hafter', hanswered⟩ | ⟨script, hscript⟩
      · rw [hafter', hanswered.frame.1, hload] at hafter
        cases hafter
      · rw [hscript] at hafter
        cases hafter
        exact listed_empty

omit [External] in
/-- A commit leaves the rules in force or puts those of the run in their place. -/
theorem rules_commit {now : ℤ} {staged : Staging} :
    (state.commit os now staged).2.rules = state.rules ∨
      (state.commit os now staged).2.rules = staged.rules := by
  have hmove : (state.move os staged.listen).2.rules = state.rules := by
    cases staged.listen with
    | none => rfl
    | some listen => exact rules_rebind
  rw [commit_eq]
  cases hmoved : state.move os staged.listen with
  | mk result moved =>
      rw [hmoved] at hmove
      cases result with
      | error failure => exact Or.inl hmove
      | ok _ =>
          have hforward : (moved.rebindForwards os staged.forwards).2.rules = moved.rules :=
            rules_rebindForwards
          simp only
          cases hforwarded : moved.rebindForwards os staged.forwards with
          | mk result forwarded =>
              rw [hforwarded] at hforward
              cases result with
              | error failure => exact Or.inl (hforward.trans hmove)
              | ok _ => exact Or.inr publish_frame.2.2.2.2

theorem Reads.finish (h : state.Reads) : (state.finish os moment outcome).2.Reads := by
  cases hload : state.load with
  | none =>
      simp only [DaemonState.finish, hload]
      exact h
  | some load =>
      have hrules : Listed (state.finish os moment outcome).2.rules := by
        by_cases hviable : Viable load outcome
        · obtain ⟨view, hview, _⟩ := finish_viable os moment hload hviable
          rw [hview]
          rcases @rules_commit os { state with load := none } moment.now load.staged with
            hsame | hstaged
          · show Listed ({ state with load := none }.commit os moment.now load.staged).2.rules
            rw [hsame]
            exact h.rules
          · show Listed ({ state with load := none }.commit os moment.now load.staged).2.rules
            rw [hstaged]
            exact h.staged load hload
        · obtain ⟨view, _, hview⟩ := finish_discarded os moment hload hviable
          rw [hview]
          exact h.rules
      refine ⟨hrules, ?_⟩
      intro later hlater
      rw [(finish_frame os moment).1] at hlater
      cases hlater

/-- Every rule the state task has was read. -/
theorem reads_of_reachable {start : DaemonState} (hstart : Started os start)
    (h : (task os).Reachable start state) : state.Reads := by
  have hrules : start.rules = .empty := by
    obtain ⟨initFile, listen, loadTimeout, hold, now, rfl | hspawn⟩ := hstart
    · rfl
    · unfold spawn at hspawn
      split at hspawn
      · cases hspawn
      · cases hspawn
        rfl
  have hreads : start.Reads := by
    refine ⟨hrules ▸ listed_empty, ?_⟩
    intro load hload
    rw [load_of_started hstart] at hload
    cases hload
  refine System.invariant (I := Reads) hreads ?_ h
  rintro s (⟨moment, command, reply⟩ | ⟨moment, outcome⟩) s' hs ⟨⟩
  · exact hs.handle
  · exact hs.finish

end listed

/-! ### Declaring it again -/

section relisted

variable [External] {os : Os} {start state begun ended : DaemonState} {load : InFlight}
variable {events : List Event} {view : StatusView} {asked seen finished : Moment}

/-- The command an event gives to a run. -/
def Event.ofRun (load : LoadId) : Event → Option Command
  | .request _ command _ => if command.load? = some (some load) then some command else none
  | .finished _ _ => none

/-- Every command that carries an id is accepted where it is given. -/
def AcceptedIn (os : Os) (id : LoadId) (begun : DaemonState) (events : List Event) : Prop :=
  ∀ before moment command reply after, events = before ++ .request moment command reply :: after →
    command.load? = some (some id) →
      ∃ reached answer, (task os).run begun before = some reached ∧
        (reached.handle os moment command reply).1 = some answer ∧ answer.isErr = false

theorem run_requests (h : ∀ event ∈ events, event.IsRequest) :
    ∃ reached, (task os).run begun events = some reached := by
  induction events generalizing begun with
  | nil => exact ⟨begun, rfl⟩
  | cons event events ih =>
      obtain ⟨moment, command, reply, rfl⟩ := h event (List.mem_cons_self ..)
      exact ih fun event hmem => h event (List.mem_cons_of_mem _ hmem)

/-- **What a run has built** is what its commands build, whatever else is asked
meanwhile. -/
theorem takeEach_run (hload : begun.load = some load)
    (hrequests : ∀ event ∈ events, event.IsRequest)
    (hrun : (task os).run begun events = some ended) :
    ended = { begun with load := some { load with
      staged := load.staged.takeEach (events.filterMap (Event.ofRun load.id)) } } := by
  induction events generalizing begun load with
  | nil =>
      obtain rfl : begun = ended := by simpa using hrun
      rw [List.filterMap_nil]
      show begun = { begun with load := some load }
      rw [← hload]
  | cons event events ih =>
      obtain ⟨moment, command, reply, rfl⟩ := hrequests event (List.mem_cons_self ..)
      have hlater : ∀ event ∈ events, event.IsRequest :=
        fun event hmem => hrequests event (List.mem_cons_of_mem _ hmem)
      have hrest : (task os).run (begun.handle os moment command reply).2 events = some ended :=
        hrun
      by_cases hid : command.load? = some (some load.id)
      · rw [handle_staged hload hid] at hrest
        have htaken : (Event.request moment command reply).ofRun load.id = some command := by
          rw [Event.ofRun, if_pos hid]
        rw [List.filterMap_cons_some htaken]
        exact ih rfl hlater hrest
      · obtain ⟨response, hsame, _⟩ := handle_elsewhere os moment reply hload hid
        rw [hsame] at hrest
        have htaken : (Event.request moment command reply).ofRun load.id = none := by
          rw [Event.ofRun, if_neg hid]
        rw [List.filterMap_cons_none htaken]
        exact ih hload hlater hrest

/-- Every command of a run that is viable in the end was accepted. -/
theorem accepted_run (hload : begun.load = some load)
    (hrequests : ∀ event ∈ events, event.IsRequest)
    (hviable : (load.staged.takeEach (events.filterMap (Event.ofRun load.id))).failed = none) :
    AcceptedIn os load.id begun events := by
  intro before moment command reply after hevents hid
  subst hevents
  obtain ⟨reached, hreached⟩ : ∃ reached, (task os).run begun before = some reached :=
    run_requests fun event hmem => hrequests event (List.mem_append_left _ hmem)
  have hbuilt := takeEach_run hload
    (fun event hmem => hrequests event (List.mem_append_left _ hmem)) hreached
  have htaken : (Event.request moment command reply).ofRun load.id = some command := by
    rw [Event.ofRun, if_pos hid]
  rw [List.filterMap_append, List.filterMap_cons_some htaken, takeEach_append] at hviable
  have haccepted := Staging.accepted_of_viable (Staging.viable_of_takeEach hviable)
  refine ⟨reached, _, hreached, ?_, haccepted.2⟩
  have hreachedLoad : reached.load = some { load with
      staged := load.staged.takeEach (before.filterMap (Event.ofRun load.id)) } := by
    rw [hbuilt]
  exact congrArg Prod.fst (handle_staged hreachedLoad hid)

/-- What declaring all that is reported builds. -/
def relisting (state : DaemonState) : Staging where
  rules := state.rules
  upstream := if (judged state.upstream.val).entries = [] then none
    else some (judged state.upstream.val)
  listen := some state.listen
  forwards := state.forwards
  failed := none

theorem takeEach_declaring (hlisted : Listed state.rules) {id : LoadId}
    (hview : state.report seen = .status view) :
    Staging.empty.takeEach (declaring id (ruleViews state.rules) view) = state.relisting := by
  have hrules : (ruleViews state.rules).map (ruleCommand id) = state.rules.rules.map fun rule =>
      .addRule rule.ruleClass rule.matcher.kind rule.value (some id) := by
    rw [ruleViews, List.map_map]
    rfl
  have hnamed : view.upstreams.map UpstreamView.addr =
      (judged state.upstream.val).entries.map Upstream.written := by
    obtain rfl := Response.status.inj hview
    apply List.ext_getElem
    · simp [upstreamViews, judged]
    · simp [upstreamViews, judged]
  have hlisten : view.httpListen = state.httpListen ∧ view.socksListen = state.socksListen := by
    obtain rfl := Response.status.inj hview
    exact ⟨rfl, rfl⟩
  have hforwards : view.forwards = state.forwards.forwards.map Forward.view := by
    obtain rfl := Response.status.inj hview
    rfl
  rw [declaring, takeEach_append, takeEach_append, takeEach_append, hrules,
    takeEach_rules hlisted (List.nil_append _), takeEach_upstreams hnamed, hlisten.1, hlisten.2,
    hforwards]
  exact takeEach_forwards (List.nil_append _)

omit [External] in
theorem serves_forwardsHeld {bound : Bound} (h : bound.Distinct) :
    bound.Serves bound.forwardsHeld := by
  have hagree : Agreeing (bound.forwards.map Forwarding.forward) := by
    rw [Bound.Distinct, Bound.addrs_eq] at h
    intro a ha b hb hlisten
    exact List.inj_on_of_nodup_map h ha hb hlisten
  refine ⟨?_, ?_⟩
  · intro forwarding hmem
    exact (Bound.mem_forwardsHeld hagree).mpr (List.mem_map_of_mem hmem)
  · intro forward hmem
    obtain ⟨forwarding, hforwarding, hsame⟩ :=
      List.mem_map.mp ((Bound.mem_forwardsHeld hagree).mp hmem)
    rw [Bound.held_iff]
    exact ⟨forwarding, hforwarding, by rw [← hsame]; rfl⟩

omit [External] in
/-- **Committing what is reported changes nothing.** -/
theorem commit_relisting (hconsistent : state.Consistent)
    (hdistinct : ∀ bound, state.frontends = .bound bound → bound.Distinct) (now : ℤ) :
    ∃ after, state.commit os now state.relisting = (.ok (), after) ∧ Unmoved state after := by
  have hplaced : ∀ wanted, state.relisting.listen = some wanted → Placed wanted state := by
    rintro _ ⟨⟩
    refine ⟨rfl, ?_⟩
    intro bound hbound
    exact (hconsistent.listen bound hbound).symm
  have hrouted : Routed state.relisting.forwards state := by
    refine ⟨fun _ => rfl, hconsistent.forwards, ?_⟩
    intro bound hbound
    show bound.Serves state.forwards
    rw [hconsistent.forwards bound hbound]
    exact serves_forwardsHeld (hdistinct bound hbound)
  refine ⟨state.publish now state.relisting.rules state.relisting.upstream, ?_, ?_⟩
  · rw [commit_eq, Placed.move hplaced]
    simp only
    rw [hrouted.rebindForwards]
  · obtain ⟨hfrontends, hlisten, hforwards, hcalls, hrules⟩ :=
      @publish_frame state now state.relisting.rules state.relisting.upstream
    have hkept : (state.publish now state.relisting.rules
          state.relisting.upstream).upstream.val.entries = state.upstream.val.entries ∧
        (state.publish now state.relisting.rules state.relisting.upstream).cells =
          state.cells := by
      unfold relisting
      split_ifs with hnone
      · exact ⟨rfl, rfl⟩
      · exact UpstreamEntries.adopted_self rfl
    refine ⟨hrules, hcalls, hfrontends, hlisten, hforwards, hkept.1, ?_⟩
    unfold UpstreamEntries.verdicts
    rw [hkept.1, hkept.2]

/-- **What the daemon reports is its whole configuration.** A run that declares
the rules listed and the addresses, forwards and upstreams reported, whatever else
is asked of the daemon meanwhile, has none of its commands rejected, commits, and
leaves the configuration, its listeners and its verdicts as they were. -/
theorem relisted {script : Command} {reply : ℕ} {views : List RuleView}
    (hstart : Started os start) (hreach : (task os).Reachable start state)
    (hdistinct : ∀ bound, state.frontends = .bound bound → bound.Distinct)
    (hrules : (state.handle os seen .rules 0).1 = some (.rules views))
    (hstatus : (state.handle os seen .status 0).1 = some (.status view))
    (hbegun : state.handle os asked script reply = (none, begun)) (hload : begun.load = some load)
    (hrequests : ∀ event ∈ events, event.IsRequest)
    (hgiven : events.filterMap (Event.ofRun load.id) = declaring load.id views view)
    (hrun : (task os).run begun events = some ended) :
    AcceptedIn os load.id begun events ∧
      ∃ answer, (ended.finish os finished .succeeded).1 = some (load.reply, answer) ∧
      answer.isErr = false ∧
      recorded (ended.finish os finished .succeeded).2 = some .ok ∧
      Unmoved state (ended.finish os finished .succeeded).2 := by
  obtain ⟨hidle, path, rfl⟩ := handle_starts hbegun
  obtain rfl : load = ⟨state.loadIds.issue.1, .empty, reply⟩ := (Option.some.inj hload).symm
  obtain rfl : ruleViews state.rules = views := Response.rules.inj (Option.some.inj hrules)
  have hended := takeEach_run hload hrequests hrun
  rw [hgiven, takeEach_declaring (reads_of_reachable hstart hreach).rules
    (Option.some.inj hstatus)] at hended
  let closed : DaemonState := { state.begun path reply with load := none }
  have hclosed : closed.Consistent :=
    (consistent_of_reachable hstart hreach).frame rfl rfl rfl (Nat.le_refl _)
  obtain ⟨after, hcommit, hunmoved⟩ :=
    @commit_relisting os closed hclosed hdistinct finished.now
  have hfinish : ended.finish os finished .succeeded =
      (some (reply, { after with lastLoad := some ⟨finished.now, .ok, none⟩ }.report finished),
        { after with lastLoad := some ⟨finished.now, .ok, none⟩ }) := by
    have hcommit' : ({ ended with load := none } : DaemonState).commit os finished.now
        state.relisting = (.ok (), after) := by
      rw [hended]
      exact hcommit
    have hload' : ended.load = some ⟨state.loadIds.issue.1, state.relisting, reply⟩ := by
      rw [hended]
    have hviable : state.relisting.failure = none := rfl
    unfold finish
    simp only [hload', settle, hviable, hcommit']
  refine ⟨accepted_run hload hrequests ?_, _, by rw [hfinish], rfl, by rw [hfinish]; rfl, ?_⟩
  · rw [hgiven, takeEach_declaring (reads_of_reachable hstart hreach).rules
      (Option.some.inj hstatus)]
    rfl
  rw [hfinish]
  exact ⟨hunmoved.rules, hunmoved.bound, hunmoved.frontends, hunmoved.listen, hunmoved.forwards,
    hunmoved.upstreams, hunmoved.verdicts⟩

end relisted

/-- What is asked of a daemon that has just started. -/
def configuring : List Event :=
  [.request anyMoment (.addRule .never .keyword ⟨"ads"⟩ none) 0,
    .request anyMoment (.setUpstream ⟨"192.0.2.10:1080"⟩ none) 0,
    .request anyMoment (.addForward (.v4 0x7f000001#32 9000) ⟨"example.com"⟩ 443 none) 0]

/-- The same as a run is told it, with a request of another client in between. -/
def reconfiguring : List Event :=
  [.request anyMoment (.addRule .never .keyword ⟨"ads"⟩ (some ⟨1⟩)) 0,
    .request anyMoment (.setUpstream ⟨"192.0.2.10:1080"⟩ (some ⟨1⟩)) 0,
    .request anyMoment .status 0,
    .request anyMoment (.setListen (.v4 0x7f000001#32 7890) (.v4 0x7f000001#32 7891)
      (some ⟨1⟩)) 0,
    .request anyMoment (.addForward (.v4 0x7f000001#32 9000) ⟨"example.com"⟩ 443 (some ⟨1⟩)) 0]

theorem requests_reconfiguring : ∀ event ∈ reconfiguring, event.IsRequest := by
  intro event hmem
  simp only [reconfiguring, List.mem_cons, List.not_mem_nil, or_false] at hmem
  rcases hmem with rfl | rfl | rfl | rfl | rfl <;> exact ⟨_, _, _, rfl⟩

/-- The daemon after it. -/
def configured : DaemonState :=
  ((@task External.ascii willing).run fresh configuring).getD fresh

/-- A daemon told a rule, an upstream and a forward is told them again. -/
theorem relisted_configured : ∃ ended answer,
    (@task External.ascii willing).run (configured.begun "init" 7) reconfiguring = some ended ∧
      (ended.finish willing anyMoment .succeeded).1 = some (7, answer) ∧
      Unmoved configured (ended.finish willing anyMoment .succeeded).2 := by
  have hreach : (@task External.ascii willing).Reachable fresh configured := ⟨configuring, rfl⟩
  have hdistinct : ∀ bound, configured.frontends = .bound bound → bound.Distinct := by
    rintro _ ⟨⟩
    unfold Bound.Distinct
    decide
  obtain ⟨ended, hended⟩ : ∃ ended, (@task External.ascii willing).run
      (configured.begun "init" 7) reconfiguring = some ended := ⟨_, rfl⟩
  obtain ⟨_, answer, hanswer, _, _, hunmoved⟩ := @relisted External.ascii willing fresh configured
    (configured.begun "init" 7) ended _ reconfiguring _ anyMoment anyMoment anyMoment
    (.reload none) 7 _ (started_fresh rfl rfl) hreach hdistinct rfl rfl rfl rfl
    requests_reconfiguring rfl hended
  exact ⟨ended, answer, hended, hanswer, hunmoved⟩

end DaemonState

end Nhop.Daemon
