import Nhop.Daemon.Load

/-!
What a run amounts to, said in terms of the commands it was given.

The configuration a run builds is a fold of the commands it accepted: the rules
declared since the last time they were cleared, the upstreams it named last, the
addresses it asked for last, and every forward it declared. `Staging.Records` is
the statement that what a run has built is that fold and that it is marked as
failed exactly when one of its commands was rejected; every command keeps it.
-/

namespace Nhop.Daemon

open Foundation Ipc Rules Proxy Upstream

/-- A command a run was given, and how it was answered. -/
structure Taken where
  command : Command
  response : Response
  deriving DecidableEq, Repr

/-- A rule as a command declares it. -/
structure Declared where
  ruleClass : RuleClass
  kind : RuleKind
  value : RuleValue
  deriving DecidableEq, Repr

/-! ### What a list of commands says -/

namespace Ledger

def isClear : Command → Bool
  | .clearRules _ => true
  | _ => false

def ruleOf : Command → Option Declared
  | .addRule ruleClass kind value _ => some ⟨ruleClass, kind, value⟩
  | _ => none

def upstreamsOf : Command → Option (UpstreamAddr × List UpstreamAddr)
  | .setUpstream addr _ => some (addr, [])
  | .setUpstreams addr fallbacks _ => some (addr, fallbacks)
  | _ => none

def listenOf : Command → Option Listen
  | .setListen http socks _ => some ⟨http, socks⟩
  | _ => none

def forwardOf : Command → Option Forward
  | .addForward listen host port _ => some ⟨listen, ⟨host, port⟩⟩
  | _ => none

/-- The rules declared since they were last cleared, in order. -/
def rules (commands : List Command) : List Declared :=
  (commands.rtakeWhile fun command => !isClear command).filterMap ruleOf

/-- The upstreams named last. -/
def upstreams (commands : List Command) : Option (UpstreamAddr × List UpstreamAddr) :=
  (commands.filterMap upstreamsOf).getLast?

/-- The listening addresses asked for last. -/
def listen (commands : List Command) : Option Listen := (commands.filterMap listenOf).getLast?

/-- The forwards declared, in order. -/
def forwards (commands : List Command) : List Forward := commands.filterMap forwardOf

/-- The commands that were accepted, in order. -/
def accepted (taken : List Taken) : List Command :=
  (taken.filter fun entry => !entry.response.isErr).map Taken.command

/-- None of the commands was rejected. -/
def NoneRejected (taken : List Taken) : Prop := ∀ entry ∈ taken, entry.response.isErr = false

/-- The ruleset that declares `rules` in order, starting from none. -/
def declaring [External] (rules : List Declared) : Except InvalidRule Ruleset :=
  rules.foldlM (fun ruleset rule =>
    (ruleset.push rule.ruleClass rule.kind rule.value).map Prod.snd) .empty

section lemmas

variable {commands : List Command} {command : Command} {taken : List Taken} {response : Response}

theorem accepted_snoc (h : response.isErr = false) :
    accepted (taken ++ [⟨command, response⟩]) = accepted taken ++ [command] := by
  simp [accepted, h]

theorem accepted_snoc_of_isErr (h : response.isErr = true) :
    accepted (taken ++ [⟨command, response⟩]) = accepted taken := by
  simp [accepted, h]

theorem noneRejected_snoc :
    NoneRejected (taken ++ [⟨command, response⟩]) ↔
      NoneRejected taken ∧ response.isErr = false := by
  simp [NoneRejected, or_imp, forall_and]

theorem rules_snoc_clear (h : isClear command = true) : rules (commands ++ [command]) = [] := by
  simp [rules, h]

theorem rules_snoc (h : isClear command = false) :
    rules (commands ++ [command]) = rules commands ++ (ruleOf command).toList := by
  rw [rules, List.rtakeWhile_concat_pos _ _ _ (by simp [h]), List.filterMap_append, rules]
  cases hrule : ruleOf command <;> simp [hrule]

theorem upstreams_snoc :
    upstreams (commands ++ [command]) = (upstreamsOf command).or (upstreams commands) := by
  rw [upstreams, List.filterMap_append, upstreams]
  cases hupstreams : upstreamsOf command <;> simp [hupstreams]

theorem listen_snoc :
    listen (commands ++ [command]) = (listenOf command).or (listen commands) := by
  rw [listen, List.filterMap_append, listen]
  cases hlisten : listenOf command <;> simp [hlisten]

theorem forwards_snoc :
    forwards (commands ++ [command]) = forwards commands ++ (forwardOf command).toList := by
  rw [forwards, List.filterMap_append, forwards]
  cases hforward : forwardOf command <;> simp [hforward]

/-- One more rule is one more push. -/
theorem declaring_snoc [External] {rules : List Declared} {rule : Declared}
    {ruleset : Ruleset} (h : declaring rules = .ok ruleset) :
    declaring (rules ++ [rule]) =
      (ruleset.push rule.ruleClass rule.kind rule.value).map Prod.snd := by
  unfold declaring at h ⊢
  rw [List.foldlM_append, h]
  simp only [List.foldlM_cons, List.foldlM_nil, bind_pure]
  rfl

end lemmas

end Ledger

/-! ### What a run has built -/

namespace Staging

open Ledger

/-- What a run has built is the fold of the commands it accepted, and it is
marked as failed exactly when it rejected one. -/
structure Records [External] (staging : Staging) (taken : List Taken) : Prop where
  failed : staging.failed = none ↔ NoneRejected taken
  rules : declaring (Ledger.rules (accepted taken)) = .ok staging.rules
  upstream : (upstreams (accepted taken)).map (fun named => Upstreams.parse named.1 named.2) =
    staging.upstream.map Except.ok
  listen : staging.listen = Ledger.listen (accepted taken)
  forwards : staging.forwards.forwards = Ledger.forwards (accepted taken)

variable [External] {staging : Staging} {taken : List Taken} {command : Command}

theorem records_empty : Staging.empty.Records [] where
  failed := by simp [Staging.empty, NoneRejected]
  rules := rfl
  upstream := rfl
  listen := rfl
  forwards := rfl

/-- A rejected command marks the run and changes nothing else. -/
theorem Records.reject {failed : FailedCommand} {response : Response} (h : staging.Records taken)
    (hresponse : response.isErr = true) :
    (staging.fail failed).Records (taken ++ [⟨command, response⟩]) := by
  have hcommit : (staging.fail failed).commit = staging.commit := commit_fail
  obtain ⟨hrules, hupstream, hlisten, hforwards⟩ := Committed.mk.inj hcommit
  refine ⟨?_, ?_, ?_, ?_, ?_⟩
  · simp [noneRejected_snoc, hresponse]
  · rw [accepted_snoc_of_isErr hresponse, hrules]
    exact h.rules
  · rw [accepted_snoc_of_isErr hresponse, hupstream]
    exact h.upstream
  · rw [accepted_snoc_of_isErr hresponse, hlisten]
    exact h.listen
  · rw [accepted_snoc_of_isErr hresponse, hforwards]
    exact h.forwards

/-- An accepted command adds what it says. -/
theorem Records.accept {staging' : Staging} (h : staging.Records taken)
    (hfailed : staging'.failed = staging.failed)
    (hrules : declaring (Ledger.rules (accepted taken ++ [command])) = .ok staging'.rules)
    (hupstream : (upstreamsOf command = none ∧ staging'.upstream = staging.upstream) ∨
      ∃ named list, upstreamsOf command = some named ∧
        Upstreams.parse named.1 named.2 = .ok list ∧ staging'.upstream = some list)
    (hlisten : staging'.listen = (listenOf command).or staging.listen)
    (hforwards : staging'.forwards.forwards =
      staging.forwards.forwards ++ (forwardOf command).toList) :
    staging'.Records (taken ++ [⟨command, .ok⟩]) := by
  refine ⟨?_, ?_, ?_, ?_, ?_⟩
  · rw [hfailed, h.failed, noneRejected_snoc]
    simp [Response.isErr]
  · rw [accepted_snoc rfl]
    exact hrules
  · rw [accepted_snoc rfl, upstreams_snoc]
    rcases hupstream with ⟨hnone, hsame⟩ | ⟨named, list, hsome, hparse, hnew⟩
    · rw [hnone, hsame, Option.none_or]
      exact h.upstream
    · rw [hsome, hnew, Option.some_or, Option.map_some, hparse, Option.map_some]
  · rw [accepted_snoc rfl, listen_snoc, hlisten, h.listen]
  · rw [accepted_snoc rfl, forwards_snoc, hforwards, h.forwards]

theorem Records.rules_same (h : staging.Records taken) (hclear : isClear command = false)
    (hrule : ruleOf command = none) :
    declaring (Ledger.rules (accepted taken ++ [command])) = .ok staging.rules := by
  rw [rules_snoc hclear, hrule, Option.toList_none, List.append_nil]
  exact h.rules

/-- A command that is neither a rule, a forward nor a configured address. -/
theorem Records.keep (h : staging.Records taken) (hclear : isClear command = false)
    (hrule : ruleOf command = none) (hupstream : upstreamsOf command = none)
    (hlisten : listenOf command = none) (hforward : forwardOf command = none) :
    staging.Records (taken ++ [⟨command, .ok⟩]) := by
  apply h.accept rfl (h.rules_same hclear hrule) (Or.inl ⟨hupstream, rfl⟩)
  · rw [hlisten, Option.none_or]
  · rw [hforward, Option.toList_none, List.append_nil]

theorem Records.takeRule (h : staging.Records taken) {ruleClass : RuleClass} {kind : RuleKind}
    {value : RuleValue} (hrule : ruleOf command = some ⟨ruleClass, kind, value⟩)
    (hothers : isClear command = false ∧ upstreamsOf command = none ∧ listenOf command = none ∧
      forwardOf command = none) :
    (replied invalid (staging.pushRule ruleClass kind value)).2.Records
      (taken ++ [⟨command, (replied invalid (staging.pushRule ruleClass kind value)).1⟩]) := by
  obtain ⟨hclear, hupstream, hlisten, hforward⟩ := hothers
  unfold pushRule
  cases hpush : staging.rules.push ruleClass kind value with
  | error failure => exact h.reject rfl
  | ok pushed =>
      show Records { staging with rules := pushed.2 } (taken ++ [⟨command, .ok⟩])
      refine h.accept rfl ?_ (Or.inl ⟨hupstream, rfl⟩) ?_ ?_
      · rw [rules_snoc hclear, hrule, Option.toList_some, declaring_snoc h.rules, hpush]
        rfl
      · rw [hlisten, Option.none_or]
      · rw [hforward, Option.toList_none, List.append_nil]

theorem Records.takeUpstreams (h : staging.Records taken) {addr : UpstreamAddr}
    {fallbacks : List UpstreamAddr} (hupstream : upstreamsOf command = some (addr, fallbacks))
    (hothers : isClear command = false ∧ ruleOf command = none ∧ listenOf command = none ∧
      forwardOf command = none) :
    (replied unreadable (staging.setUpstream addr fallbacks)).2.Records
      (taken ++ [⟨command, (replied unreadable (staging.setUpstream addr fallbacks)).1⟩]) := by
  obtain ⟨hclear, hrule, hlisten, hforward⟩ := hothers
  unfold setUpstream
  cases hparse : Upstreams.parse addr fallbacks with
  | error failure => exact h.reject rfl
  | ok list =>
      show Records { staging with upstream := some list } (taken ++ [⟨command, .ok⟩])
      refine h.accept rfl (h.rules_same hclear hrule)
        (Or.inr ⟨(addr, fallbacks), list, hupstream, hparse, rfl⟩) ?_ ?_
      · rw [hlisten, Option.none_or]
      · rw [hforward, Option.toList_none, List.append_nil]

theorem Records.takeForward (h : staging.Records taken) {forward : Forward}
    (hforward : forwardOf command = some forward)
    (hothers : isClear command = false ∧ ruleOf command = none ∧ upstreamsOf command = none ∧
      listenOf command = none) :
    (replied duplicate (staging.pushForward forward)).2.Records
      (taken ++ [⟨command, (replied duplicate (staging.pushForward forward)).1⟩]) := by
  obtain ⟨hclear, hrule, hupstream, hlisten⟩ := hothers
  unfold pushForward
  cases hpush : staging.forwards.push forward with
  | error failure => exact h.reject rfl
  | ok forwards =>
      show Records { staging with forwards := forwards } (taken ++ [⟨command, .ok⟩])
      refine h.accept rfl (h.rules_same hclear hrule) (Or.inl ⟨hupstream, rfl⟩) ?_ ?_
      · rw [hlisten, Option.none_or]
      · rw [hforward, Option.toList_some]
        exact (Forwards.push_eq_ok.mp hpush).2

/-- **Every command a run is given keeps what it has built the fold of those it
accepted.** -/
theorem Records.take (h : staging.Records taken) :
    (staging.take command).2.Records (taken ++ [⟨command, (staging.take command).1⟩]) := by
  cases command with
  | addRule ruleClass kind value load =>
      show Records (replied invalid (staging.pushRule ruleClass kind value)).2 _
      exact h.takeRule rfl ⟨rfl, rfl, rfl, rfl⟩
  | clearRules load =>
      show staging.clearRules.Records (taken ++ [⟨.clearRules load, .ok⟩])
      refine h.accept rfl ?_ (Or.inl ⟨rfl, rfl⟩) rfl ?_
      · rw [rules_snoc_clear rfl]
        rfl
      · simp [forwardOf, clearRules]
  | setUpstream addr load =>
      have hnamed : upstreamsOf (.setUpstream addr load) = some (addr, []) := rfl
      simp only [take]
      exact h.takeUpstreams hnamed ⟨rfl, rfl, rfl, rfl⟩
  | setUpstreams addr fallbacks load =>
      have hnamed : upstreamsOf (.setUpstreams addr fallbacks load) = some (addr, fallbacks) := rfl
      simp only [take]
      exact h.takeUpstreams hnamed ⟨rfl, rfl, rfl, rfl⟩
  | setListen http socks load =>
      show (staging.setListen ⟨http, socks⟩).Records (taken ++ [⟨.setListen http socks load, .ok⟩])
      refine h.accept rfl (h.rules_same rfl rfl) (Or.inl ⟨rfl, rfl⟩) rfl ?_
      simp [forwardOf, setListen]
  | addForward listen host port load =>
      show Records (replied duplicate (staging.pushForward ⟨listen, ⟨host, port⟩⟩)).2 _
      exact h.takeForward rfl ⟨rfl, rfl, rfl, rfl⟩
  | reload | on | off | status | rules | test | doctor | subscribe =>
      exact h.keep rfl rfl rfl rfl rfl

end Staging

end Nhop.Daemon
