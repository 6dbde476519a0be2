import Nhop.Proxy.Listed

/-!
What one init run has built so far, and the ids runs are told apart by.

A run starts from nothing. A command it is rejected on marks it, and the first
such command is the one it is reported by.
-/

namespace Nhop.Daemon

open Foundation Ipc Rules Proxy

/-- Command an init run was rejected on. -/
inductive FailedCommand
  | addRule | setUpstream | setUpstreams | setListen | addForward
  deriving DecidableEq, Repr

/-- The name of the command on the wire. -/
def FailedCommand.name : FailedCommand → String
  | .addRule => "add_rule"
  | .setUpstream => "set_upstream"
  | .setUpstreams => "set_upstreams"
  | .setListen => "set_listen"
  | .addForward => "add_forward"

/-- State a successful init run replaces the live state with. -/
structure Committed where
  rules : Ruleset
  upstream : Option Upstreams
  listen : Option Listen
  forwards : Forwards
  deriving DecidableEq, Repr

structure Staging where
  rules : Ruleset
  upstream : Option Upstreams
  listen : Option Listen
  forwards : Forwards
  failed : Option FailedCommand
  deriving DecidableEq, Repr

namespace Staging

def empty : Staging := ⟨.empty, none, none, .empty, none⟩

/-- Marks the run as failed, keeping the command it was first rejected on. -/
def fail (staging : Staging) (command : FailedCommand) : Staging :=
  match staging.failed with
  | some _ => staging
  | none => { staging with failed := some command }

/-- Appends a rule to the run. -/
def pushRule [External] (staging : Staging) (ruleClass : RuleClass) (kind : RuleKind)
    (value : RuleValue) : Except InvalidRule Unit × Staging :=
  match staging.rules.push ruleClass kind value with
  | .ok (_, rules) => (.ok (), { staging with rules := rules })
  | .error failure => (.error failure, staging.fail .addRule)

/-- Drops every rule staged so far. -/
def clearRules (staging : Staging) : Staging := { staging with rules := .empty }

/-- Points the run at an ordered list of upstreams, replacing any list staged
before it. -/
def setUpstream (staging : Staging) (first : UpstreamAddr) (fallbacks : List UpstreamAddr) :
    Except UnusableUpstreams Unit × Staging :=
  let sent := if fallbacks.isEmpty then FailedCommand.setUpstream else .setUpstreams
  match Upstreams.parse first fallbacks with
  | .ok upstreams => (.ok (), { staging with upstream := some upstreams })
  | .error failure => (.error failure, staging.fail sent)

/-- Moves the front ends the run commits. -/
def setListen (staging : Staging) (listen : Listen) : Staging :=
  { staging with listen := some listen }

/-- Appends a forward to the run. -/
def pushForward (staging : Staging) (forward : Forward) :
    Except DuplicateForward Unit × Staging :=
  match staging.forwards.push forward with
  | .ok forwards => (.ok (), { staging with forwards := forwards })
  | .error failure => (.error failure, staging.fail .addForward)

/-- The command the run was rejected on, absent while it is still viable. -/
def failure (staging : Staging) : Option FailedCommand := staging.failed

/-- The state the run replaces the live state with. -/
def commit (staging : Staging) : Committed :=
  ⟨staging.rules, staging.upstream, staging.listen, staging.forwards⟩

section lemmas

variable {staging : Staging} {command : FailedCommand}

@[simp] theorem failed_fail : (staging.fail command).failed ≠ none := by
  unfold fail
  split
  · next h => simp [h]
  · simp

@[simp] theorem commit_fail : (staging.fail command).commit = staging.commit := by
  unfold fail
  split <;> rfl

end lemmas

end Staging

/-- Source of the identifier each init run is tagged with. -/
structure LoadIds where
  issued : ℕ
  deriving DecidableEq, Repr

/-- An identifier no earlier run has carried. The count is a machine word and
starts over after the last of them. -/
def LoadIds.issue (ids : LoadIds) : LoadId × LoadIds :=
  let issued := (ids.issued + 1) % 2 ^ 64
  (⟨issued⟩, ⟨issued⟩)

/-- The identifier of the `n`-th run, the first of which is the `0`-th. -/
def LoadIds.nth (n : ℕ) : LoadId := ⟨(n + 1) % 2 ^ 64⟩

theorem LoadIds.issue_mod (n : ℕ) :
    issue ⟨n % 2 ^ 64⟩ = (nth n, ⟨(n + 1) % 2 ^ 64⟩) := by
  simp only [issue, nth, Nat.mod_add_mod]

/-- No two of the first `2 ^ 64` runs carry one identifier. -/
theorem LoadIds.nodup_nth {n : ℕ} (h : n ≤ 2 ^ 64) : ((List.range n).map nth).Nodup := by
  apply List.Nodup.map_on _ List.nodup_range
  intro a ha b hb hab
  rw [List.mem_range] at ha hb
  simp only [nth, LoadId.mk.injEq] at hab
  omega

end Nhop.Daemon
