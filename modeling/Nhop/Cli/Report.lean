import Nhop.Upstream.Select

/-!
What the daemon reports about itself: the rules, where they route a destination,
and the upstreams. Numbers are 32 bits wide on the wire and stop at the largest.
-/

namespace Nhop.Cli

open Foundation Ipc Rules Proxy Upstream

def counted (count : ℕ) : ℕ := min count (2 ^ 32 - 1)

def indexed (rule : RuleId) : ℕ := counted rule.index

variable [External]

/-- Lists a ruleset in declaration order. -/
def ruleViews (rules : Ruleset) : List RuleView :=
  rules.rules.map fun rule =>
    ⟨indexed rule.id, rule.ruleClass, rule.matcher.kind, rule.value⟩

def dialledName (host : Host) (port : Port) : String :=
  if containsText ":" host.name then "[" ++ host.name ++ "]:" ++ toString port.toNat
  else host.name ++ ":" ++ toString port.toNat

def upstreamName (upstream : Option UpstreamAddr) : String :=
  match upstream with
  | none => "none"
  | some upstream => upstream.text

/-- Reports where a destination would be routed, without opening any connection. -/
def decisionView (rules : Ruleset) (upstream : Option UpstreamAddr) (host : Host) (port : Port) :
    DecisionView :=
  match rules.decide host port with
  | .direct => ⟨.direct, none, none, dialledName host port⟩
  | .never rule => ⟨.never, some (indexed rule), some .never, dialledName host port⟩
  | .upstream ruleClass rule =>
      match ruleClass with
      | .require | .prefer =>
          ⟨.upstream, some (indexed rule), some ruleClass, upstreamName upstream⟩
      | .never => ⟨.never, some (indexed rule), some ruleClass, dialledName host port⟩

/-- Lists the published upstreams in order, marking the one new connections go
through. -/
def upstreamViews (list : UpstreamEntries) (cells : Verdicts) (selected : Option ℕ) :
    List UpstreamView :=
  list.entries.mapIdx fun index entry =>
    let verdict := entry.health.verdict cells
    ⟨entry.upstream.written, verdict.state, verdict.changedAt, selected == some index⟩

end Nhop.Cli
