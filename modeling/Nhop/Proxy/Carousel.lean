import Nhop.Rules.Labels
import Nhop.Proxy.Coherence
import Nhop.Upstream.Routes

/-!
Whether a front end ever opens a connection to itself.

`Lands` says from the outside where a connection goes: to the listening address
when the port is that one and the host is a literal of it however it is spelled,
an unspecified address, or `localhost` on a loopback address. The guard of the
front ends turns every such destination away. It looks at the destination alone:
an upstream that is the listening address is dialled, accepted, decided and
dialled again. A front end spares itself exactly when the upstream its decision
goes through is somewhere else.
-/

namespace Nhop.Proxy

open Foundation Ipc Rules Nhop.Upstream

/-! ### Where a connection lands -/

/-- A connection to an address and port reaches the listening socket. -/
def LandsAt (listening : SocketAddr) (address : IpAddr) (port : Port) : Prop :=
  port = listening.port ∧
    ((canonical address).isUnspecified = true ∨ canonical address = canonical listening.ip)

/-- The name of the machine itself, in any case and with or without a trailing
dot. -/
def IsLocalhost (host : Host) : Prop :=
  ((stripEnd "." host.name).getD host.name).toList.map Char.toLower = localhost.toList

/-- A connection to a destination reaches the listening socket. -/
def Lands (listening : SocketAddr) (host : Host) (port : Port) : Prop :=
  (∃ address, IpAddr.parse host.name = some address ∧ LandsAt listening address port) ∨
    port = listening.port ∧ IsLocalhost host ∧ (canonical listening.ip).isLoopback = true

instance (listening : SocketAddr) (address : IpAddr) (port : Port) :
    Decidable (LandsAt listening address port) := inferInstanceAs (Decidable (_ ∧ _))

section guard

variable [External] {host : Host} {port : Port} {listening : SocketAddr}

/-- **The guard sees every destination that lands on the listening address.** -/
theorem dialsItself_of_lands (h : Lands listening host port) :
    dialsItself host port listening = true := by
  rcases h with ⟨address, hparse, rfl, hlands⟩ | ⟨rfl, hname, hloopback⟩
  · have hread : (NormalizedHost.new host).address = some address :=
      NormalizedHost.address_of_parse hparse
    simp only [dialsItself, hread, ne_eq, not_true_eq_false, if_false, Bool.or_eq_true, beq_iff_eq]
    exact hlands
  · have hlower : External.lowercase ((stripEnd "." host.name).getD host.name) = localhost :=
      lowercase_eq hname (by simp [localhost])
    have hread : NormalizedHost.new host = ⟨localhost, none⟩ := by
      show NormalizedHost.mk _ (IpAddr.parse _) = _
      rw [hlower]
      rfl
    simp [dialsItself, hread, hloopback]

end guard

/-! ### What a dial opens -/

section dial

variable {net : Network} {list : Arc UpstreamEntries} {cells : Verdicts} {now : ℤ} {hold : ℕ}
  {host : Host} {port : Port} {decision : Decision}

/-- The upstream a decision goes through. -/
def carrier (list : Arc UpstreamEntries) (cells : Verdicts) (now : ℤ) (hold : ℕ) :
    Decision → Option SocketAddr
  | .direct | .never _ | .upstream .never _ => none
  | .upstream .require _ =>
      (list.val.required (list.val.selected cells now hold)).map (·.upstream.socket)
  | .upstream .prefer _ =>
      (list.val.get (list.val.selected cells now hold)).map (·.upstream.socket)

/-- How long the upstream a decision goes through may take. -/
def budgetOf : Decision → UpstreamBudget
  | .upstream .require _ => .require
  | .direct | .never _ | .upstream .never _ | .upstream .prefer _ => .prefer

/-- What the upstream a decision goes through answers. -/
def carrierAnswer (net : Network) (host : Host) (port : Port) (decision : Decision)
    (upstream : SocketAddr) : SocksAnswer :=
  net.socks upstream host port (seconds (budgetOf decision).allowance)

/-- A decision goes to the destination itself, at once or in the end. -/
def GoesDirect (net : Network) (list : Arc UpstreamEntries) (cells : Verdicts) (now : ℤ)
    (hold : ℕ) (host : Host) (port : Port) (decision : Decision) : Prop :=
  match decision with
  | .direct | .never _ | .upstream .never _ => True
  | .upstream .require _ => False
  | .upstream .prefer _ => ∀ upstream, carrier list cells now hold decision = some upstream →
      ∀ stream, carrierAnswer net host port decision upstream ≠ some (.ok stream)

/-- Verdicts are written, and nothing is opened. -/
def Verdictive (effects : List Effect) : Prop :=
  ∀ effect ∈ effects, ∃ health state cause, effect = .wrote health state cause

theorem Verdictive.dialled_notMem {effects : List Effect} (h : Verdictive effects)
    {upstream : SocketAddr} : .dialled upstream host port ∉ effects := by
  intro hmem
  obtain ⟨_, _, _, hne⟩ := h _ hmem
  cases hne

theorem Verdictive.connected_notMem {effects : List Effect} (h : Verdictive effects) :
    .connected host port ∉ effects := by
  intro hmem
  obtain ⟨_, _, _, hne⟩ := h _ hmem
  cases hne

/-- What a `prefer` dial through an entry does: it goes around it exactly when the
entry did not connect. -/
theorem preferred_effects (net : Network) (host : Host) (port : Port) (entry : UpstreamEntry) :
    ∃ verdicts fallen,
    (preferred net host port (some entry)).2 =
      .dialled entry.upstream.socket host port :: (verdicts ++ fallen) ∧
    Verdictive verdicts ∧
    (fallen = [] ∧ (∃ stream, net.socks entry.upstream.socket host port
        (seconds UpstreamBudget.prefer.allowance) = some (.ok stream)) ∨
      fallen = [.connected host port] ∧ ∀ stream, net.socks entry.upstream.socket host port
        (seconds UpstreamBudget.prefer.allowance) ≠ some (.ok stream)) := by
  unfold preferred
  simp only [through_effects, observed, fallenBack, direct]
  split
  · next stream hthrough =>
      exact ⟨[.wrote entry.health .up .dial], [], rfl, by simp [Verdictive],
        Or.inl ⟨rfl, stream, through_ok.mp hthrough⟩⟩
  · next hthrough =>
      refine ⟨[.wrote entry.health .up .dial], _, rfl, by simp [Verdictive],
        Or.inr ⟨rfl, fun stream hok => ?_⟩⟩
      rw [through_ok.mpr hok] at hthrough
      cases hthrough
  · next hthrough =>
      refine ⟨[], _, rfl, by simp [Verdictive], Or.inr ⟨rfl, fun stream hok => ?_⟩⟩
      rw [through_ok.mpr hok] at hthrough
      cases hthrough
  · next hthrough =>
      refine ⟨[.wrote entry.health .down .dial], _, rfl, by simp [Verdictive],
        Or.inr ⟨rfl, fun stream hok => ?_⟩⟩
      rw [through_ok.mpr hok] at hthrough
      cases hthrough

theorem required_verdictive (net : Network) (host : Host) (port : Port) (rule : RuleId)
    (entry : UpstreamEntry) : ∃ verdicts,
    (required net host port rule (some entry)).2 =
      .dialled entry.upstream.socket host port :: verdicts ∧ Verdictive verdicts := by
  obtain ⟨verdicts, heffects, hverdicts⟩ := required_effects net host port rule entry
  refine ⟨verdicts, heffects, ?_⟩
  rcases hverdicts with rfl | rfl | ⟨rfl, _⟩ <;> simp [Verdictive]

/-- The upstream a dial opens a connection to is the carrier of its decision. -/
theorem mem_dial_dialled {upstream : SocketAddr} {host' : Host} {port' : Port} :
    .dialled upstream host' port' ∈ (dial net list cells now hold host port decision).2 ↔
      carrier list cells now hold decision = some upstream ∧ host' = host ∧ port' = port := by
  cases decision with
  | direct | never => simp [dial, direct, carrier]
  | upstream ruleClass rule =>
      cases ruleClass with
      | never => simp [dial, routed, direct, carrier]
      | require =>
          simp only [dial, routed, carrier]
          cases list.val.required (list.val.selected cells now hold) with
          | none => simp [required]
          | some entry =>
              obtain ⟨verdicts, heffects, hverdicts⟩ :=
                required_verdictive net host port rule entry
              simp [heffects, hverdicts.dialled_notMem, eq_comm]
      | prefer =>
          simp only [dial, routed, carrier]
          cases list.val.get (list.val.selected cells now hold) with
          | none => simp [preferred, fallenBack, direct]
          | some entry =>
              obtain ⟨verdicts, fallen, heffects, hverdicts, hfallen⟩ :=
                preferred_effects net host port entry
              rcases hfallen with ⟨rfl, _⟩ | ⟨rfl, _⟩ <;>
                simp [heffects, hverdicts.dialled_notMem, eq_comm]

theorem mem_dial_connected {host' : Host} {port' : Port} :
    .connected host' port' ∈ (dial net list cells now hold host port decision).2 ↔
      GoesDirect net list cells now hold host port decision ∧ host' = host ∧ port' = port := by
  cases decision with
  | direct | never => simp [dial, direct, GoesDirect]
  | upstream ruleClass rule =>
      cases ruleClass with
      | never => simp [dial, routed, direct, GoesDirect]
      | require =>
          simp only [dial, routed, GoesDirect]
          cases list.val.required (list.val.selected cells now hold) with
          | none => simp [required]
          | some entry =>
              obtain ⟨verdicts, heffects, hverdicts⟩ :=
                required_verdictive net host port rule entry
              simp [heffects, hverdicts.connected_notMem]
      | prefer =>
          simp only [dial, routed, GoesDirect, carrier]
          cases list.val.get (list.val.selected cells now hold) with
          | none => simp [preferred, fallenBack, direct]
          | some entry =>
              obtain ⟨verdicts, fallen, heffects, hverdicts, hfallen⟩ :=
                preferred_effects net host port entry
              rcases hfallen with ⟨rfl, stream, hok⟩ | ⟨rfl, hnot⟩
              · simp only [heffects, List.append_nil, List.mem_cons, hverdicts.connected_notMem]
                simpa [carrierAnswer, budgetOf] using fun hnot => absurd hok (hnot stream)
              · have hfell : ∀ upstream, some entry.upstream.socket = some upstream →
                    ∀ stream, carrierAnswer net host port (.upstream .prefer rule) upstream ≠
                      some (.ok stream) := by
                  rintro _ ⟨⟩
                  exact hnot
                simpa [heffects, hverdicts.connected_notMem] using fun _ _ => hfell

end dial

/-! ### Self-dials -/

/-- The dial never left the process: the answer of an upstream that was not
contacted. -/
def Unsent (answer : SocksAnswer) : Prop :=
  ∃ text, answer = some (.error (.invalidTargetAddress text))

/-- One thing a dial does opens a connection to the listening address. -/
def Effect.Reaches (net : Network) (decision : Decision) (listening : SocketAddr) : Effect → Prop
  | .dialled upstream host port => LandsAt listening upstream.ip upstream.port ∧
      ¬Unsent (carrierAnswer net host port decision upstream)
  | .connected host port => Lands listening host port
  | .observed _ _ | .wrote _ _ _ => False

/-- No connection of a trace reaches the address it was accepted on. -/
def NoSelfDial (net : Network) (listening : SocketAddr) (trace : List Action) : Prop :=
  ∀ host port decision outcome effects, .decided host port decision ∈ trace →
    .dialled outcome effects ∈ trace →
    ∀ effect ∈ effects, ¬Effect.Reaches net decision listening effect

/-- A decision opens no connection to the address it was made on: the destination
is turned away, or neither the upstream it goes through is that address nor, where
the socket cannot name itself, a destination it goes to directly. -/
def Spared [External] (net : Network) (dialling : Moment) (hold : ℕ) (wire : Wire) (host : Host)
    (port : Port) (decision : Decision) : Prop :=
  wire.Own host port ∨
    (∀ upstream, carrier dialling.list dialling.cells dialling.now hold decision = some upstream →
      LandsAt wire.accepted upstream.ip upstream.port →
      Unsent (carrierAnswer net host port decision upstream)) ∧
    (wire.unnamed ≠ none →
      GoesDirect net dialling.list dialling.cells dialling.now hold host port decision →
      ¬Lands wire.accepted host port)

section spared

variable [External] {net : Network} {hold : ℕ} {decided dialling : Moment} {wire : Wire}
  {host : Host} {port : Port} {decision : Decision}

/-- What a dial does not reach, said of its effects and of its decision. -/
theorem spared_iff (decided : Moment) (h : ¬wire.Own host port) :
    (∀ effect ∈ ((upstreamHop net hold decided dialling).dial host port decision).2,
      ¬Effect.Reaches net decision wire.accepted effect) ↔
      Spared net dialling hold wire host port decision := by
  have hdirect : (wire.unnamed ≠ none →
      GoesDirect net dialling.list dialling.cells dialling.now hold host port decision →
      ¬Lands wire.accepted host port) ↔
      (GoesDirect net dialling.list dialling.cells dialling.now hold host port decision →
        ¬Lands wire.accepted host port) := by
    constructor
    · intro hunnamed hgoes hlands
      by_cases hnamed : wire.unnamed = none
      · exact h ⟨hnamed, dialsItself_of_lands hlands⟩
      · exact hunnamed hnamed hgoes hlands
    · exact fun hall _ => hall
  rw [Spared, hdirect, or_iff_right h]
  constructor
  · intro hall
    refine ⟨fun upstream hcarrier hlands => ?_, fun hgoes => ?_⟩
    · by_contra hsent
      exact hall _ (mem_dial_dialled.mpr ⟨hcarrier, rfl, rfl⟩) ⟨hlands, hsent⟩
    · exact hall _ (mem_dial_connected.mpr ⟨hgoes, rfl, rfl⟩)
  · rintro ⟨hcarried, hdirect⟩ effect hmem hreaches
    cases effect with
    | observed | wrote => exact hreaches
    | dialled upstream host' port' =>
        obtain ⟨hcarrier, rfl, rfl⟩ := mem_dial_dialled.mp hmem
        exact hreaches.2 (hcarried upstream hcarrier hreaches.1)
    | connected host' port' =>
        obtain ⟨hgoes, rfl, rfl⟩ := mem_dial_connected.mp hmem
        exact hdirect hgoes hreaches

theorem Course.mem_dialled {hop : NextHop} {speaks : Bool} {actions : List Action}
    {connect : Connect} {failure : Option Failure} {outcome : Dialled} {effects : List Effect}
    (h : Course wire hop host port decision speaks actions connect failure) :
    .dialled outcome effects ∈ actions ↔
      ¬wire.Own host port ∧ hop.dial host port decision = (outcome, effects) := by
  constructor
  · intro hmem
    refine ⟨?_, h.amid hmem⟩
    cases h with
    | loop hown h =>
        obtain ⟨_, _, hne⟩ := h.eq_told hmem
        cases hne
    | failed helsewhere | reached helsewhere => exact helsewhere
  · rintro ⟨helsewhere, hdial⟩
    cases h with
    | loop hown => exact absurd hown helsewhere
    | failed | reached =>
        rw [hdial]
        exact List.mem_cons_self ..

variable [SocksText]

theorem Routing.dials_elsewhere_iff {ctx : ConnCtx} {speaks : Bool} {before trace : List Action}
    {failure : Option Failure} (hgreeted : Greeted before)
    (h : Routing ctx wire (upstreamHop net hold decided dialling) host port speaks before failure
      trace) :
    NoSelfDial net wire.accepted trace ↔
      ∀ host port decision, .decided host port decision ∈ trace →
        Spared net dialling hold wire host port decision := by
  obtain ⟨actions, connect, hcourse, rfl⟩ := h
  have hamid : ∀ action ∈ actions, action.Amid (upstreamHop net hold decided dialling) host port
      (ctx.rules.decide host port) := fun _ hmem => hcourse.amid hmem
  constructor
  · intro hno host' port' decision' hdecided
    obtain ⟨rfl, rfl, rfl⟩ := decided_of_amid hgreeted hamid hdecided
    by_cases hown : wire.Own host' port'
    · exact Or.inl hown
    · obtain ⟨outcome, effects, hdial⟩ : ∃ outcome effects,
          (upstreamHop net hold decided dialling).dial host' port' (ctx.rules.decide host' port') =
            (outcome, effects) := ⟨_, _, rfl⟩
      have hdialled := hcourse.mem_dialled.mpr ⟨hown, hdial⟩
      refine (spared_iff decided hown).mp ?_
      rw [hdial]
      exact hno _ _ _ _ _ hdecided
        (List.mem_append_left _ (List.mem_append_right _ (List.mem_cons_of_mem _ hdialled)))
  · intro hspared host' port' decision' outcome effects hdecided hdialled
    obtain ⟨rfl, rfl, rfl⟩ := decided_of_amid hgreeted hamid hdecided
    have hmem : .dialled outcome effects ∈ actions := by
      rcases List.mem_append.mp hdialled with hmem | hmem
      · rcases List.mem_append.mp hmem with hmem | hmem
        · obtain ⟨_, _, hne⟩ := hgreeted _ hmem
          cases hne
        · exact List.mem_of_ne_of_mem (by simp) hmem
      · cases List.mem_singleton.mp hmem
    obtain ⟨helsewhere, hdial⟩ := hcourse.mem_dialled.mp hmem
    have hall := (spared_iff decided helsewhere).mpr (hspared _ _ _ hdecided)
    rwa [hdial] at hall

omit [External] [SocksText] in
theorem noSelfDial_of_undecided {trace : List Action} {P : Host → Port → Decision → Prop}
    (h : ∀ host port decision, .decided host port decision ∉ trace) :
    NoSelfDial net wire.accepted trace ↔
      ∀ host port decision, .decided host port decision ∈ trace → P host port decision := by
  constructor
  · intro _ host port decision hmem
    exact absurd hmem (h host port decision)
  · intro _ host port decision _ _ hmem
    exact absurd hmem (h host port decision)

theorem Story.dials_elsewhere_iff {ctx : ConnCtx} {speaks : Bool} {trace : List Action}
    {failure : Option Failure}
    (h : Story ctx wire (upstreamHop net hold decided dialling) speaks failure trace) :
    NoSelfDial net wire.accepted trace ↔
      ∀ host port decision, .decided host port decision ∈ trace →
        Spared net dialling hold wire host port decision := by
  cases h with
  | unrouted h =>
      refine noSelfDial_of_undecided fun host port decision hmem => ?_
      obtain ⟨_, _, hne⟩ := h _ hmem
      cases hne
  | turnedAway h =>
      refine noSelfDial_of_undecided fun host port decision hmem => ?_
      rcases List.mem_append.mp hmem with hmem | hmem
      · obtain ⟨_, _, hne⟩ := h _ hmem
        cases hne
      · cases List.mem_singleton.mp hmem
  | routed h hrouting => exact hrouting.dials_elsewhere_iff h

/-- **A front end opens no connection to itself** exactly when the upstream that
carries the decision is somewhere else. -/
theorem FrontEnd.noSelfDial_iff (frontEnd : FrontEnd) (ctx : ConnCtx) (net : Network) (hold : ℕ)
    (decided dialling : Moment) (wire : Wire) (incoming : List UInt8) :
    let run := frontEnd.serve ctx (upstreamHop net hold decided dialling) wire
      (.accepted incoming)
    NoSelfDial net wire.accepted run.2.trace ↔
      ∀ host port decision, .decided host port decision ∈ run.2.trace →
        Spared net dialling hold wire host port decision := by
  intro run
  have hstory : Story ctx wire (upstreamHop net hold decided dialling) frontEnd.speaks
      (failureOf run.1) run.2.trace := frontEnd.serve_story incoming
  exact hstory.dials_elsewhere_iff

end spared

/-! ### A front end named as its own upstream -/

/-- The SOCKS5 front end, written down as an upstream. -/
def ownUpstream : Upstream := ⟨⟨"socks5://127.0.0.1:7891"⟩, .v4 0x7f000001#32 7891, by decide⟩

/-- A list of that one upstream, which is down. -/
def ownList : Moment :=
  { Moment.unconfigured with list := ⟨0, ⟨[⟨ownUpstream, ⟨0⟩⟩], ⟨1⟩, by decide⟩⟩ }

theorem numbered_singleton {ruleClass : RuleClass} {matcher : Matcher} {value : RuleValue} :
    [(⟨⟨0⟩, ruleClass, matcher, value⟩ : Rule)].map Rule.id = (List.range 1).map RuleId.mk := rfl

/-- One `require` rule for port 443. -/
def requireHttps : Ruleset where
  rules := [⟨⟨0⟩, .require, .port 443, ⟨"443"⟩⟩]
  numbered := numbered_singleton

/-- `CONNECT 192.0.2.1:443` behind a greeting without authentication. -/
def socksRequest : List UInt8 :=
  [5, 1, 0, 5, 1, 0, 1, 192, 0, 2, 1, 1, 0xbb]

/-- The guard looks at the destination, not at the upstream it is reached
through. -/
theorem dials_itself_through_upstream :
    ¬∀ (_ : External) (_ : SocksText) (frontEnd : FrontEnd) (ctx : ConnCtx) (net : Network)
      (hold : ℕ) (decided dialling : Moment) (wire : Wire) (incoming : List UInt8),
      NoSelfDial net wire.accepted (frontEnd.serve ctx (upstreamHop net hold decided dialling) wire
        (.accepted incoming)).2.trace := by
  intro h
  have hno := h .ascii .silent .socks5 ⟨requireHttps⟩ openNetwork 0 ownList ownList
    (.smooth (.v4 0x7f000001#32 7891)) socksRequest ⟨"192.0.2.1"⟩ 443 (.upstream .require ⟨0⟩)
    (.attempted .upstream (some ⟨"socks5://127.0.0.1:7891"⟩) (.ok ⟨0⟩))
    [.observed ownList.list none, .dialled (.v4 0x7f000001#32 7891) ⟨"192.0.2.1"⟩ 443,
      .wrote ⟨0⟩ .up .dial]
    (by decide +kernel) (by decide +kernel) (.dialled (.v4 0x7f000001#32 7891) ⟨"192.0.2.1"⟩ 443)
    (by simp)
  refine hno ⟨by decide, ?_⟩
  rintro ⟨text, htext⟩
  cases htext

end Nhop.Proxy
