import Nhop.Daemon.Commit

/-!
One connection while configurations are committed.

A commit publishes a configuration piece by piece: it re-points the forwards, it
replaces the rules, it replaces the upstream list. A connection reads the three
pieces at moments of its own: the rules and the destination of a forward when it
is accepted, the upstreams when it is dialled. Nothing orders the one against the
other, so a connection can be routed by the rules of one configuration through
the upstreams of the next (`snapshot_not_consistent`).

Commits are counted, the configuration the daemon starts with being the first. A
connection belongs to one configuration as long as nothing it has yet to read was
changed by a later commit than the one whose rules it holds (`settled`).
-/

namespace Nhop.Daemon

open Foundation Ipc Rules Proxy Upstream

/-- How far a commit has come. -/
inductive Committing
  | idle
  | moved (staged : Staging)
  | forwarded (staged : Staging)
  | ruled (staged : Staging)

/-- What a committed configuration routes by; a forward is known by the attempt
that opened its listener. -/
structure Config where
  rules : Ruleset
  upstreams : List Upstream
  forwards : List (ℕ × Proxy.Target)
  deriving DecidableEq, Repr

/-- Where a connection was accepted: by one of the protocol front ends, or by a
forward listener. -/
inductive Listener
  | protocol
  | forward (accepting : ℕ)
  deriving DecidableEq, Repr

/-- What a connection has read so far. The last field is the number of the commit
that published the rules it holds. -/
structure Conn where
  listener : Listener
  rules : Ruleset
  target : Option Proxy.Target
  decision : Option Decision
  list : Option (Arc UpstreamEntries)
  version : ℕ
  deriving DecidableEq, Repr

/-- The forwards held, by the listener of each. -/
def DaemonState.forwardsBy (state : DaemonState) : List (ℕ × Proxy.Target) :=
  match state.frontends with
  | .unbound => []
  | .bound listeners =>
      listeners.forwards.map fun forwarding => (forwarding.accepting.accepting, forwarding.target)

def DaemonState.upstreams (state : DaemonState) : List Upstream :=
  state.upstream.val.entries.map UpstreamEntry.upstream

def DaemonState.config (state : DaemonState) : Config :=
  ⟨state.rules, state.upstreams, state.forwardsBy⟩

/-- The connection was decided by the rules of a configuration, was routed to the
destination it declares and was dialled through its upstreams. -/
structure Conn.Belongs (conn : Conn) (config : Config) : Prop where
  rules : conn.rules = config.rules
  target : ∀ accepting target, conn.listener = .forward accepting → conn.target = some target →
    List.lookup accepting config.forwards = some target
  upstreams : ∀ list, conn.list = some list →
    list.val.entries.map UpstreamEntry.upstream = config.upstreams

/-- The state task committing while a connection is served. Of the last four
fields the first is the destination cell of every forward listener there ever
was, which outlives the listener; the others are history: the configurations
committed, the commit that last changed each of these cells, the commit that
closed each listener, and the commit that last changed the upstreams. -/
structure Overlap where
  daemon : DaemonState
  commit : Committing
  conn : Option Conn
  cells : ℕ → Option Proxy.Target
  configs : List Config
  changed : ℕ → ℕ
  closed : ℕ → Option ℕ
  listed : ℕ

namespace Overlap

/-- A step of the commit in progress, or of the connection. -/
inductive Event
  | begin (staged : Staging)
  | forwards
  | rules
  | list (now : ℤ)
  | accept (listener : Listener)
  | load
  | decide (request : Proxy.Target)
  | route

def start (state : DaemonState) : Overlap where
  daemon := state
  commit := .idle
  conn := none
  cells accepting := List.lookup accepting state.forwardsBy
  configs := [state.config]
  changed _ := 0
  closed _ := none
  listed := 0

/-- The number of the commit that published the rules in force. -/
def version (s : Overlap) : ℕ :=
  match s.commit with
  | .ruled _ => s.configs.length
  | _ => s.configs.length - 1

/-- The forwards have been replaced. -/
def repoint (s : Overlap) (daemon : DaemonState) (staged : Staging) : Overlap :=
  let cells := fun accepting => (List.lookup accepting daemon.forwardsBy).or (s.cells accepting)
  { s with
    daemon := daemon
    commit := .forwarded staged
    cells := cells
    changed := fun accepting =>
      if cells accepting = s.cells accepting then s.changed accepting else s.configs.length
    closed := fun accepting => (s.closed accepting).or
      (if (List.lookup accepting daemon.forwardsBy).isNone &&
          (List.lookup accepting s.daemon.forwardsBy).isSome
        then some s.configs.length else none) }

section system

variable [External]

def step (os : Os) (s : Overlap) : Event → Option Overlap
  | .begin staged =>
      match s.commit with
      | .idle =>
          match s.daemon.move os staged.listen with
          | (.error _, daemon) => some { s with daemon := daemon }
          | (.ok _, daemon) => some { s with daemon := daemon, commit := .moved staged }
      | _ => none
  | .forwards =>
      match s.commit with
      | .moved staged =>
          match s.daemon.rebindForwards os staged.forwards with
          | (.error _, daemon) => some { s with daemon := daemon, commit := .idle }
          | (.ok _, daemon) => some (s.repoint daemon staged)
      | _ => none
  | .rules =>
      match s.commit with
      | .forwarded staged =>
          some { s with
            daemon := { s.daemon with rules := staged.rules }
            commit := .ruled staged }
      | _ => none
  | .list now =>
      match s.commit with
      | .ruled staged =>
          let daemon := s.daemon.adoptUpstream now staged.upstream
          some { s with
            daemon := daemon
            commit := .idle
            configs := s.configs ++ [daemon.config]
            listed := if daemon.upstreams = s.daemon.upstreams then s.listed
              else s.configs.length }
      | _ => none
  | .accept listener =>
      match s.conn with
      | none => some { s with conn := some ⟨listener, s.daemon.rules, none, none, none, s.version⟩ }
      | some _ => none
  | .load =>
      match s.conn with
      | some ⟨.forward accepting, rules, none, decision, list, version⟩ =>
          some { s with
            conn := some ⟨.forward accepting, rules, s.cells accepting, decision, list, version⟩ }
      | _ => none
  | .decide request =>
      match s.conn with
      | some ⟨.protocol, rules, target, none, list, version⟩ =>
          some { s with conn := some ⟨.protocol, rules, target,
            some (rules.decide request.host request.port), list, version⟩ }
      | some ⟨.forward accepting, rules, some target, none, list, version⟩ =>
          some { s with conn := some ⟨.forward accepting, rules, some target,
            some (rules.decide target.host target.port), list, version⟩ }
      | _ => none
  | .route =>
      match s.conn with
      | some ⟨listener, rules, target, some (.upstream ruleClass rule), none, version⟩ =>
          some { s with conn := some ⟨listener, rules, target, some (.upstream ruleClass rule),
            some s.daemon.upstream, version⟩ }
      | _ => none

/-- The state task and the connection as a system. -/
def system (os : Os) : System Overlap Event := ⟨step os⟩

/-- Nothing the connection is about to read was changed by a later commit than
the one whose rules it holds: the destination of the forward it was accepted on,
which is not closed, and the upstreams, which that commit has published. -/
def settled (s : Overlap) (event : Event) : Bool :=
  match event, s.conn with
  | .load, some ⟨.forward accepting, _, _, _, _, version⟩ =>
      decide (s.changed accepting ≤ version) &&
        (s.closed accepting).all fun n => decide (version < n)
  | .route, some conn =>
      decide (s.listed ≤ conn.version) && decide (conn.version < s.configs.length)
  | _, _ => true

/-! ### The invariant -/

/-- The configurations say what is in force: the last one the rules, and every one
the destinations and the upstreams that no later commit changed. The connection
belongs to the configuration whose rules it holds, or to the one being committed. -/
structure Inv (s : Overlap) : Prop where
  nonempty : 0 < s.configs.length
  rules : (∀ staged, s.commit ≠ .ruled staged) → ∀ config,
    s.configs[s.configs.length - 1]? = some config → config.rules = s.daemon.rules
  held : ∀ accepting target, s.cells accepting = some target → s.closed accepting = none →
    List.lookup accepting s.daemon.forwardsBy = some target
  closed : ∀ accepting n, s.closed accepting = some n → n ≤ s.configs.length
  cells : ∀ k config accepting target, s.configs[k]? = some config → s.changed accepting ≤ k →
    (∀ n, s.closed accepting = some n → k < n) → s.cells accepting = some target →
    List.lookup accepting config.forwards = some target
  upstreams : ∀ k config, s.configs[k]? = some config → s.listed ≤ k →
    config.upstreams = s.daemon.upstreams
  conn : ∀ conn, s.conn = some conn →
    (conn.version < s.configs.length ∧
      ∀ config, s.configs[conn.version]? = some config → conn.Belongs config) ∨
    (conn.version = s.configs.length ∧ (∃ staged, s.commit = .ruled staged) ∧
      conn.rules = s.daemon.rules ∧ conn.list = none ∧
      ∀ accepting target, conn.listener = .forward accepting → conn.target = some target →
        List.lookup accepting s.daemon.forwardsBy = some target)

section inv

variable {os : Os} {s s' : Overlap} {state : DaemonState} {staged : Staging} {now : ℤ}

omit [External] in
theorem config_move (os : Os) (state : DaemonState) (listen : Option Listen) :
    (state.move os listen).2.config = state.config := by
  cases hgranted : os.grants state.calls (state.frontends.toMove listen) with
  | false =>
      obtain ⟨failure, calls', hmove, _⟩ := DaemonState.move_refused hgranted
      rw [hmove]
      rfl
  | true =>
      obtain ⟨moved, hmove, hmoved⟩ := DaemonState.move_granted hgranted
      rw [hmove]
      have hforwards : moved.forwardsBy = state.forwardsBy := by
        cases listen with
        | none => rw [hmoved.kept rfl]
        | some listen =>
            cases hfrontends : state.frontends with
            | unbound =>
                unfold DaemonState.forwardsBy
                rw [(hmoved.unbound hfrontends).1, hfrontends]
            | bound bound =>
                obtain ⟨moved', hmoved', _, hsame, _⟩ := hmoved.bound bound hfrontends listen rfl
                unfold DaemonState.forwardsBy
                rw [hmoved', hfrontends]
                simp only [hsame]
      have hrules : moved.rules = state.rules := by rw [hmoved.frame]
      have hupstream : moved.upstream = state.upstream := by rw [hmoved.frame]
      unfold DaemonState.config DaemonState.upstreams
      rw [hforwards, hrules, hupstream]

omit [External] in
theorem config_rebindForwards {forwards : Forwards} {result : Except OsError Unit}
    {after : DaemonState} (h : state.rebindForwards os forwards = (result, after)) :
    after.rules = state.rules ∧ after.upstreams = state.upstreams ∧
      (∀ failure, result = .error failure → after.config = state.config) := by
  cases hgranted : os.grants state.calls (state.frontends.toForward forwards) with
  | false =>
      obtain ⟨failure, calls', hrefused, _⟩ := DaemonState.forward_refused hgranted
      rw [hrefused] at h
      obtain ⟨rfl, rfl⟩ := Prod.mk.inj h
      exact ⟨rfl, rfl, fun _ _ => rfl⟩
  | true =>
      obtain ⟨forwarded, hforwarded, hframe⟩ := DaemonState.forward_granted hgranted
      rw [hforwarded] at h
      obtain ⟨rfl, rfl⟩ := Prod.mk.inj h
      refine ⟨by rw [hframe.frame], ?_, ?_⟩
      · unfold DaemonState.upstreams
        rw [hframe.frame]
      · rintro failure ⟨⟩

omit [External] in
/-- The invariant reads the daemon only through what a connection is routed by. -/
theorem Inv.frame (h : s.Inv) {daemon : DaemonState} {commit : Committing}
    (hconfig : daemon.config = s.daemon.config)
    (hcommit : (∃ staged, commit = .ruled staged) ↔ ∃ staged, s.commit = .ruled staged) :
    Inv { s with daemon := daemon, commit := commit } := by
  obtain ⟨hrules, hupstreams, hforwards⟩ := Config.mk.inj hconfig
  have hnot : (∀ staged, commit ≠ .ruled staged) → ∀ staged, s.commit ≠ .ruled staged := by
    intro hne staged hruled
    obtain ⟨staged', hruled'⟩ := hcommit.mpr ⟨staged, hruled⟩
    exact hne staged' hruled'
  refine ⟨h.nonempty, ?_, ?_, h.closed, h.cells, ?_, ?_⟩
  · intro hne config hlast
    rw [h.rules (hnot hne) config hlast, ← hrules]
  · intro accepting target hcell hopen
    show List.lookup accepting daemon.forwardsBy = some target
    rw [hforwards]
    exact h.held accepting target hcell hopen
  · intro k config hk hlisted
    rw [h.upstreams k config hk hlisted, ← hupstreams]
  · intro conn hconn
    rcases h.conn conn hconn with hdone | ⟨hversion, hruled, hsame, hlist, htarget⟩
    · exact Or.inl hdone
    · refine Or.inr ⟨hversion, hcommit.mpr hruled, ?_, hlist, ?_⟩
      · rw [hsame, ← hrules]
      · intro accepting target hlistener hread
        show List.lookup accepting daemon.forwardsBy = some target
        rw [hforwards]
        exact htarget accepting target hlistener hread

omit [External] in
theorem inv_start (state : DaemonState) : (start state).Inv := by
  refine ⟨Nat.zero_lt_one, ?_, ?_, ?_, ?_, ?_, ?_⟩
  · rintro _ config ⟨⟩
    rfl
  · intro accepting target hcell _
    exact hcell
  · rintro accepting n ⟨⟩
  · intro k config accepting target hk _ _ hcell
    simp only [start, List.getElem?_singleton] at hk
    split_ifs at hk
    obtain rfl := Option.some.inj hk
    exact hcell
  · intro k config hk _
    simp only [start, List.getElem?_singleton] at hk
    split_ifs at hk
    obtain rfl := Option.some.inj hk
    rfl
  · rintro conn ⟨⟩

omit [External] in
/-- Replacing the forwards: what a cell held before is what the configurations
say, unless this commit changed it. -/
theorem Inv.repoint (h : s.Inv) (hcommit : ∀ staged, s.commit ≠ .ruled staged)
    {daemon : DaemonState} (hrules : daemon.rules = s.daemon.rules)
    (hupstreams : daemon.upstreams = s.daemon.upstreams) : (s.repoint daemon staged).Inv := by
  refine ⟨h.nonempty, ?_, ?_, ?_, ?_, ?_, ?_⟩
  · intro _ config hlast
    show config.rules = daemon.rules
    rw [h.rules hcommit config hlast, hrules]
  · intro accepting target hcell hopen
    simp only [Overlap.repoint, Option.or_eq_none_iff] at hcell hopen
    show List.lookup accepting daemon.forwardsBy = some target
    cases hlookup : List.lookup accepting daemon.forwardsBy with
    | some target' =>
        rw [hlookup, Option.some_or] at hcell
        exact hcell
    | none =>
        -- a listener that is open is held, so closing it would have been recorded
        rw [hlookup, Option.none_or] at hcell
        have hheld := h.held accepting target hcell hopen.1
        simp [hlookup, hheld] at hopen
  · intro accepting n hclosed
    simp only [Overlap.repoint, Option.or_eq_some_iff] at hclosed
    rcases hclosed with hclosed | ⟨_, hclosed⟩
    · exact h.closed accepting n hclosed
    · split_ifs at hclosed
      exact (Option.some.inj hclosed).ge
  · intro k config accepting target hk hchanged hclosed hcell
    have hlt : k < s.configs.length := (List.getElem?_eq_some_iff.mp hk).1
    have hsame : (List.lookup accepting daemon.forwardsBy).or (s.cells accepting) =
        s.cells accepting := by
      by_contra hne
      simp only [Overlap.repoint, hne, if_false] at hchanged
      omega
    simp only [Overlap.repoint, hsame, if_true] at hchanged hcell
    apply h.cells k config accepting target hk hchanged _ hcell
    intro n hn
    apply hclosed
    simp only [Overlap.repoint, hn, Option.some_or]
  · intro k config hk hlisted
    show config.upstreams = daemon.upstreams
    rw [h.upstreams k config hk hlisted, hupstreams]
  · intro conn hconn
    rcases h.conn conn hconn with hdone | ⟨_, ⟨staged, hruled⟩, _⟩
    · exact Or.inl hdone
    · exact absurd hruled (hcommit staged)

omit [External] in
theorem Inv.rules_published (h : s.Inv) (hcommit : ∀ staged, s.commit ≠ .ruled staged) :
    Inv { s with
      daemon := { s.daemon with rules := staged.rules }
      commit := .ruled staged } := by
  refine ⟨h.nonempty, ?_, h.held, h.closed, h.cells, h.upstreams, ?_⟩
  · intro hne
    exact absurd rfl (hne staged)
  · intro conn hconn
    rcases h.conn conn hconn with hdone | ⟨_, ⟨staged, hruled⟩, _⟩
    · exact Or.inl hdone
    · exact absurd hruled (hcommit staged)

omit [External] in
theorem upstreams_adoptUpstream {upstreams : Option Upstreams} :
    (state.adoptUpstream now upstreams).rules = state.rules ∧
      (state.adoptUpstream now upstreams).forwardsBy = state.forwardsBy := by
  cases upstreams with
  | none => exact ⟨rfl, rfl⟩
  | some upstreams => exact ⟨rfl, rfl⟩

omit [External] in
/-- The upstreams are published and the configuration is complete: what it
declares is what is in force. -/
theorem Inv.list_published (h : s.Inv) :
    Inv { s with
      daemon := s.daemon.adoptUpstream now staged.upstream
      commit := .idle
      configs := s.configs ++ [(s.daemon.adoptUpstream now staged.upstream).config]
      listed :=
        if (s.daemon.adoptUpstream now staged.upstream).upstreams = s.daemon.upstreams
          then s.listed else s.configs.length } := by
  obtain ⟨hrules, hforwards⟩ := @upstreams_adoptUpstream s.daemon now staged.upstream
  set daemon := s.daemon.adoptUpstream now staged.upstream with hdaemon
  have hsplit : ∀ k config, (s.configs ++ [daemon.config])[k]? = some config →
      s.configs[k]? = some config ∨ (k = s.configs.length ∧ config = daemon.config) := by
    intro k config hk
    rcases lt_trichotomy k s.configs.length with hlt | heq | hgt
    · rw [List.getElem?_append_left hlt] at hk
      exact Or.inl hk
    · subst heq
      simp only [List.getElem?_concat_length, Option.some.injEq] at hk
      exact Or.inr ⟨rfl, hk.symm⟩
    · rw [List.getElem?_eq_none (by simp; omega)] at hk
      cases hk
  refine ⟨?_, ?_, ?_, ?_, ?_, ?_, ?_⟩
  · simp
  · intro _ config hlast
    simp only [List.length_append, List.length_singleton, Nat.add_sub_cancel] at hlast
    simp only [List.getElem?_concat_length, Option.some.injEq] at hlast
    rw [← hlast]
    rfl
  · intro accepting target hcell hopen
    show List.lookup accepting daemon.forwardsBy = some target
    rw [hforwards]
    exact h.held accepting target hcell hopen
  · intro accepting n hclosed
    have hle := h.closed accepting n hclosed
    simp only [List.length_append, List.length_singleton]
    omega
  · intro k config accepting target hk hchanged hclosed hcell
    rcases hsplit k config hk with hk | ⟨rfl, rfl⟩
    · exact h.cells k config accepting target hk hchanged hclosed hcell
    · show List.lookup accepting daemon.forwardsBy = some target
      rw [hforwards]
      apply h.held accepting target hcell
      cases hshut : s.closed accepting with
      | none => rfl
      | some n =>
          have hle := h.closed accepting n hshut
          have hlt := hclosed n hshut
          omega
  · intro k config hk hlisted
    show config.upstreams = daemon.upstreams
    rcases hsplit k config hk with hk | ⟨rfl, rfl⟩
    · have hlt : k < s.configs.length := (List.getElem?_eq_some_iff.mp hk).1
      -- a list of its own would have been listed with this configuration, behind the one read
      have hsame : daemon.upstreams = s.daemon.upstreams := by
        by_contra hne
        simp only [hne, if_false] at hlisted
        omega
      simp only [hsame, if_true] at hlisted
      rw [hsame]
      exact h.upstreams k config hk hlisted
    · rfl
  · intro conn hconn
    left
    rcases h.conn conn hconn with ⟨hlt, hbelongs⟩ | ⟨hversion, _, hsame, hlist, htarget⟩
    · refine ⟨?_, ?_⟩
      · simp only [List.length_append, List.length_singleton]
        omega
      · intro config hk
        rw [List.getElem?_append_left hlt] at hk
        exact hbelongs config hk
    · refine ⟨?_, ?_⟩
      · simp only [List.length_append, List.length_singleton]
        omega
      · intro config hk
        simp only [hversion, List.getElem?_concat_length, Option.some.injEq] at hk
        subst hk
        refine ⟨?_, ?_, ?_⟩
        · show conn.rules = daemon.rules
          rw [hsame, hrules]
        · intro accepting target hlistener hread
          show List.lookup accepting daemon.forwardsBy = some target
          rw [hforwards]
          exact htarget accepting target hlistener hread
        · intro list hread
          rw [hlist] at hread
          cases hread

omit [External] in
theorem Inv.accept (h : s.Inv) {listener : Listener} :
    Inv { s with
      conn := some ⟨listener, s.daemon.rules, none, none, none, s.version⟩ } := by
  refine ⟨h.nonempty, h.rules, h.held, h.closed, h.cells, h.upstreams, ?_⟩
  rintro _ ⟨⟩
  have hpositive := h.nonempty
  cases hcommit : s.commit with
  | ruled staged =>
      right
      refine ⟨?_, ⟨staged, rfl⟩, rfl, rfl, ?_⟩
      · simp only [version, hcommit]
      · rintro accepting target _ ⟨⟩
  | idle | moved staged | forwarded staged =>
      left
      have hversion : s.version = s.configs.length - 1 := by simp only [version, hcommit]
      refine ⟨?_, ?_⟩
      · show s.version < s.configs.length
        omega
      · intro config hk
        have hlast : s.configs[s.configs.length - 1]? = some config := by
          rw [← hversion]
          exact hk
        refine ⟨(h.rules (by simp [hcommit]) config hlast).symm, ?_, ?_⟩
        · rintro accepting target _ ⟨⟩
        · rintro list ⟨⟩

omit [External] in
/-- The connection has read something more of the configuration it belongs to. -/
theorem Inv.read (h : s.Inv) {conn conn' : Conn} (hconn : s.conn = some conn)
    (hversion : conn'.version = conn.version) (hrules : conn'.rules = conn.rules)
    (htarget : ∀ accepting target, conn'.listener = .forward accepting →
      conn'.target = some target →
      (conn.listener = .forward accepting ∧ conn.target = some target) ∨
        (s.cells accepting = some target ∧ s.changed accepting ≤ conn.version ∧
          ∀ n, s.closed accepting = some n → conn.version < n))
    (hlist : ∀ list, conn'.list = some list → conn.list = some list ∨
      (list = s.daemon.upstream ∧ s.listed ≤ conn.version ∧ conn.version < s.configs.length)) :
    Inv { s with conn := some conn' } := by
  refine ⟨h.nonempty, h.rules, h.held, h.closed, h.cells, h.upstreams, ?_⟩
  rintro _ ⟨⟩
  rcases h.conn conn hconn with ⟨hlt, hbelongs⟩ | ⟨hlast, hruled, hsame, hnone, hheld⟩
  · left
    rw [hversion]
    refine ⟨hlt, ?_⟩
    intro config hk
    have hb := hbelongs config hk
    refine ⟨hrules.trans hb.rules, ?_, ?_⟩
    · intro accepting target hlistener hread
      rcases htarget accepting target hlistener hread with
        ⟨hbefore, hhad⟩ | ⟨hcell, hchanged, hclosed⟩
      · exact hb.target accepting target hbefore hhad
      · exact h.cells conn.version config accepting target hk hchanged hclosed hcell
    · intro list hread
      rcases hlist list hread with hhad | ⟨rfl, hlisted, _⟩
      · exact hb.upstreams list hhad
      · exact (h.upstreams conn.version config hk hlisted).symm
  · right
    refine ⟨hversion.trans hlast, hruled, hrules.trans hsame, ?_, ?_⟩
    · cases hread : conn'.list with
      | none => rfl
      | some list =>
          rcases hlist list hread with hhad | ⟨_, _, hlt⟩
          · rw [hnone] at hhad
            cases hhad
          · omega
    · intro accepting target hlistener hread
      rcases htarget accepting target hlistener hread with
        ⟨hbefore, hhad⟩ | ⟨hcell, _, hclosed⟩
      · exact hheld accepting target hbefore hhad
      · apply h.held accepting target hcell
        cases hshut : s.closed accepting with
        | none => rfl
        | some n =>
            have hle := h.closed accepting n hshut
            have hlt := hclosed n hshut
            omega

theorem Inv.load (h : s.Inv) (hsettled : settled s .load = true)
    (hstep : (system os).step s .load = some s') : s'.Inv := by
  have hload : step os s .load = some s' := hstep
  simp only [step] at hload
  split at hload
  · next accepting rules decision list version hconn =>
      obtain rfl := Option.some.inj hload
      apply h.read hconn
      · rfl
      · rfl
      · rintro accepting' target ⟨⟩ hread
        simp only [settled, hconn, Bool.and_eq_true, decide_eq_true_eq] at hsettled
        refine Or.inr ⟨hread, hsettled.1, ?_⟩
        intro n hn
        simpa [hn] using hsettled.2
      · intro list hread
        exact Or.inl hread
  · cases hload

theorem Inv.decide (h : s.Inv) {request : Proxy.Target}
    (hstep : (system os).step s (.decide request) = some s') : s'.Inv := by
  have hdecide : step os s (.decide request) = some s' := hstep
  simp only [step] at hdecide
  split at hdecide
  · next hconn =>
      obtain rfl := Option.some.inj hdecide
      apply h.read hconn
      · rfl
      · rfl
      · rintro accepting target ⟨⟩
      · intro list hread
        exact Or.inl hread
  · next hconn =>
      obtain rfl := Option.some.inj hdecide
      apply h.read hconn
      · rfl
      · rfl
      · intro accepting target hlistener hread
        exact Or.inl ⟨hlistener, hread⟩
      · intro list hread
        exact Or.inl hread
  · cases hdecide

theorem Inv.route (h : s.Inv) (hsettled : settled s .route = true)
    (hstep : (system os).step s .route = some s') : s'.Inv := by
  have hroute : step os s .route = some s' := hstep
  simp only [step] at hroute
  split at hroute
  · next hconn =>
      obtain rfl := Option.some.inj hroute
      apply h.read hconn
      · rfl
      · rfl
      · intro accepting target hlistener hread
        exact Or.inl ⟨hlistener, hread⟩
      · rintro list ⟨⟩
        simp only [settled, hconn, Bool.and_eq_true, decide_eq_true_eq] at hsettled
        exact Or.inr ⟨rfl, hsettled⟩
  · cases hroute

/-- Every step of the state task, and every reading of the connection that is
settled, keeps the invariant. -/
theorem Inv.step {event : Event} (h : s.Inv) (hsettled : settled s event = true)
    (hstep : (system os).step s event = some s') : s'.Inv := by
  have htaken : Overlap.step os s event = some s' := hstep
  cases event with
  | begin staged =>
      simp only [Overlap.step] at htaken
      split at htaken
      · next hcommit =>
          have hconfig := config_move os s.daemon staged.listen
          cases hmove : s.daemon.move os staged.listen with
          | mk result daemon =>
              rw [hmove] at hconfig
              cases result with
              | error failure =>
                  simp only [hmove, Option.some.injEq] at htaken
                  rw [← htaken]
                  exact h.frame hconfig Iff.rfl
              | ok _ =>
                  simp only [hmove, Option.some.injEq] at htaken
                  rw [← htaken]
                  apply h.frame hconfig
                  simp [hcommit]
      · cases htaken
  | forwards =>
      simp only [Overlap.step] at htaken
      split at htaken
      · next staged hcommit =>
          cases hrebind : s.daemon.rebindForwards os staged.forwards with
          | mk result daemon =>
              obtain ⟨hrules, hupstreams, hrefused⟩ := config_rebindForwards hrebind
              cases result with
              | error failure =>
                  simp only [hrebind, Option.some.injEq] at htaken
                  rw [← htaken]
                  apply h.frame (hrefused failure rfl)
                  simp [hcommit]
              | ok _ =>
                  simp only [hrebind, Option.some.injEq] at htaken
                  rw [← htaken]
                  exact h.repoint (by simp [hcommit]) hrules hupstreams
      · cases htaken
  | rules =>
      simp only [Overlap.step] at htaken
      split at htaken
      · next staged hcommit =>
          obtain rfl := Option.some.inj htaken
          exact h.rules_published (by simp [hcommit])
      · cases htaken
  | list now =>
      simp only [Overlap.step] at htaken
      split at htaken
      · next staged hcommit =>
          obtain rfl := Option.some.inj htaken
          exact h.list_published
      · cases htaken
  | accept listener =>
      simp only [Overlap.step] at htaken
      split at htaken
      · obtain rfl := Option.some.inj htaken
        exact h.accept
      · cases htaken
  | load => exact h.load hsettled hstep
  | decide request => exact h.decide hstep
  | route => exact h.route hsettled hstep

end inv

/-- **A connection belongs to one committed configuration**, in every run each of
whose readings is settled: once the connection has been dialled, and in any case
once no commit is half way. -/
theorem snapshot_consistent {os : Os} {state : DaemonState} {events : List Event} {s : Overlap}
    (hrun : (system os).run (start state) events = some s)
    (hsettled : ∀ s event s', (system os).Takes (start state) events s event s' →
      settled s event = true) {conn : Conn} (hconn : s.conn = some conn)
    (hwhole : s.commit = .idle ∨ conn.list.isSome) :
    ∃ config ∈ s.configs, conn.Belongs config := by
  have hinv : s.Inv := System.invariant_along (I := Inv)
    (C := fun s event => settled s event = true) (inv_start state)
    (fun _ _ _ hI hC hstep => hI.step hC hstep) hrun hsettled
  rcases hinv.conn conn hconn with ⟨hlt, hbelongs⟩ | ⟨_, ⟨staged, hruled⟩, _, hnone, _⟩
  · have hget := List.getElem?_eq_getElem hlt
    exact ⟨s.configs[conn.version], List.getElem_mem hlt, hbelongs _ hget⟩
  · rcases hwhole with hidle | hread
    · rw [hruled] at hidle
      cases hidle
    · rw [hnone] at hread
      cases hread

/-- **The steps of a commit that goes through are what the state task does** when
it commits a run. -/
theorem run_commit {os : Os} {s : Overlap} {staged : Staging} {now : ℤ} {after : DaemonState}
    (hidle : s.commit = .idle) (hcommit : s.daemon.commit os now staged = (.ok (), after)) :
    ((system os).run s [.begin staged, .forwards, .rules, .list now]).map
      (fun s' => (s'.daemon, s'.commit, s'.configs)) =
    some (after, .idle, s.configs ++ [after.config]) := by
  rw [DaemonState.commit_eq] at hcommit
  cases hmove : s.daemon.move os staged.listen with
  | mk result moved =>
      rw [hmove] at hcommit
      cases result with
      | error failure => cases hcommit
      | ok _ =>
          simp only at hcommit
          cases hrebind : moved.rebindForwards os staged.forwards with
          | mk result forwarded =>
              rw [hrebind] at hcommit
              cases result with
              | error failure => cases hcommit
              | ok _ =>
                  obtain ⟨-, rfl⟩ := Prod.mk.inj hcommit
                  simp only [System.run_cons, System.run_nil, system, step, hidle, hmove,
                    Option.bind_some, hrebind, repoint]
                  rfl

end system

/-! ### A connection over two configurations

The first configuration sends port 443 through one upstream, the second sends
nothing anywhere but names another upstream. A client connects under the first and
sends its request once the second is committed. -/

def requiringA : Staging :=
  ⟨⟨[⟨⟨0⟩, .require, .port 443, ⟨"443"⟩⟩], rfl⟩, some listA, none, .empty, none⟩

def directB : Staging := ⟨.empty, some listB, none, .empty, none⟩

def slowClient : List Event :=
  [.begin requiringA, .forwards, .rules, .list 0, .accept .protocol,
    .begin directB, .forwards, .rules, .list 1, .decide ⟨⟨"example.com"⟩, 443⟩, .route]

def promptClient : List Event :=
  [.begin requiringA, .forwards, .rules, .list 0, .accept .protocol,
    .decide ⟨⟨"example.com"⟩, 443⟩, .route, .begin directB, .forwards, .rules, .list 1]

/-- Dialled before the second configuration is committed, the connection belongs to
the first. -/
theorem snapshot_consistent_promptClient : ∃ s conn,
    (@system External.ascii DaemonState.willing).run (start DaemonState.fresh) promptClient =
      some s ∧ s.conn = some conn ∧ conn.list.isSome ∧
    ∃ config ∈ s.configs, conn.Belongs config := by
  have hseen : ((@system External.ascii DaemonState.willing).run (start DaemonState.fresh)
      promptClient).map (fun s => s.conn.map fun conn => conn.list.isSome) =
        some (some true) := by
    decide +kernel
  have hevery : (@system External.ascii DaemonState.willing).every settled
      (start DaemonState.fresh) promptClient = true := by
    decide +kernel
  obtain ⟨s, hrun, hs⟩ := Option.map_eq_some_iff.mp hseen
  obtain ⟨conn, hconn, hlist⟩ := Option.map_eq_some_iff.mp hs
  refine ⟨s, conn, hrun, hconn, hlist, ?_⟩
  exact @snapshot_consistent External.ascii DaemonState.willing DaemonState.fresh promptClient s
    hrun (fun _ _ _ htakes => htakes.of_every hevery) conn hconn (Or.inr hlist)

/-- Dialled after it, the connection is decided by the rules of the first
configuration and dialled through the upstreams of the second. -/
theorem snapshot_not_consistent :
    ¬∀ (_ : External) (os : Os) (state : DaemonState) (events : List Event) (s : Overlap)
      (conn : Conn), DaemonState.Started os state →
      (system os).run (start state) events = some s → s.conn = some conn →
      s.commit = .idle ∨ conn.list.isSome → ∃ config ∈ s.configs, conn.Belongs config := by
  intro hconsistent
  have hseen : ((@system External.ascii DaemonState.willing).run (start DaemonState.fresh)
      slowClient).map (fun s => s.conn.map fun conn => (conn.list.isSome,
        s.configs.any fun config => decide (conn.rules = config.rules) &&
          conn.list.all fun list =>
            decide (list.val.entries.map UpstreamEntry.upstream = config.upstreams))) =
        some (some (true, false)) := by
    decide +kernel
  obtain ⟨s, hrun, hs⟩ := Option.map_eq_some_iff.mp hseen
  obtain ⟨conn, hconn, hread⟩ := Option.map_eq_some_iff.mp hs
  simp only [Prod.mk.injEq] at hread
  obtain ⟨hlist, hnone⟩ := hread
  obtain ⟨config, hmem, hbelongs⟩ := hconsistent External.ascii DaemonState.willing
    DaemonState.fresh slowClient s conn (DaemonState.started_fresh rfl rfl) hrun hconn (Or.inr hlist)
  obtain ⟨list, hlist⟩ := Option.isSome_iff_exists.mp hlist
  rw [List.any_eq_false] at hnone
  apply hnone config hmem
  simp [hbelongs.rules, hlist, hbelongs.upstreams list hlist]

end Overlap

end Nhop.Daemon
