import Nhop.Daemon.Atomicity
import Nhop.Daemon.Ledger

/-!
A commit that is given every address it asks for.

The operating system opens a listener at the address asked for, or at a free one
of its choice when the port asked for is zero, and never at an address another
listener holds. On such an operating system a commit goes through, and the
listeners it leaves are the ones the run asked for, one for each.
-/

namespace Nhop.Daemon

open Foundation Ipc Rules Proxy Upstream

/-- A listener is opened at the address asked for unless its port is left open. -/
def Os.Honest (os : Os) : Prop :=
  ∀ n addr got, os.bind n addr = .ok got → addr.port ≠ 0 → got = addr

/-- Whether every attempt from the `n`-th on is granted, in order, at an address
that is not among those `held`. -/
def Os.opens (os : Os) : ℕ → List SocketAddr → List SocketAddr → Bool
  | _, _, [] => true
  | n, held, addr :: addrs =>
      match os.bind n addr with
      | .error _ => false
      | .ok got => decide (got ∉ held) && os.opens (n + 1) (got :: held) addrs

/-- The address a listener got is the one asked for, or one the operating system
chose. -/
def Os.Answers (os : Os) (wanted got : SocketAddr) : Prop :=
  got = wanted ∨ (wanted.port = 0 ∧ ∃ n, os.bind n wanted = .ok got)

/-- A forward that is open as it was declared. -/
def Os.Opened (os : Os) (declared opened : Forward) : Prop :=
  opened.target = declared.target ∧ os.Answers declared.listen opened.listen

/-- The addresses the forward listeners hold. -/
def Frontends.forwarding (frontends : Frontends) : List SocketAddr :=
  match frontends with
  | .unbound => []
  | .bound listeners => listeners.forwards.map fun forwarding => forwarding.accepting.addr

/-- Whether a commit is given every address it asks for. -/
def Os.obliges (os : Os) (calls : ℕ) (frontends : Frontends) (staged : Staging) : Bool :=
  os.grants calls (frontends.toMove staged.listen) &&
    os.opens (calls + (frontends.toMove staged.listen).length) frontends.forwarding
      (frontends.toForward staged.forwards)

section opens

variable {os : Os} {calls : ℕ} {held : List SocketAddr}

theorem Os.grants_of_opens {addrs : List SocketAddr} (h : os.opens calls held addrs = true) :
    os.grants calls addrs = true := by
  induction addrs generalizing calls held with
  | nil => rfl
  | cons addr addrs ih =>
      unfold Os.opens at h
      cases hbind : os.bind calls addr with
      | error failure => simp [hbind] at h
      | ok got =>
          simp only [hbind, Bool.and_eq_true] at h
          rw [Os.grants, ih h.2, hbind]
          rfl

theorem Os.Honest.answers (hos : os.Honest) {n : ℕ} {wanted got : SocketAddr}
    (h : os.bind n wanted = .ok got) : os.Answers wanted got := by
  by_cases hport : wanted.port = 0
  · exact Or.inr ⟨hport, n, h⟩
  · exact Or.inl (hos n wanted got h hport)

theorem Os.Honest.moves (hos : os.Honest) {calls' : ℕ} {wanted : SocketAddr}
    {before after : Accepting} (h : Moves os calls calls' wanted before after) :
    os.Answers wanted after.addr := by
  rcases h with ⟨hheld, rfl⟩ | ⟨_, call, addr, _, _, hbind, rfl⟩
  · exact Or.inl hheld.symm
  · exact hos.answers hbind

/-- The listeners opened for forwards are the ones asked for, at addresses of their
own. -/
theorem Os.Honest.opens (hos : os.Honest) {wanted : List Forward} {fresh : List Forwarding}
    (hopens : Opens os calls wanted fresh)
    (h : os.opens calls held (wanted.map Forward.listen) = true) :
    Multiset.Rel os.Opened ↑wanted ↑(fresh.map Forwarding.forward) ∧
      (fresh.map fun forwarding => forwarding.accepting.addr).Nodup ∧
      ∀ forwarding ∈ fresh, forwarding.accepting.addr ∉ held := by
  induction wanted generalizing calls held fresh with
  | nil =>
      obtain rfl : fresh = [] := hopens
      exact ⟨Multiset.Rel.zero, List.nodup_nil, by simp⟩
  | cons forward rest ih =>
      obtain ⟨got, more, hbind, rfl, hmore⟩ := hopens
      simp only [List.map_cons, Os.opens, hbind, Bool.and_eq_true, decide_eq_true_eq] at h
      obtain ⟨hrel, hnodup, hout⟩ := ih hmore h.2
      refine ⟨Multiset.Rel.cons ⟨rfl, hos.answers hbind⟩ hrel, ?_, ?_⟩
      · rw [List.map_cons, List.nodup_cons]
        refine ⟨?_, hnodup⟩
        intro hmem
        obtain ⟨forwarding, hmem, hsame⟩ := List.mem_map.mp hmem
        exact hout forwarding hmem (by rw [hsame]; exact List.mem_cons_self ..)
      · intro forwarding hmem
        rcases List.mem_cons.mp hmem with rfl | hmem
        · exact h.1
        · intro hheld
          exact hout forwarding hmem (List.mem_cons_of_mem _ hheld)

end opens

/-! ### The forwards held -/

section forwardsHeld

variable {forwardings : List Forwarding}

/-- Two listeners at one address route alike. -/
def Agreeing (forwards : List Forward) : Prop :=
  ∀ a ∈ forwards, ∀ b ∈ forwards, a.listen = b.listen → a = b

/-- Pushing forwards that agree on their addresses adds them all. -/
theorem mem_pushEach {start : Forwards}
    (h : Agreeing (start.forwards ++ forwardings.map Forwarding.forward)) {forward : Forward} :
    forward ∈ (forwardings.foldl (fun forwards forwarding =>
        match forwards.push forwarding.forward with
        | .ok forwards => forwards
        | .error _ => forwards) start).forwards ↔
      forward ∈ start.forwards ++ forwardings.map Forwarding.forward := by
  induction forwardings generalizing start with
  | nil => simp
  | cons forwarding rest ih =>
      rw [List.foldl_cons]
      cases hpush : start.push forwarding.forward with
      | ok pushed =>
          have hpushed := (Forwards.push_eq_ok.mp hpush).2
          have hsame : pushed.forwards ++ rest.map Forwarding.forward =
              start.forwards ++ (forwarding :: rest).map Forwarding.forward := by
            rw [hpushed, List.map_cons, List.append_assoc, List.singleton_append]
          rw [← hsame] at h ⊢
          exact ih h
      | error failure =>
          obtain ⟨earlier, hearlier, hlisten⟩ :=
            List.mem_map.mp (Forwards.push_eq_error.mp hpush).1
          have hsame : earlier = forwarding.forward :=
            h earlier (List.mem_append_left _ hearlier) _
              (List.mem_append_right _ (List.mem_cons_self ..)) hlisten
          have hrest : Agreeing (start.forwards ++ rest.map Forwarding.forward) := by
            intro a ha b hb
            apply h a _ b
            · simp only [List.map_cons, List.mem_append, List.mem_cons] at hb ⊢
              tauto
            · simp only [List.map_cons, List.mem_append, List.mem_cons] at ha ⊢
              tauto
          rw [ih hrest]
          simp only [List.map_cons, List.mem_append, List.mem_cons]
          constructor
          · tauto
          · rintro (hmem | rfl | hmem)
            · exact Or.inl hmem
            · exact Or.inl (hsame ▸ hearlier)
            · exact Or.inr hmem

theorem Bound.mem_forwardsHeld {bound : Bound}
    (h : Agreeing (bound.forwards.map Forwarding.forward)) {forward : Forward} :
    forward ∈ bound.forwardsHeld.forwards ↔ forward ∈ bound.forwards.map Forwarding.forward := by
  have hall : Agreeing (Forwards.empty.forwards ++ bound.forwards.map Forwarding.forward) := by
    simpa using h
  exact (mem_pushEach hall).trans (by simp)

/-- The held forwards that stay wanted, as they are wanted. -/
theorem Bound.mem_retained {bound : Bound} {wanted : Forwards} {forward : Forward} :
    forward ∈ (bound.retained wanted).map Forwarding.forward ↔
      forward ∈ wanted.forwards ∧ bound.held forward.listen = true := by
  simp only [Bound.retained, List.map_map, List.mem_map, List.mem_filter, Function.comp_apply,
    Bound.held, List.any_eq_true, beq_iff_eq]
  constructor
  · rintro ⟨forwarding, ⟨hmem, hwanted⟩, rfl⟩
    obtain ⟨target, htarget⟩ := Option.isSome_iff_exists.mp hwanted
    simp only [htarget]
    exact ⟨Forwards.targetOf_eq_some.mp htarget, forwarding, hmem, rfl⟩
  · rintro ⟨hwanted, forwarding, hmem, hlisten⟩
    have htarget : wanted.targetOf forwarding.accepting.addr = some forward.target := by
      rw [Forwards.targetOf_eq_some, hlisten]
      exact hwanted
    refine ⟨forwarding, ⟨hmem, by rw [htarget]; rfl⟩, ?_⟩
    rw [htarget]
    simp [Forwarding.forward, hlisten]

/-- The forwards that stay open and the ones that are opened for the rest. -/
def Bound.reopened (bound : Bound) (wanted : Forwards) (fresh : List Forwarding) : List Forward :=
  (wanted.forwards.filter fun forward => bound.held forward.listen) ++
    fresh.map Forwarding.forward

theorem Bound.mem_reopened {bound : Bound} {wanted : Forwards} {fresh : List Forwarding}
    {forward : Forward} : forward ∈ bound.reopened wanted fresh ↔
      forward ∈ (bound.retained wanted ++ fresh).map Forwarding.forward := by
  rw [Bound.reopened, List.map_append, List.mem_append, List.mem_append, Bound.mem_retained,
    List.mem_filter]

section replaced

variable {os : Os} {calls : ℕ} {bound : Bound} {wanted : Forwards} {fresh : List Forwarding}
variable (hos : os.Honest) (hopens : Opens os calls (bound.missing wanted.forwards) fresh)
variable (hgiven : os.opens calls (bound.forwards.map fun forwarding => forwarding.accepting.addr)
  (bound.toForward wanted) = true)
include hos hopens hgiven

/-- One listener for each address: the held ones are distinct, and the new ones
are not held. -/
theorem Bound.nodup_reopened : ((bound.reopened wanted fresh).map Forward.listen).Nodup := by
  rw [Bound.toForward_eq] at hgiven
  obtain ⟨_, hnodup, hout⟩ := hos.opens hopens hgiven
  rw [Bound.reopened, List.map_append, List.nodup_append]
  refine ⟨(List.filter_sublist.map _).nodup wanted.distinct, ?_, ?_⟩
  · simpa [Function.comp_def, Forwarding.forward] using hnodup
  · intro a ha b hb hab
    subst hab
    obtain ⟨forward, hforward, rfl⟩ := List.mem_map.mp ha
    obtain ⟨_, hnew, hlisten⟩ := List.mem_map.mp hb
    obtain ⟨forwarding, hfresh, rfl⟩ := List.mem_map.mp hnew
    have htaken := (List.mem_filter.mp hforward).2
    simp only [Bound.held, List.any_eq_true, beq_iff_eq] at htaken
    obtain ⟨taken, hmem, htaken⟩ := htaken
    exact hout forwarding hfresh (List.mem_map.mpr ⟨taken, hmem, htaken.trans hlisten.symm⟩)

theorem Bound.agreeing_replaced :
    Agreeing ((bound.retained wanted ++ fresh).map Forwarding.forward) := by
  intro a ha b hb hlisten
  have hdistinct := Bound.nodup_reopened hos hopens hgiven
  exact List.inj_on_of_nodup_map hdistinct (Bound.mem_reopened.mpr ha)
    (Bound.mem_reopened.mpr hb) hlisten

/-- **The forwards a replacement leaves** are the ones wanted, one for each. -/
theorem Bound.forwardsHeld_rel :
    Multiset.Rel os.Opened ↑wanted.forwards
      ↑{ bound with forwards := bound.retained wanted ++ fresh }.forwardsHeld.forwards := by
  have hdistinct := Bound.nodup_reopened hos hopens hgiven
  have hagree := Bound.agreeing_replaced hos hopens hgiven
  rw [Bound.toForward_eq] at hgiven
  obtain ⟨hrel, _⟩ := hos.opens hopens hgiven
  have hwanted : (wanted.forwards : Multiset Forward) =
      ↑(wanted.forwards.filter fun forward => bound.held forward.listen) +
        ↑(bound.missing wanted.forwards) :=
    Multiset.coe_eq_coe.mpr (List.filter_append_perm _ _).symm
  have hperm : (bound.reopened wanted fresh).Perm
      { bound with forwards := bound.retained wanted ++ fresh }.forwardsHeld.forwards := by
    rw [List.perm_ext_iff_of_nodup (hdistinct.of_map _) (Forwards.distinct _ |>.of_map _)]
    intro forward
    rw [Bound.mem_reopened, Bound.mem_forwardsHeld hagree]
  rw [hwanted, ← Multiset.coe_eq_coe.mpr hperm, Bound.reopened, ← Multiset.coe_add]
  apply Multiset.Rel.add _ hrel
  exact Multiset.rel_refl_of_refl_on fun forward _ => ⟨rfl, Or.inl rfl⟩

end replaced

end forwardsHeld

/-! ### What a commit leaves -/

namespace DaemonState

/-- What serves after a run that accepted these commands: the rules since they
were last cleared, the upstreams named last or else those there were, the
addresses asked for last or else those there were, and the forwards declared. The
listeners that serve are at the recorded addresses and for the recorded forwards. -/
structure Folded [External] (os : Os) (accepted : List Command) (before after : DaemonState) :
    Prop where
  rules : Ledger.declaring (Ledger.rules accepted) = .ok after.rules
  upstream_kept : Ledger.upstreams accepted = none → after.upstream = before.upstream
  upstream : ∀ addr fallbacks, Ledger.upstreams accepted = some (addr, fallbacks) →
    ∃ list, Upstreams.parse addr fallbacks = .ok list ∧
      after.upstream.val.entries.map UpstreamEntry.upstream = list.entries
  listen_kept : Ledger.listen accepted = none → after.listen = before.listen
  listen : ∀ wanted, Ledger.listen accepted = some wanted →
    os.Answers wanted.http after.listen.http ∧ os.Answers wanted.socks after.listen.socks
  forwards : Multiset.Rel os.Opened ↑(Ledger.forwards accepted) ↑after.forwards.forwards
  unbound : after.frontends = .unbound ↔ before.frontends = .unbound
  bound : ∀ bound, after.frontends = .bound bound → bound.listen = after.listen ∧
    ∀ forward, forward ∈ bound.forwards.map Forwarding.forward ↔
      forward ∈ after.forwards.forwards

section folded

variable {os : Os} {state moved forwarded : DaemonState} {staged : Staging} {now : ℤ}

theorem Moved.answers (hos : os.Honest) {wanted : Listen}
    (h : Moved os (some wanted) state moved) :
    os.Answers wanted.http moved.listen.http ∧ os.Answers wanted.socks moved.listen.socks := by
  cases hfrontends : state.frontends with
  | unbound =>
      rw [(h.unbound hfrontends).2 wanted rfl]
      exact ⟨Or.inl rfl, Or.inl rfl⟩
  | bound bound =>
      obtain ⟨moved', _, hlisten, _, hhttp, hsocks⟩ := h.bound bound hfrontends wanted rfl
      rw [hlisten]
      exact ⟨hos.moves hhttp, hos.moves hsocks⟩

theorem Moved.forwarding {listen : Option Listen} (h : Moved os listen state moved) :
    moved.frontends.forwarding = state.frontends.forwarding := by
  cases listen with
  | none => rw [h.kept rfl]
  | some listen =>
      cases hfrontends : state.frontends with
      | unbound => rw [(h.unbound hfrontends).1]
      | bound bound =>
          obtain ⟨moved', hmoved, _, hsame, _⟩ := h.bound bound hfrontends listen rfl
          rw [hmoved]
          simp only [Frontends.forwarding, hsame]

theorem Forwarded.rel (hos : os.Honest) {wanted : Forwards}
    (h : Forwarded os wanted state forwarded)
    (hopens : os.opens state.calls state.frontends.forwarding
      (state.frontends.toForward wanted) = true) :
    Multiset.Rel os.Opened ↑wanted.forwards ↑forwarded.forwards.forwards := by
  cases hfrontends : state.frontends with
  | unbound =>
      rw [(h.unbound hfrontends).2]
      exact Multiset.rel_refl_of_refl_on fun forward _ => ⟨rfl, Or.inl rfl⟩
  | bound bound =>
      obtain ⟨fresh, _, hforwards, hfresh⟩ := h.bound bound hfrontends
      rw [hfrontends] at hopens
      rw [hforwards]
      exact Bound.forwardsHeld_rel hos hfresh hopens

theorem Moved.unbound_iff {listen : Option Listen} (h : Moved os listen state moved) :
    moved.frontends = .unbound ↔ state.frontends = .unbound := by
  cases listen with
  | none => rw [h.kept rfl]
  | some listen =>
      cases hfrontends : state.frontends with
      | unbound => simp [(h.unbound hfrontends).1]
      | bound bound =>
          obtain ⟨moved', hmoved, _⟩ := h.bound bound hfrontends listen rfl
          simp [hmoved]

theorem Forwarded.unbound_iff {wanted : Forwards} (h : Forwarded os wanted state forwarded) :
    forwarded.frontends = .unbound ↔ state.frontends = .unbound := by
  cases hfrontends : state.frontends with
  | unbound => simp [(h.unbound hfrontends).1]
  | bound bound =>
      obtain ⟨fresh, hbound, _⟩ := h.bound bound hfrontends
      simp [hbound]

theorem Forwarded.serves (hos : os.Honest) {wanted : Forwards}
    (h : Forwarded os wanted state forwarded)
    (hopens : os.opens state.calls state.frontends.forwarding
      (state.frontends.toForward wanted) = true) {bound : Bound}
    (hbound : forwarded.frontends = .bound bound) {forward : Forward} :
    forward ∈ bound.forwards.map Forwarding.forward ↔ forward ∈ forwarded.forwards.forwards := by
  cases hfrontends : state.frontends with
  | unbound => simp [(h.unbound hfrontends).1] at hbound
  | bound before =>
      obtain ⟨fresh, hafter, hforwards, hfresh⟩ := h.bound before hfrontends
      rw [hfrontends] at hopens
      rw [hafter] at hbound
      obtain rfl := (Frontends.bound.inj hbound).symm
      rw [hforwards, Bound.mem_forwardsHeld (Bound.agreeing_replaced hos hfresh hopens)]

theorem upstream_publish {rules : Ruleset} :
    (state.publish now rules none).upstream = state.upstream ∧
      ∀ list, (state.publish now rules (some list)).upstream.val.entries.map
        UpstreamEntry.upstream = list.entries :=
  ⟨rfl, fun _ => UpstreamEntries.upstreams_adopted⟩

/-- **A commit that is given every address it asks for** goes through, and what
serves then is the fold of the commands the run accepted. -/
theorem commit_folded [External] (hos : os.Honest) {taken : List Taken}
    (hconsistent : state.Consistent) (hrecords : staged.Records taken)
    (h : os.obliges state.calls state.frontends staged = true) :
    ∃ after, state.commit os now staged = (.ok (), after) ∧
      Folded os (Ledger.accepted taken) state after := by
  unfold Os.obliges at h
  rw [Bool.and_eq_true] at h
  have hbind : os.grants state.calls (state.frontends.toBind staged) = true := by
    rw [Frontends.toBind, Os.grants_append, h.1, Os.grants_of_opens h.2, Bool.and_self]
  obtain ⟨moved, forwarded, hmoved, hforwarded, hcommit⟩ := commit_granted now hbind
  refine ⟨_, hcommit, ?_⟩
  have hrules : (forwarded.publish now staged.rules staged.upstream).rules = staged.rules := by
    cases staged.upstream <;> rfl
  have hlisten : (forwarded.publish now staged.rules staged.upstream).listen = moved.listen := by
    have hsame : forwarded.listen = moved.listen := by rw [hforwarded.frame]; rfl
    rw [← hsame]
    cases staged.upstream <;> rfl
  have hforwards : (forwarded.publish now staged.rules staged.upstream).forwards =
      forwarded.forwards := by
    cases staged.upstream <;> rfl
  have hfrontends : (forwarded.publish now staged.rules staged.upstream).frontends =
      forwarded.frontends := by
    cases staged.upstream <;> rfl
  have hopens : os.opens moved.calls moved.frontends.forwarding
      (moved.frontends.toForward staged.forwards) = true := by
    rw [hmoved.calls, hmoved.forwarding, hmoved.toForward]
    exact h.2
  have hupstream : forwarded.upstream = state.upstream := by
    rw [hforwarded.frame, hmoved.frame]
  have hparsed := hrecords.upstream
  refine ⟨?_, ?_, ?_, ?_, ?_, ?_, ?_, ?_⟩
  · rw [hrules]
    exact hrecords.rules
  · intro hnone
    rw [hnone] at hparsed
    have hkept : staged.upstream = none := by simpa using hparsed.symm
    rw [hkept, upstream_publish.1, hupstream]
  · intro addr fallbacks hsome
    rw [hsome] at hparsed
    obtain ⟨list, hlist, hok⟩ := Option.map_eq_some_iff.mp hparsed.symm
    exact ⟨list, hok.symm, by rw [hlist, upstream_publish.2]⟩
  · intro hnone
    rw [hlisten, hmoved.kept (hrecords.listen.trans hnone)]
  · intro wanted hwanted
    rw [hrecords.listen, hwanted] at hmoved
    rw [hlisten]
    exact hmoved.answers hos
  · rw [hforwards, ← hrecords.forwards]
    exact hforwarded.rel hos hopens
  · rw [hfrontends, hforwarded.unbound_iff, hmoved.unbound_iff]
  · intro bound hbound
    have hafter : (state.commit os now staged).2.Consistent := hconsistent.commit
    rw [hcommit] at hafter
    refine ⟨(hafter.listen bound hbound).symm, ?_⟩
    intro forward
    rw [hforwards]
    exact hforwarded.serves hos hopens (hfrontends ▸ hbound)

end folded

end DaemonState

end Nhop.Daemon
