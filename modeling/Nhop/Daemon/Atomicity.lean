import Nhop.Daemon.Commit

/-!
Whether a load that was not committed leaves a trace.

While a run is in flight nothing that serves traffic changes, so all there is to
look at is the step that ends it. Everything that can stop a run there, from a
rejected command to a front end that cannot be moved, leaves no trace but one: a
forward that cannot be opened after the front ends have moved.
-/

namespace Nhop.Daemon

open Foundation Ipc Rules Proxy Upstream Cli

namespace DaemonState

variable {os : Os}

/-! ### The records agree with the listeners -/

section consistent

variable {moment : Moment} {state : DaemonState} {command : Command} {reply : ℕ}
variable {outcome : ScriptOutcome}

theorem frontends_of_bind {listen : Listen} {frontends : Frontends} {calls : ℕ}
    (h : Frontends.bind os listen = (.ok frontends, calls)) :
    ∃ http socks, frontends = .bound ⟨⟨http, 0⟩, ⟨socks, 1⟩, []⟩ ∧ calls = 2 := by
  unfold Frontends.bind bindTcp at h
  cases hhttp : os.bind 0 listen.http with
  | error failure => simp [hhttp] at h
  | ok http =>
      cases hsocks : os.bind 1 listen.socks with
      | error failure => simp [hhttp, hsocks] at h
      | ok socks =>
          simp only [hhttp, hsocks, Nat.zero_add, Prod.mk.injEq, Except.ok.injEq] at h
          exact ⟨http, socks, h.1.symm, h.2.symm⟩

theorem consistent_of_started (h : Started os state) : state.Consistent := by
  obtain ⟨initFile, listen, loadTimeout, hold, now, rfl | h⟩ := h
  · exact consistent_unbound rfl
  · unfold spawn at h
    cases hbind : Frontends.bind os listen with
    | mk result calls =>
        cases result with
        | error failure => simp [hbind] at h
        | ok frontends =>
            obtain ⟨http, socks, rfl, rfl⟩ := frontends_of_bind hbind
            simp only [hbind, Except.ok.injEq] at h
            subst h
            refine ⟨?_, ?_, ?_⟩ <;> rintro _ ⟨⟩
            · rfl
            · rfl
            · exact ⟨Nat.zero_lt_two, Nat.one_lt_two⟩

theorem Consistent.commit {now : ℤ} {staged : Staging} (h : state.Consistent) :
    (state.commit os now staged).2.Consistent := by
  have hmove : (state.move os staged.listen).2.Consistent := by
    cases staged.listen with
    | none => exact h
    | some listen => exact h.rebind
  rw [commit_eq]
  cases hmoved : state.move os staged.listen with
  | mk result moved =>
      rw [hmoved] at hmove
      cases result with
      | error failure => exact hmove
      | ok _ =>
          have hforward : (moved.rebindForwards os staged.forwards).2.Consistent :=
            Consistent.rebindForwards hmove
          simp only
          cases hforwarded : moved.rebindForwards os staged.forwards with
          | mk result forwarded =>
              rw [hforwarded] at hforward
              cases result with
              | error failure => exact hforward
              | ok _ => exact Consistent.publish hforward

theorem Consistent.finish (h : state.Consistent) :
    (state.finish os moment outcome).2.Consistent := by
  cases hload : state.load with
  | none =>
      simp only [DaemonState.finish, hload]
      exact h
  | some load =>
      have hclosed : ({ state with load := none } : DaemonState).Consistent :=
        h.frame rfl rfl rfl (Nat.le_refl _)
      by_cases hviable : Viable load outcome
      · obtain ⟨view, hview, _⟩ := finish_viable os moment hload hviable
        rw [hview]
        exact (hclosed.commit).frame rfl rfl rfl (Nat.le_refl _)
      · obtain ⟨view, _, hview⟩ := finish_discarded os moment hload hviable
        rw [hview]
        exact h.frame rfl rfl rfl (Nat.le_refl _)

variable [External]

theorem Consistent.handle (h : state.Consistent) :
    (state.handle os moment command reply).2.Consistent := by
  cases hload : state.load with
  | some load =>
      obtain ⟨staged, hstaged⟩ := handle_inFlight os moment command reply hload
      rw [hstaged]
      exact h.frame rfl rfl rfl (Nat.le_refl _)
  | none =>
      rcases handle_idle os moment command reply hload with
        ⟨response, after, hafter, hanswered⟩ | ⟨script, hscript⟩
      · rw [hafter]
        rcases hanswered with rfl | ⟨rules, rfl⟩ | ⟨upstreams, rfl⟩ | ⟨listen, rfl⟩ |
          ⟨forwards, rfl⟩
        · exact h
        · exact h.frame rfl rfl rfl (Nat.le_refl _)
        · show (state.adoptUpstream moment.now (some upstreams)).Consistent
          exact Consistent.adoptUpstream h
        · exact Consistent.rebind h
        · exact Consistent.rebindForwards h
      · rw [hscript]
        exact h.frame rfl rfl rfl (Nat.le_refl _)

theorem consistent_of_reachable {start : DaemonState} (hstart : Started os start)
    (h : (task os).Reachable start state) : state.Consistent := by
  refine System.invariant (I := Consistent) (consistent_of_started hstart) ?_ h
  rintro s (⟨moment, command, reply⟩ | ⟨moment, outcome⟩) s' hs ⟨⟩
  · exact hs.handle
  · exact hs.finish

end consistent

/-! ### What serves while a run is in flight -/

section inFlight

variable [External] {begun ended : DaemonState} {events : List Event}

/-- A request, as opposed to the end of a script. -/
def Event.IsRequest (event : Event) : Prop :=
  ∃ moment command reply, event = .request moment command reply

/-- **Nothing that serves changes while a run is in flight**, whatever is asked of
the state task. -/
theorem serving_run (hload : begun.load.isSome) (hrequests : ∀ event ∈ events, event.IsRequest)
    (hrun : (task os).run begun events = some ended) :
    ended.load.isSome ∧ ended.serving = begun.serving := by
  induction events generalizing begun with
  | nil =>
      obtain rfl : begun = ended := by simpa using hrun
      exact ⟨hload, rfl⟩
  | cons event events ih =>
      obtain ⟨moment, command, reply, rfl⟩ := hrequests event (List.mem_cons_self ..)
      obtain ⟨load, hload⟩ := Option.isSome_iff_exists.mp hload
      obtain ⟨staged, hstaged⟩ := handle_inFlight os moment command reply hload
      have hrest : (task os).run (begun.handle os moment command reply).2 events = some ended :=
        hrun
      rw [hstaged] at hrest
      have hlater : ∀ event ∈ events, event.IsRequest :=
        fun event hmem => hrequests event (List.mem_cons_of_mem _ hmem)
      obtain ⟨hsome, hserving⟩ := ih rfl hlater hrest
      exact ⟨hsome, hserving⟩

end inFlight

/-! ### What a run leaves behind -/

/-- The run in flight may be committed, its commit is granted the addresses its
front ends move to, at least one of them new, and is then refused an address for
one of its forwards. -/
def HalfCommits (os : Os) (state : DaemonState) (outcome : ScriptOutcome) : Prop :=
  ∃ load bound listen, state.load = some load ∧ Viable load outcome ∧
    state.frontends = .bound bound ∧ load.staged.listen = some listen ∧ listen ≠ bound.listen ∧
    os.grants state.calls (bound.toOpen listen) = true ∧
    os.grants (state.calls + (bound.toOpen listen).length)
      (bound.toForward load.staged.forwards) = false

section leaves

variable {state : DaemonState} {load : InFlight} {moment : Moment} {outcome : ScriptOutcome}
variable {listen : Listen} {bound : Bound} {moved : DaemonState}

theorem Moved.serving_of_held (h : Moved os (some listen) state moved) (hstate : state.Consistent)
    (hbound : state.frontends = .bound bound) (hheld : listen = bound.listen) :
    moved.serving = state.serving := by
  obtain ⟨moved', hfrontends, hlisten, hsame, hhttp, hsocks⟩ := h.bound bound hbound listen rfl
  have hkept : moved' = bound := by
    obtain ⟨-, hhttp⟩ := hhttp.resolve_right fun hne => hne.1 (by rw [hheld]; rfl)
    obtain ⟨-, hsocks⟩ := hsocks.resolve_right fun hne => hne.1 (by rw [hheld]; rfl)
    cases moved'
    cases bound
    simp_all
  rw [hkept] at hfrontends hlisten
  apply Serving.ext
  · show moved.rules = state.rules
    rw [h.frame]
  · show moved.upstream = state.upstream
    rw [h.frame]
  · show moved.listen = state.listen
    rw [hlisten, hstate.listen bound hbound]
  · show moved.frontends = state.frontends
    rw [hfrontends, hbound]
  · show moved.forwards = state.forwards
    rw [h.frame]

theorem Moved.serving_ne (h : Moved os (some listen) state moved) (hstate : state.Consistent)
    (hbound : state.frontends = .bound bound) (hnew : listen ≠ bound.listen) :
    moved.serving ≠ state.serving := by
  obtain ⟨moved', hfrontends, _, _, hhttp, hsocks⟩ := h.bound bound hbound listen rfl
  obtain ⟨hopened, hopened'⟩ := hstate.opened bound hbound
  intro hsame
  have hlisteners : moved' = bound := by
    have hfrontends' := congrArg Serving.frontends hsame
    simpa [serving, hfrontends, hbound] using hfrontends'
  subst hlisteners
  -- a front end that moved was opened by an attempt of this move, so it is not the one held
  rcases hhttp with ⟨hhttp, _⟩ | ⟨_, call, addr, hfirst, _, _, hnew'⟩
  · rcases hsocks with ⟨hsocks, _⟩ | ⟨_, call, addr, hfirst, _, _, hnew'⟩
    · apply hnew
      exact Listen.ext hhttp hsocks
    · rw [hnew'] at hopened'
      exact absurd hopened' (not_lt.mpr hfirst)
  · rw [hnew'] at hopened
    exact absurd hopened (not_lt.mpr hfirst)

/-- A run whose commit is refused an address for its front ends, or that moved
none, leaves no trace. -/
theorem serving_of_refused (hstate : state.Consistent) (hload : state.load = some load)
    (hviable : Viable load outcome) (hhalf : ¬HalfCommits os state outcome)
    (hrefused : ({ state with load := none }.commit os moment.now load.staged).1 ≠ .ok ()) :
    ({ state with load := none }.commit os moment.now load.staged).2.serving = state.serving := by
  set closed : DaemonState := { state with load := none } with hclosed
  have hconsistent : closed.Consistent := hstate.frame rfl rfl rfl (Nat.le_refl _)
  cases hmove : os.grants closed.calls (closed.frontends.toMove load.staged.listen) with
  | false =>
      obtain ⟨failure, calls', hcommit, _⟩ := commit_refused_move moment.now hmove
      rw [hcommit]
      rfl
  | true =>
      cases hforward : os.grants
          (closed.calls + (closed.frontends.toMove load.staged.listen).length)
          (closed.frontends.toForward load.staged.forwards) with
      | true =>
          have hbind : os.grants closed.calls (closed.frontends.toBind load.staged) = true := by
            rw [Frontends.toBind, Os.grants_append, hmove, hforward, Bool.and_self]
          obtain ⟨moved, forwarded, _, _, hcommit⟩ := commit_granted moment.now hbind
          rw [hcommit] at hrefused
          exact absurd rfl hrefused
      | false =>
          obtain ⟨moved, failure, calls', hmoved, _, hcommit⟩ :=
            commit_refused_forward moment.now hmove hforward
          rw [hcommit]
          show moved.serving = closed.serving
          cases hlisten : load.staged.listen with
          | none =>
              rw [hmoved.kept hlisten]
          | some listen =>
              cases hfrontends : state.frontends with
              | unbound =>
                  simp [hclosed, hfrontends, Frontends.toForward, Os.grants] at hforward
              | bound bound =>
                  have hheld : listen = bound.listen := by
                    by_contra hnew
                    apply hhalf
                    simp only [hclosed, hlisten, hfrontends] at hmove hforward
                    exact ⟨load, bound, listen, hload, hviable, hfrontends, hlisten, hnew, hmove,
                      hforward⟩
                  rw [hlisten] at hmoved
                  exact hmoved.serving_of_held hconsistent hfrontends hheld

/-- A commit stopped halfway is not recorded as one and has changed what serves. -/
theorem serving_of_halfCommits (moment : Moment) (hstate : state.Consistent)
    (hhalf : HalfCommits os state outcome) :
    recorded (state.finish os moment outcome).2 ≠ some .ok ∧
      (state.finish os moment outcome).2.serving ≠ state.serving := by
  obtain ⟨load, bound, listen, hload, hviable, hbound, hlisten, hnew, hopen, hforward⟩ := hhalf
  set closed : DaemonState := { state with load := none } with hclosed
  have hconsistent : closed.Consistent := hstate.frame rfl rfl rfl (Nat.le_refl _)
  have hfrontends : closed.frontends = .bound bound := hbound
  have hmove : os.grants closed.calls (closed.frontends.toMove load.staged.listen) = true := by
    rw [hfrontends, hlisten]
    exact hopen
  have hrefused : os.grants (closed.calls + (closed.frontends.toMove load.staged.listen).length)
      (closed.frontends.toForward load.staged.forwards) = false := by
    rw [hfrontends, hlisten]
    exact hforward
  obtain ⟨moved, failure, calls', hmoved, _, hcommit⟩ :=
    commit_refused_forward moment.now hmove hrefused
  obtain ⟨view, hview, hok⟩ := finish_viable os moment hload hviable
  rw [hview]
  rw [hlisten] at hmoved
  refine ⟨?_, ?_⟩
  · intro hrecorded
    have hcommitted := hok.mp (by simpa [recorded] using hrecorded)
    rw [← hclosed, hcommit] at hcommitted
    cases hcommitted
  · rw [← hclosed, hcommit]
    exact hmoved.serving_ne hconsistent hfrontends hnew

/-- **The end of a run is atomic exactly when it does not commit halfway.** -/
theorem finish_atomic_iff (hstate : state.Consistent) (hload : state.load = some load) :
    (recorded (state.finish os moment outcome).2 ≠ some .ok →
      (state.finish os moment outcome).2.serving = state.serving) ↔
    ¬HalfCommits os state outcome := by
  constructor
  · intro hatomic hhalf
    obtain ⟨hrecorded, hchanged⟩ := serving_of_halfCommits moment hstate hhalf
    exact hchanged (hatomic hrecorded)
  · intro hhalf hrecorded
    by_cases hviable : Viable load outcome
    · obtain ⟨view, hview, hok⟩ := finish_viable os moment hload hviable
      rw [hview] at hrecorded ⊢
      apply serving_of_refused hstate hload hviable hhalf
      intro hcommitted
      apply hrecorded
      show some view.outcome = some .ok
      rw [hok.mpr hcommitted]
    · obtain ⟨view, _, hview⟩ := finish_discarded os moment hload hviable
      rw [hview]
      rfl

end leaves

/-- **A load that is not recorded as committed leaves no trace**, from the state it
was started in through everything asked of the daemon while it ran, exactly when
it does not commit halfway. -/
theorem load_atomic_iff [External] {os : Os} {start before begun ended : DaemonState}
    {asked finished : Moment} {command : Command} {reply : ℕ} {events : List Event}
    {outcome : ScriptOutcome} (hstart : Started os start)
    (hreach : (task os).Reachable start before)
    (hbegun : before.handle os asked command reply = (none, begun))
    (hrequests : ∀ event ∈ events, event.IsRequest)
    (hrun : (task os).run begun events = some ended) :
    (recorded (ended.finish os finished outcome).2 ≠ some .ok →
      (ended.finish os finished outcome).2.serving = before.serving) ↔
    ¬HalfCommits os ended outcome := by
  obtain ⟨hidle, script, rfl⟩ := handle_starts hbegun
  obtain ⟨hsome, hserving⟩ := serving_run rfl hrequests hrun
  obtain ⟨load, hload⟩ := Option.isSome_iff_exists.mp hsome
  have hconsistent : ended.Consistent := by
    apply consistent_of_reachable hstart
    have hstep : (task os).step before (.request asked command reply) =
        some (before.begun script reply) := by
      show some (before.handle os asked command reply).2 = _
      rw [hbegun]
    exact (hreach.snoc hstep).append hrun
  rw [show before.serving = ended.serving from hserving.symm]
  exact finish_atomic_iff hconsistent hload

/-! ### A commit stopped halfway

The daemon starts over its two front ends, which takes the first two attempts to
bind an address. A run moves both and declares a forward: the next two attempts
are for the front ends, the one after them for the forward. -/

def elsewhere : Listen := ⟨.v4 0x7f000001#32 8890, .v4 0x7f000001#32 8891⟩

def declared : Forward := ⟨.v4 0x7f000001#32 9000, ⟨⟨"example.com"⟩, 443⟩⟩

/-- A run that moves both front ends and declares a forward. -/
def movesAndForwards : List Event :=
  [.request anyMoment (.setListen elsewhere.http elsewhere.socks (some ⟨1⟩)) 0,
    .request anyMoment
      (.addForward declared.listen declared.target.host declared.target.port (some ⟨1⟩)) 0]

/-- What it has built. -/
def movedAndForwarded : Staging :=
  ⟨.empty, none, some elsewhere, ⟨[declared], by decide⟩, none⟩

theorem requests_movesAndForwards : ∀ event ∈ movesAndForwards, event.IsRequest := by
  intro event hmem
  simp only [movesAndForwards, List.mem_cons, List.not_mem_nil, or_false] at hmem
  rcases hmem with rfl | rfl <;> exact ⟨_, _, _, rfl⟩

theorem run_movesAndForwards (os : Os) :
    (@task External.ascii os).run (fresh.begun "init" 0) movesAndForwards =
      some { fresh.begun "init" 0 with load := some ⟨⟨1⟩, movedAndForwarded, 0⟩ } := rfl

/-- Refused the address of its first front end, the run leaves no trace. -/
theorem load_atomic_iff_refusedFrontEnd :
    recorded ({ fresh.begun "init" 0 with
        load := some ⟨⟨1⟩, movedAndForwarded, 0⟩ }.finish (refusedAt 2) anyMoment
          .succeeded).2 ≠ some .ok ∧
      ({ fresh.begun "init" 0 with
        load := some ⟨⟨1⟩, movedAndForwarded, 0⟩ }.finish (refusedAt 2) anyMoment
          .succeeded).2.serving = fresh.serving := by
  have hrecorded : recorded ({ fresh.begun "init" 0 with
      load := some ⟨⟨1⟩, movedAndForwarded, 0⟩ }.finish (refusedAt 2) anyMoment
        .succeeded).2 ≠ some .ok := by decide
  refine ⟨hrecorded, ?_⟩
  have hbegun : (@handle External.ascii (refusedAt 2) anyMoment fresh (.reload none) 0) =
      (none, fresh.begun "init" 0) := rfl
  apply (@load_atomic_iff External.ascii (refusedAt 2) fresh fresh _ _ anyMoment anyMoment _ 0 _
    .succeeded (started_fresh rfl rfl) (System.Reachable.refl fresh) hbegun
    requests_movesAndForwards (run_movesAndForwards _)).mpr
  · rintro ⟨load, bound, listen, ⟨⟩, _, ⟨⟩, ⟨⟩, _, hopen, _⟩
    revert hopen
    decide
  · exact hrecorded

/-- Refused the address of its forward, it leaves its front ends moved. -/
theorem load_not_atomic :
    ¬∀ (_ : External) (os : Os) (start before begun ended : DaemonState)
      (asked finished : Moment) (command : Command) (reply : ℕ) (events : List Event)
      (outcome : ScriptOutcome), Started os start → (task os).Reachable start before →
      before.handle os asked command reply = (none, begun) →
      (∀ event ∈ events, event.IsRequest) → (task os).run begun events = some ended →
      recorded (ended.finish os finished outcome).2 ≠ some .ok →
      (ended.finish os finished outcome).2.serving = before.serving := by
  intro hatomic
  have hbegun : (@handle External.ascii (refusedAt 4) anyMoment fresh (.reload none) 0) =
      (none, fresh.begun "init" 0) := rfl
  have hserving := hatomic External.ascii (refusedAt 4) fresh fresh _ _ anyMoment anyMoment _ 0 _
    .succeeded (started_fresh rfl rfl) (System.Reachable.refl fresh) hbegun
    requests_movesAndForwards (run_movesAndForwards _) (by decide)
  have hlisten := congrArg Serving.listen hserving
  revert hlisten
  decide

end DaemonState

end Nhop.Daemon
