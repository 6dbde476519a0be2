import Nhop.Upstream.Hop

/-!
The patrol moves a verdict only on two probes that agree.

Every sequence the patrol has pending was opened by the round it has just
finished, against the handle the sequence names, by an answer that contradicted
the verdict in force. That is the invariant (`Sequenced`), and it survives
publications and dials because no step of anyone else touches a sequence. A
verdict the patrol is about to write is backed by such a sequence and by an
answer of the round under way.
-/

namespace Nhop.Upstream

open Foundation Ipc Proxy

namespace HopEvent

/-- The event is a step of the patrol. -/
def byPatrol : HopEvent → Prop
  | .wake | .send | .answered _ _ | .lost _ | .confirm | .close => True
  | .clock _ | .publish _ | .dialled _ _ _ | .observe _ _ | .look => False

end HopEvent

namespace Hop

/-- In round `round`, the probe of `health` saw `state` and contradicted the
verdict in force when it was folded in. -/
def Saw (hop : Hop) (round : ℕ) (health : HealthHandle) (state : HealthState) : Prop :=
  ∃ fold ∈ hop.folds, fold.round = round ∧ fold.health = health ∧ fold.seen = state ∧
    fold.inForce ≠ state

/-- Two consecutive rounds, the second one under way, saw `state`. -/
def SawTwice (hop : Hop) (health : HealthHandle) (state : HealthState) : Prop :=
  hop.Saw hop.patrol.rounds health state ∧
    ∃ before, before + 1 = hop.patrol.rounds ∧ hop.Saw before health state

/-- The sequences pending were opened by the last round that has ended, those a
round under way leaves by that round, and the verdict to be written has been
seen by both. -/
def Sequenced (hop : Hop) : Prop :=
  match hop.patrol.stage with
  | .looking | .entering _ =>
      ∀ waiting ∈ hop.patrol.pending,
        hop.Saw hop.patrol.rounds waiting.health waiting.target
  | .probing round =>
      (∀ waiting ∈ hop.patrol.pending, ∃ before, before + 1 = hop.patrol.rounds ∧
        hop.Saw before waiting.health waiting.target) ∧
      (∀ waiting ∈ round.next, hop.Saw hop.patrol.rounds waiting.health waiting.target) ∧
      (∀ health state, round.confirming = some (health, state) → hop.SawTwice health state)

section lemmas

variable {hold : ℕ} {hop hop' : Hop} {event : HopEvent} {health : HealthHandle}
  {state : HealthState} {round : ℕ}

theorem banked_eq_some {pending : List Pending} (h : banked pending health = some state) :
    ⟨state, health⟩ ∈ pending := by
  obtain ⟨waiting, hfind, rfl⟩ := Option.map_eq_some_iff.mp h
  have hsame : waiting.health = health :=
    HealthHandle.same_iff.mp (by simpa using List.find?_some hfind)
  rw [← hsame]
  exact List.mem_of_find?_eq_some hfind

theorem advance_confirmed {banked : Option HealthState} {seen settled : HealthState}
    (h : advance banked seen settled = .confirmed) : banked = some seen ∧ settled ≠ seen := by
  unfold advance at h
  split at h <;> simp_all

theorem advance_opened {banked : Option HealthState} {seen settled : HealthState}
    (h : advance banked seen settled = .opened) : settled ≠ seen := by
  unfold advance at h
  split at h <;> simp_all

theorem Sequenced.frame (h : hop.Sequenced) (hpatrol : hop'.patrol = hop.patrol)
    (hfolds : hop'.folds = hop.folds) : hop'.Sequenced := by
  unfold Sequenced SawTwice Saw at *
  rw [hpatrol, hfolds]
  exact h

theorem Saw.mono (h : hop.Saw round health state) {more : List Fold}
    (hfolds : hop'.folds = hop.folds ++ more) : hop'.Saw round health state := by
  obtain ⟨fold, hmem, hfold⟩ := h
  exact ⟨fold, by rw [hfolds]; exact List.mem_append_left _ hmem, hfold⟩

/-- Folding an answer in keeps the sequences: an answer that opens one
contradicted the verdict in force, and one that confirms one found it among
those the round before left. -/
theorem Sequenced.fold {under : Round} {index : ℕ} {entry : UpstreamEntry} {seen : HealthState}
    (h : hop.Sequenced) (hstage : hop.patrol.stage = .probing under)
    (hquiet : under.confirming = none) : (hop.fold under index entry seen).Sequenced := by
  simp only [Sequenced, hstage] at h
  obtain ⟨hpending, hnext, _⟩ := h
  have hnow : entry.health.state hop.cells ≠ seen →
      (hop.fold under index entry seen).Saw hop.patrol.rounds entry.health seen := fun hne =>
    ⟨⟨hop.patrol.rounds, entry.health, seen, entry.health.state hop.cells⟩,
      by simp [Hop.fold], rfl, rfl, rfl, hne⟩
  have hkept : ∀ {k health state}, hop.Saw k health state →
      (hop.fold under index entry seen).Saw k health state := fun hsaw => hsaw.mono rfl
  simp only [Sequenced, Hop.fold]
  refine ⟨fun waiting hmem => ?_, ?_, ?_⟩
  · obtain ⟨before, hbefore, hsaw⟩ := hpending waiting hmem
    exact ⟨before, hbefore, hkept hsaw⟩
  · intro waiting hmem
    cases hadvance : advance (banked hop.patrol.pending entry.health) seen
        (entry.health.state hop.cells) with
    | agreed =>
        simp only [hadvance] at hmem
        exact hkept (hnext waiting hmem)
    | confirmed =>
        simp only [hadvance] at hmem
        exact hkept (hnext waiting hmem)
    | opened =>
        simp only [hadvance] at hmem
        rcases List.mem_append.mp hmem with hmem | hmem
        · exact hkept (hnext waiting hmem)
        · obtain rfl : waiting = ⟨seen, entry.health⟩ := by simpa using hmem
          exact hnow (advance_opened hadvance)
  · intro health state hconfirming
    cases hadvance : advance (banked hop.patrol.pending entry.health) seen
        (entry.health.state hop.cells) with
    | agreed => simp [hadvance, hquiet] at hconfirming
    | opened => simp [hadvance, hquiet] at hconfirming
    | confirmed =>
        simp only [hadvance, Option.some.injEq, Prod.mk.injEq] at hconfirming
        obtain ⟨rfl, rfl⟩ := hconfirming
        -- what was pending is of an earlier round, so the two answers are of two rounds
        obtain ⟨hbanked, hne⟩ := advance_confirmed hadvance
        obtain ⟨before, hbefore, hsaw⟩ := hpending _ (banked_eq_some hbanked)
        exact ⟨hnow hne, before, hbefore, hkept hsaw⟩

theorem sequenced_start (now : ℤ) : (start now).Sequenced := by
  simp [Sequenced, start]

/-- **One step keeps the sequences.** -/
theorem sequenced_step (h : hop.Sequenced) (hstep : Steps hold hop event hop') :
    hop'.Sequenced := by
  cases hstep with
  | clock now => exact h.frame rfl rfl
  | publish next => exact h.frame rfl rfl
  | dialled k index state list entry hlist hentry => exact h.frame rfl rfl
  | observe k selected list hlist => exact h.frame rfl rfl
  | look => exact h.frame rfl rfl
  | idle hstage hempty => simp [Sequenced, hstage]
  | wake hstage =>
      simp only [Sequenced, hstage] at h
      exact h
  | send list hstage =>
      simp only [Sequenced, hstage] at h
      refine ⟨fun waiting hmem => ⟨hop.patrol.rounds, rfl, h waiting hmem⟩, by simp, by simp⟩
  | answered index answer round entry hstage hquiet hentry => exact h.fold hstage hquiet
  | lost index round hstage hquiet =>
      simp only [Sequenced, hstage] at h
      exact h
  | confirm round health seen hstage hconfirming =>
      simp only [Sequenced, hstage] at h
      exact ⟨h.1, h.2.1, by simp⟩
  | close round hstage hquiet =>
      simp only [Sequenced, hstage] at h
      exact h.2.1

/-- A step of the patrol that moves a verdict writes one that has been seen
twice. -/
theorem sawTwice_of_turn (h : hop.Sequenced) (hstep : Steps hold hop event hop')
    (hpatrol : event.byPatrol) (hturn : health.state hop.cells ≠ health.state hop'.cells) :
    hop.SawTwice health (health.state hop'.cells) := by
  cases hstep with
  | clock now => cases hpatrol
  | publish next => cases hpatrol
  | dialled k index state list entry hlist hentry => cases hpatrol
  | observe k selected list hlist => cases hpatrol
  | look => cases hpatrol
  | idle hstage hempty => exact absurd rfl hturn
  | wake hstage => exact absurd rfl hturn
  | send list hstage => exact absurd rfl hturn
  | answered index answer round entry hstage hquiet hentry => exact absurd rfl hturn
  | lost index round hstage hquiet => exact absurd rfl hturn
  | close round hstage hquiet => exact absurd rfl hturn
  | confirm round written seen hstage hconfirming =>
      simp only [HealthHandle.state, verdict_judge] at hturn ⊢
      split at hturn
      · next hsame =>
          subst hsame
          simp only [if_true, Health.after_state]
          simp only [Sequenced, hstage] at h
          exact h.2.2 health seen hconfirming
      · exact absurd rfl hturn

end lemmas

/-- **Two-probe hysteresis.** Whenever a step of the patrol turns a verdict over,
the round under way and the round before it both probed that same handle, saw
the state it is turned to, and contradicted the verdict in force when they were
folded in. -/
theorem turns_on_two_probes {hold : ℕ} {now : ℤ} {events : List HopEvent} {hop hop' : Hop}
    {event : HopEvent} (htakes : (system hold).Takes (start now) events hop event hop')
    (hpatrol : event.byPatrol) (health : HealthHandle)
    (hturn : health.state hop.cells ≠ health.state hop'.cells) :
    hop.SawTwice health (health.state hop'.cells) := by
  have hinv : hop.Sequenced := System.invariant (sequenced_start now)
    (fun s e s' hs hstep => sequenced_step hs (steps_of_step hstep)) htakes.reachable
  exact sawTwice_of_turn hinv (steps_of_step htakes.step) hpatrol hturn

/-- Two rounds that find an upstream serving, up to the write that says so. -/
def twoRounds : List HopEvent :=
  [.publish listA, .wake, .send, .answered 0 (some (.ok ⟨0⟩)), .close,
    .wake, .send, .answered 0 (some (.ok ⟨1⟩))]

theorem turns_on_two_probes_twoRounds :
    ∃ hop hop', (system 0).Takes (start 0) (twoRounds ++ [.confirm]) hop .confirm hop' ∧
      hop.SawTwice ⟨0⟩ ((⟨0⟩ : HealthHandle).state hop'.cells) := by
  obtain ⟨hop', hrun'⟩ : ∃ hop', (system 0).run (start 0) (twoRounds ++ [.confirm]) = some hop' :=
    Option.isSome_iff_exists.mp (by decide +kernel)
  obtain ⟨hop, hrun, hstep⟩ := System.run_snoc_eq_some.mp hrun'
  have hbefore : ((system 0).run (start 0) twoRounds).map
      (fun s => (⟨0⟩ : HealthHandle).state s.cells) = some .down := by decide +kernel
  have hafter : ((system 0).run (start 0) (twoRounds ++ [.confirm])).map
      (fun s => (⟨0⟩ : HealthHandle).state s.cells) = some .up := by decide +kernel
  have hdown : (⟨0⟩ : HealthHandle).state hop.cells = .down := by simpa [hrun] using hbefore
  have hup : (⟨0⟩ : HealthHandle).state hop'.cells = .up := by simpa [hrun'] using hafter
  have htakes := System.Takes.last hrun hstep
  refine ⟨hop, hop', htakes, turns_on_two_probes htakes trivial ⟨0⟩ ?_⟩
  rw [hdown, hup]
  decide

end Hop

end Nhop.Upstream
