import Nhop.Upstream.Hysteresis
import Nhop.Upstream.Tenancy

/-!
What becomes of a pending sequence whose verdict moves before the next probe.

A sequence remembers the state it aims at and the handle it was opened against,
and nothing of the verdict in between. A verdict that has moved once has moved to
the state aimed at, so that the next probe either agrees with it or opens a
sequence the other way. A verdict that has moved there and back again is what it
was when the sequence was opened, and the next probe closes the sequence as if
nothing had happened.

`Owed` follows a sequence through the loop of the patrol: it is left by the round
that opened it, pending from the end of that round to the end of the next, and
gone after that. A round probes a verdict once, since no list judges two
addresses by one.
-/

namespace Nhop.Upstream

open Foundation Ipc Proxy

namespace HopEvent

/-- The patrol begins another turn of its loop. -/
def wakes : HopEvent → Bool
  | .wake => true
  | _ => false

end HopEvent

namespace Hop

/-- The answer of a probe of `health` that saw `seen` is folded in. -/
def Folds (hop : Hop) (health : HealthHandle) (seen : HealthState) (after : Hop) : Prop :=
  ∃ round index entry, hop.patrol.stage = .probing round ∧ round.confirming = none ∧
    round.probing[index]? = some entry ∧ entry.health = health ∧
    after = hop.fold round index entry seen

/-- A probe of `health` opens a sequence that aims at `target`, and the next probe
of it is folded in after `between`. -/
structure TwoProbes (hold : ℕ) (now : ℤ) (health : HealthHandle) (target seen : HealthState)
    (before opened : Hop) (between : List HopEvent) (met folded : Hop) : Prop where
  reached : (system hold).Reachable (start now) before
  first : before.Folds health target opened
  opens : advance (banked before.patrol.pending health) target (health.state before.cells) = .opened
  run : (system hold).run opened between = some met
  quiet : ∀ a event b seen, (system hold).Takes opened between a event b → ¬a.Folds health seen b
  second : met.Folds health seen folded

/-- A step of anyone but the patrol turns the verdict over. -/
def Moved (hold : ℕ) (health : HealthHandle) (opened : Hop) (between : List HopEvent) : Prop :=
  ∃ a event b, (system hold).Takes opened between a event b ∧ ¬event.byPatrol ∧
    health.state a.cells ≠ health.state b.cells

/-- The answer folded in last makes the patrol turn the verdict over, at some
point of what everyone else does before it writes. -/
def Turns (hold : ℕ) (health : HealthHandle) (folded : Hop) : Prop :=
  ∃ others written turned, (∀ event ∈ others, ¬event.byPatrol) ∧
    (system hold).run folded others = some written ∧
    (system hold).step written .confirm = some turned ∧
    health.state written.cells ≠ health.state turned.cells

/-! ### One probe a round -/

/-- The handles a round still probes are distinct, and none of them has left a
sequence in this round. -/
def Paced (hop : Hop) : Prop :=
  match hop.patrol.stage with
  | .looking => True
  | .entering list => (list.entries.map UpstreamEntry.health).Nodup
  | .probing round =>
      (round.probing.map UpstreamEntry.health).Nodup ∧
      ∀ waiting ∈ round.next, waiting.health ∉ round.probing.map UpstreamEntry.health

section paced

variable {hold : ℕ} {now : ℤ} {hop hop' : Hop} {event : HopEvent}

theorem Tenured.live (h : hop.Tenured) : (hop.live.val.entries.map UpstreamEntry.health).Nodup := by
  have hlive : hop.live.val.rows ∈ hop.history.map fun list => list.val.rows :=
    List.mem_map_of_mem (by simp [history])
  have hcells := h.handles _ hlive
  rw [UpstreamEntries.rows_handles] at hcells
  apply List.Nodup.of_map HealthHandle.cell
  simpa [Function.comp_def] using hcells

theorem notMem_eraseIdx {entries : List UpstreamEntry} {index : ℕ} {entry : UpstreamEntry}
    (h : (entries.map UpstreamEntry.health).Nodup) (hentry : entries[index]? = some entry) :
    entry.health ∉ (entries.eraseIdx index).map UpstreamEntry.health := by
  obtain ⟨hlt, rfl⟩ := List.getElem?_eq_some_iff.mp hentry
  have hlt' : index < (entries.map UpstreamEntry.health).length := by simpa using hlt
  have herase := h.erase_getElem index hlt'
  rw [List.getElem_map] at herase
  rw [← List.eraseIdx_map, ← herase]
  exact h.not_mem_erase

theorem paced_start (now : ℤ) : (start now).Paced := trivial

theorem Paced.frame (h : hop.Paced) (hpatrol : hop'.patrol = hop.patrol) : hop'.Paced := by
  unfold Paced
  rw [hpatrol]
  exact h

theorem mem_of_mem_eraseIdx {entries : List UpstreamEntry} {index : ℕ} {health : HealthHandle}
    (h : health ∈ (entries.eraseIdx index).map UpstreamEntry.health) :
    health ∈ entries.map UpstreamEntry.health := by
  obtain ⟨entry, hmem, rfl⟩ := List.mem_map.mp h
  exact List.mem_map_of_mem (List.mem_of_mem_eraseIdx hmem)

theorem paced_step (h : hop.Paced) (htenured : hop.Tenured)
    (hstep : Steps hold hop event hop') : hop'.Paced := by
  cases hstep with
  | clock now => exact h.frame rfl
  | publish next => exact h.frame rfl
  | dialled k index state list entry hlist hentry => exact h.frame rfl
  | observe k selected list hlist => exact h.frame rfl
  | look => exact h.frame rfl
  | idle hstage hempty => simp [Paced, hstage]
  | wake hstage => exact htenured.live
  | send list hstage =>
      simp only [Paced, hstage] at h
      exact ⟨h, by simp⟩
  | answered index answer round entry hstage hquiet hentry =>
      simp only [Paced, hstage] at h
      obtain ⟨hdistinct, hleft⟩ := h
      have hout := notMem_eraseIdx hdistinct hentry
      have hnodup : ((round.probing.eraseIdx index).map UpstreamEntry.health).Nodup := by
        rw [← List.eraseIdx_map]
        exact hdistinct.eraseIdx index
      have hkept : ∀ waiting ∈ round.next,
          waiting.health ∉ (round.probing.eraseIdx index).map UpstreamEntry.health :=
        fun waiting hmem hin => hleft waiting hmem (mem_of_mem_eraseIdx hin)
      simp only [Paced, Hop.fold]
      cases advance (banked hop.patrol.pending entry.health) (probe answer)
          (entry.health.state hop.cells) with
      | agreed => exact ⟨hnodup, hkept⟩
      | confirmed => exact ⟨hnodup, hkept⟩
      | opened =>
          refine ⟨hnodup, ?_⟩
          intro waiting hmem
          rcases List.mem_append.mp hmem with hmem | hmem
          · exact hkept waiting hmem
          · obtain rfl : waiting = ⟨probe answer, entry.health⟩ := by simpa using hmem
            exact hout
  | lost index round hstage hquiet =>
      simp only [Paced, hstage] at h
      refine ⟨?_, fun waiting hmem hin => h.2 waiting hmem (mem_of_mem_eraseIdx hin)⟩
      rw [← List.eraseIdx_map]
      exact h.1.eraseIdx index
  | confirm round health seen hstage hconfirming =>
      simp only [Paced, hstage] at h
      exact h
  | close round hstage hquiet => trivial

theorem paced_of_reachable (h : (system hold).Reachable (start now) hop) : hop.Paced := by
  have hboth : hop.Tenured ∧ hop.Paced := by
    refine System.invariant (I := fun hop => hop.Tenured ∧ hop.Paced)
      ⟨tenured_start now, paced_start now⟩ ?_ h
    rintro s e s' ⟨htenured, hpaced⟩ hstep
    have hsteps := steps_of_step hstep
    exact ⟨tenured_step htenured hsteps, paced_step hpaced htenured hsteps⟩
  exact hboth.2

end paced

/-! ### The life of a sequence -/

/-- Where the sequence a round opened against `health` is, after the patrol has
begun `woken` more turns of its loop without folding in a probe of `health`: in
what that round leaves, then in what the next round finds pending, and then
nowhere. -/
def Owed (target : HealthState) (health : HealthHandle) (woken : ℕ) (hop : Hop) : Prop :=
  match hop.patrol.stage with
  | .probing round =>
      (woken = 0 ∧ banked round.next health = some target ∧
        health ∉ round.probing.map UpstreamEntry.health) ∨
      (woken = 1 ∧ banked hop.patrol.pending health = some target ∧
        banked round.next health = none) ∨
      (1 < woken ∧ banked hop.patrol.pending health = none ∧ banked round.next health = none)
  | .looking =>
      (woken = 0 ∧ banked hop.patrol.pending health = some target) ∨
      (0 < woken ∧ banked hop.patrol.pending health = none)
  | .entering _ =>
      (woken = 1 ∧ banked hop.patrol.pending health = some target) ∨
      (1 < woken ∧ banked hop.patrol.pending health = none)

section owed

variable {hold : ℕ} {hop hop' : Hop} {event : HopEvent} {health : HealthHandle}
  {target seen : HealthState} {woken : ℕ}

@[simp] theorem banked_nil : banked [] health = none := rfl

theorem banked_append_of_ne {pending : List Pending} {waiting : Pending}
    (h : waiting.health ≠ health) : banked (pending ++ [waiting]) health = banked pending health := by
  have hnot : waiting.health.same health = false := by
    rw [Bool.eq_false_iff]
    exact fun hsame => h (HealthHandle.same_iff.mp hsame)
  simp [banked, List.find?_append, hnot]

theorem banked_append_self {pending : List Pending} (h : banked pending health = none) :
    banked (pending ++ [⟨target, health⟩]) health = some target := by
  have hsame : health.same health = true := HealthHandle.same_iff.mpr rfl
  have hnone : pending.find? (fun waiting => waiting.health.same health) = none := by
    simpa [banked] using h
  simp [banked, List.find?_append, hnone, hsame]

theorem banked_eq_none {pending : List Pending} (h : ∀ waiting ∈ pending, waiting.health ≠ health) :
    banked pending health = none := by
  unfold banked
  rw [Option.map_eq_none_iff, List.find?_eq_none]
  intro waiting hmem hsame
  exact h waiting hmem (HealthHandle.same_iff.mp hsame)

theorem Owed.frame (h : Owed target health woken hop) (hpatrol : hop'.patrol = hop.patrol) :
    Owed target health woken hop' := by
  unfold Owed at *
  rw [hpatrol]
  exact h

theorem Folds.owed (hpaced : hop.Paced) (h : hop.Folds health target hop')
    (hopens : advance (banked hop.patrol.pending health) target (health.state hop.cells) =
      .opened) : Owed target health 0 hop' := by
  obtain ⟨round, index, entry, hstage, _, hentry, rfl, rfl⟩ := h
  simp only [Paced, hstage] at hpaced
  have hnone : banked round.next entry.health = none := by
    apply banked_eq_none
    intro waiting hmem hsame
    apply hpaced.2 waiting hmem
    rw [hsame]
    exact List.mem_map_of_mem (List.mem_of_getElem? hentry)
  simp only [Owed, Hop.fold, hopens]
  exact Or.inl ⟨trivial, banked_append_self hnone, notMem_eraseIdx hpaced.1 hentry⟩

/-- **One step moves a sequence on**, unless it folds in a probe of its handle. -/
theorem owed_step (h : Owed target health woken hop) (hstep : Steps hold hop event hop')
    (hquiet : ∀ seen, ¬hop.Folds health seen hop') :
    Owed target health (woken + if event.wakes then 1 else 0) hop' := by
  cases hstep with
  | clock now => exact h.frame rfl
  | publish next => exact h.frame rfl
  | dialled k index state list entry hlist hentry => exact h.frame rfl
  | observe k selected list hlist => exact h.frame rfl
  | look => exact h.frame rfl
  -- with no upstream to probe the patrol drops what is pending, and nothing is owed
  | idle hstage hempty => simp [Owed, hstage, HopEvent.wakes]
  | wake hstage =>
      simp only [Owed, hstage] at h
      simp only [Owed, HopEvent.wakes, if_true]
      rcases h with ⟨hwoken, hbanked⟩ | ⟨hwoken, hbanked⟩
      · exact Or.inl ⟨by omega, hbanked⟩
      · exact Or.inr ⟨by omega, hbanked⟩
  | send list hstage =>
      simp only [Owed, hstage] at h
      rcases h with ⟨hwoken, hbanked⟩ | ⟨hwoken, hbanked⟩
      · exact Or.inr (Or.inl ⟨hwoken, hbanked, rfl⟩)
      · exact Or.inr (Or.inr ⟨hwoken, hbanked, rfl⟩)
  | answered index answer round entry hstage hidle hentry =>
      have hne : entry.health ≠ health := by
        intro hsame
        exact hquiet _ ⟨round, index, entry, hstage, hidle, hentry, hsame, rfl⟩
      have hleft : health ∉ round.probing.map UpstreamEntry.health →
          health ∉ (round.probing.eraseIdx index).map UpstreamEntry.health :=
        fun hout hin => hout (mem_of_mem_eraseIdx hin)
      have hnext : banked (round.next ++ [⟨probe answer, entry.health⟩]) health =
          banked round.next health := banked_append_of_ne hne
      simp only [Owed, hstage] at h
      simp only [Owed, Hop.fold, HopEvent.wakes]
      cases advance (banked hop.patrol.pending entry.health) (probe answer)
          (entry.health.state hop.cells) with
      | agreed => exact h.imp_left (And.imp_right (And.imp_right hleft))
      | confirmed => exact h.imp_left (And.imp_right (And.imp_right hleft))
      | opened =>
          simp only [hnext]
          exact h.imp_left (And.imp_right (And.imp_right hleft))
  | lost index round hstage hidle =>
      simp only [Owed, hstage] at h
      have hleft : health ∉ round.probing.map UpstreamEntry.health →
          health ∉ (round.probing.eraseIdx index).map UpstreamEntry.health :=
        fun hout hin => hout (mem_of_mem_eraseIdx hin)
      exact h.imp_left (And.imp_right (And.imp_right hleft))
  | confirm round judged seen hstage hconfirming =>
      simp only [Owed, hstage] at h
      exact h
  | close round hstage hidle =>
      simp only [Owed, hstage] at h
      rcases h with ⟨hwoken, hbanked, _⟩ | ⟨hwoken, _, hnext⟩ | ⟨hwoken, _, hnext⟩
      · exact Or.inl ⟨hwoken, hbanked⟩
      · exact Or.inr ⟨by simp only [HopEvent.wakes]; omega, hnext⟩
      · exact Or.inr ⟨by simp only [HopEvent.wakes]; omega, hnext⟩

/-- **What the next probe finds pending**: the sequence, when it is folded in one
turn of the loop later, and nothing when it is folded in later than that. -/
theorem TwoProbes.banked {now : ℤ} {before opened met folded : Hop} {between : List HopEvent}
    (h : TwoProbes hold now health target seen before opened between met folded) :
    (between.countP HopEvent.wakes = 1 ∧ banked met.patrol.pending health = some target) ∨
      (between.countP HopEvent.wakes ≠ 1 ∧ banked met.patrol.pending health = none) := by
  have howed : Owed target health (between.countP HopEvent.wakes) met := by
    refine System.invariant_of_schedule
      (I := fun events hop => Owed target health (events.countP HopEvent.wakes) hop)
      (C := fun hop event => ∀ hop', (system hold).step hop event = some hop' →
        ∀ seen, ¬hop.Folds health seen hop') ?_ ?_ h.run ?_
    · exact h.first.owed (paced_of_reachable h.reached) h.opens
    · intro events s event s' hs hquiet hstep
      have hnext := owed_step hs (steps_of_step hstep) (hquiet s' hstep)
      rw [List.countP_append, List.countP_singleton]
      exact hnext
    · intro s event s' htakes s'' hstep seen
      obtain rfl := Option.some.inj (htakes.step.symm.trans hstep)
      exact h.quiet _ _ _ seen htakes
  obtain ⟨round, index, entry, hstage, _, hentry, hhealth, _⟩ := h.second
  have hprobing : health ∈ round.probing.map UpstreamEntry.health := by
    rw [← hhealth]
    exact List.mem_map_of_mem (List.mem_of_getElem? hentry)
  simp only [Owed, hstage] at howed
  rcases howed with ⟨_, _, hout⟩ | ⟨hwoken, hbanked, _⟩ | ⟨hwoken, hbanked, _⟩
  · exact absurd hprobing hout
  · exact Or.inl ⟨hwoken, hbanked⟩
  · exact Or.inr ⟨by omega, hbanked⟩

end owed

/-! ### What the next probe does -/

section turns

variable {hold : ℕ} {now : ℤ} {hop hop' before opened met folded : Hop} {event : HopEvent}
  {between : List HopEvent} {health : HealthHandle} {target seen : HealthState}

theorem state_eq_of_ne {a b c : HealthState} (ha : a ≠ c) (hb : b ≠ c) : a = b := by
  cases a <;> cases b <;> cases c <;> first | rfl | contradiction

theorem patrol_of_not_byPatrol (hstep : Steps hold hop event hop') (h : ¬event.byPatrol) :
    hop'.patrol = hop.patrol := by
  cases hstep with
  | clock now => rfl
  | publish next => rfl
  | dialled k index state list entry hlist hentry => rfl
  | observe k selected list hlist => rfl
  | look => rfl
  | _ => exact absurd trivial h

theorem confirm_of_stage {round : Round} (hstage : hop.patrol.stage = .probing round)
    (hconfirming : round.confirming = some (health, seen)) :
    (system hold).step hop .confirm =
      some { hop.judge health seen .probe round.started with
        patrol.stage := .probing { round with confirming := none } } := by
  simp only [system, step, hstage, hconfirming, Option.map_some]

/-- A probe turns its verdict over exactly when its answer closes the sequence
pending: then nothing needs to happen before the patrol writes, and otherwise the
patrol has nothing to write whatever happens. -/
theorem Folds.turns_iff (h : hop.Folds health seen hop') :
    Turns hold health hop' ↔
      banked hop.patrol.pending health = some seen ∧ health.state hop.cells ≠ seen := by
  obtain ⟨round, index, entry, hstage, hquiet, hentry, rfl, rfl⟩ := h
  constructor
  · rintro ⟨others, written, turned, hothers, hrun, hconfirm, _⟩
    -- only the patrol moves its own stage, so the verdict written is the one folded
    have hpatrol : written.patrol = (hop.fold round index entry seen).patrol := by
      refine System.invariant_along
        (I := fun s => s.patrol = (hop.fold round index entry seen).patrol)
        (C := fun _ event => ¬event.byPatrol) rfl ?_ hrun ?_
      · intro s event s' hs hnot hstep
        exact (patrol_of_not_byPatrol (steps_of_step hstep) hnot).trans hs
      · intro s event s' htakes
        exact hothers event htakes.mem
    cases hadvance : advance (banked hop.patrol.pending entry.health) seen
        (entry.health.state hop.cells) with
    | confirmed => exact advance_confirmed hadvance
    | agreed =>
        cases steps_of_step hconfirm with
        | confirm under judged writes hstage' hconfirming =>
            rw [hpatrol] at hstage'
            simp only [Hop.fold, hadvance] at hstage'
            obtain rfl := Stage.probing.inj hstage'
            simp [hquiet] at hconfirming
    | opened =>
        cases steps_of_step hconfirm with
        | confirm under judged writes hstage' hconfirming =>
            rw [hpatrol] at hstage'
            simp only [Hop.fold, hadvance] at hstage'
            obtain rfl := Stage.probing.inj hstage'
            simp [hquiet] at hconfirming
  · rintro ⟨hbanked, hne⟩
    have hadvance : advance (banked hop.patrol.pending entry.health) seen
        (entry.health.state hop.cells) = .confirmed := by
      rw [hbanked]
      cases hsettled : entry.health.state hop.cells <;> cases seen <;>
        first | exact absurd hsettled hne | rfl
    have hfolded : (hop.fold round index entry seen).patrol.stage =
        .probing { round with
          probing := round.probing.eraseIdx index
          confirming := some (entry.health, seen) } := by
      simp only [Hop.fold, hadvance]
    refine ⟨[], _, _, by simp, rfl, confirm_of_stage hfolded rfl, ?_⟩
    simp only [HealthHandle.state, verdict_judge, if_true, Health.after_state]
    exact hne

/-- **A verdict that moved between two probes stays where the second found it, but
for one that was moved back**: the second probe turns the verdict over exactly
when it finds the verdict the first one contradicted, sees what the first one
saw, and is folded in one turn of the patrol's loop later. -/
theorem moved_retires_iff (hold : ℕ) (now : ℤ) (health : HealthHandle) (target seen : HealthState)
    (before opened : Hop) (between : List HopEvent) (met folded : Hop)
    (h : TwoProbes hold now health target seen before opened between met folded) :
    (Moved hold health opened between → ¬Turns hold health folded) ↔
      ¬(Moved hold health opened between ∧
        health.state met.cells = health.state before.cells ∧ seen = target ∧
        between.countP HopEvent.wakes = 1) := by
  rw [← not_and, not_iff_not, and_congr_right_iff]
  intro _
  have hcontradicted := advance_opened h.opens
  rw [h.second.turns_iff]
  rcases h.banked with ⟨hwoken, hbanked⟩ | ⟨hwoken, hbanked⟩
  · rw [hbanked]
    constructor
    · rintro ⟨hseen, hne⟩
      obtain rfl := Option.some.inj hseen
      exact ⟨state_eq_of_ne hne hcontradicted, rfl, hwoken⟩
    · rintro ⟨hback, rfl, _⟩
      rw [hback]
      exact ⟨rfl, hcontradicted⟩
  · rw [hbanked]
    constructor
    · rintro ⟨hseen, _⟩
      cases hseen
    · rintro ⟨_, _, hwoken'⟩
      exact absurd hwoken' hwoken

end turns

/-! ### Two probes to run the model on -/

/-- What a schedule makes of a state in which all of it is enabled. -/
def after (hop : Hop) (events : List HopEvent) : Hop := ((system 0).run hop events).getD hop

/-- An upstream that a dial found serving is about to be probed. -/
def aboutToProbe : Hop := (start 0).after [.publish listA, .dialled 1 0 .up, .wake, .send]

/-- The probe has found it gone. -/
def wavering : Hop := aboutToProbe.after [.answered 0 none]

/-- Whether a step folds no answer in. -/
def foldsNothing (hop : Hop) (event : HopEvent) : Bool :=
  ((system 0).step hop event).all fun after => after.folds.length == hop.folds.length

theorem not_folds_of_foldsNothing {hop after : Hop} {event : HopEvent}
    (h : hop.foldsNothing event = true) (hstep : (system 0).step hop event = some after)
    (health : HealthHandle) (seen : HealthState) : ¬hop.Folds health seen after := by
  rintro ⟨round, index, entry, _, _, _, _, rfl⟩
  simp [foldsNothing, hstep, Hop.fold] at h

/-- Two probes that both find the upstream gone, one turn of the loop apart. -/
theorem twoProbes_after {between : List HopEvent} {round : Round}
    (hrun : ((system 0).run wavering between).isSome = true)
    (hquiet : (system 0).every foldsNothing wavering between = true)
    (hstage : (wavering.after between).patrol.stage = .probing round)
    (hfirst : round.confirming = none) (hentry : round.probing[0]? = some ⟨upstreamA, ⟨0⟩⟩) :
    TwoProbes 0 0 ⟨0⟩ .down .down aboutToProbe wavering between
      (wavering.after between) ((wavering.after between).fold round 0 ⟨upstreamA, ⟨0⟩⟩ .down) := by
  obtain ⟨met, hmet⟩ := Option.isSome_iff_exists.mp hrun
  have hsame : wavering.after between = met := by rw [after, hmet, Option.getD_some]
  refine ⟨⟨[.publish listA, .dialled 1 0 .up, .wake, .send], rfl⟩, ?_, rfl, ?_, ?_, ?_⟩
  · exact ⟨_, 0, _, rfl, rfl, rfl, rfl, rfl⟩
  · rw [hsame]
    exact hmet
  · intro a event b seen htakes
    exact not_folds_of_foldsNothing (htakes.of_every hquiet) htakes.step _ _
  · exact ⟨round, 0, _, hstage, hfirst, hentry, rfl, rfl⟩

/-- A verdict moved once between two probes is left where it was moved to. -/
theorem moved_retires_iff_movedOnce :
    ¬Turns 0 ⟨0⟩ ((wavering.after [.close, .dialled 1 0 .down, .wake, .send]).fold
      ⟨0, [⟨upstreamA, ⟨0⟩⟩], none, []⟩ 0 ⟨upstreamA, ⟨0⟩⟩ .down) := by
  have hprobes : TwoProbes 0 0 ⟨0⟩ .down .down aboutToProbe
      wavering [.close, .dialled 1 0 .down, .wake, .send]
      (wavering.after [.close, .dialled 1 0 .down, .wake, .send]) _ :=
    twoProbes_after (by decide +kernel) (by decide +kernel) rfl rfl rfl
  apply (moved_retires_iff 0 0 ⟨0⟩ .down .down _ _ _ _ _ hprobes).mpr
  · rintro ⟨_, hback, _⟩
    revert hback
    decide +kernel
  · refine ⟨_, .dialled 1 0 .down, _, ⟨[.close], [.wake, .send], rfl, rfl, rfl⟩, id, ?_⟩
    decide +kernel

/-- A verdict moved away and back between two probes is turned over by the
second. -/
theorem moved_not_retired :
    ¬∀ (hold : ℕ) (now : ℤ) (health : HealthHandle) (target seen : HealthState)
      (before opened : Hop) (between : List HopEvent) (met folded : Hop),
      TwoProbes hold now health target seen before opened between met folded →
      Moved hold health opened between → ¬Turns hold health folded := by
  intro hretires
  have hprobes : TwoProbes 0 0 ⟨0⟩ .down .down aboutToProbe
      wavering
      [.close, .dialled 1 0 .down, .dialled 1 0 .up, .wake, .send]
      (wavering.after [.close, .dialled 1 0 .down, .dialled 1 0 .up, .wake, .send]) _ :=
    twoProbes_after (by decide +kernel) (by decide +kernel) rfl rfl rfl
  apply hretires 0 0 ⟨0⟩ .down .down _ _ _ _ _ hprobes
  · refine ⟨_, .dialled 1 0 .down, _, ⟨[.close], [.dialled 1 0 .up, .wake, .send], rfl, rfl, rfl⟩,
      id, ?_⟩
    decide +kernel
  · refine ⟨[], _, _, by simp, rfl, rfl, ?_⟩
    decide +kernel

end Hop

end Nhop.Upstream
