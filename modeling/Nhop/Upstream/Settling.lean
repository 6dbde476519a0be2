import Nhop.Upstream.Causes

/-!
What the selection comes to while the verdicts stand.

Time alone moves the selection up the list and never down: an entry that has been
up long enough stays so, and of those the first is chosen. So a list whose
verdicts have stopped changing is left with fewer moves than it has entries above
the one selected, all of them returns after a hold, and once every entry that is
up has held the first of these is selected for good (`selection_settles`).
-/

namespace Nhop.Upstream

open Foundation Ipc Proxy

/-- The first entry that is up. -/
def firstUp (entries : List Health) : Option ℕ :=
  entries.findIdx? fun verdict => verdict.state == .up

/-- Every entry that is up has been for the whole return hold. -/
def AllHeld (entries : List Health) (now : ℤ) (hold : ℕ) : Prop :=
  ∀ verdict ∈ entries, verdict.state = .up → verdict.Holds now hold

instance (entries : List Health) (now : ℤ) (hold : ℕ) : Decidable (AllHeld entries now hold) :=
  inferInstanceAs (Decidable (∀ verdict ∈ entries, _))

section select

variable {entries : List Health} {then_ now : ℤ} {hold i j : ℕ}

theorem select_later (hle : then_ ≤ now) (h : select entries then_ hold = some i) :
    ∃ j, select entries now hold = some j ∧ j ≤ i := by
  obtain ⟨a, ha, hup⟩ := select_up h
  obtain ⟨j, hj⟩ : ∃ j, select entries now hold = some j := select_isSome_of_up ha hup
  refine ⟨j, hj, ?_⟩
  obtain ⟨b, hb, _⟩ := select_up hj
  by_cases hne : j = i
  · omega
  · have := displaced_by_unchanged hle h hj ha ha hb hb hne
    omega

theorem select_none_later (h : select entries then_ hold = none) :
    select entries now hold = none :=
  select_eq_none.mpr (select_eq_none.mp h)

theorem firstUp_eq_some : firstUp entries = some i ↔
    (∃ a, entries[i]? = some a ∧ a.state = .up) ∧
      ∀ j b, j < i → entries[j]? = some b → b.state = .down := by
  unfold firstUp
  rw [List.findIdx?_eq_some_iff_getElem]
  constructor
  · rintro ⟨hi, hup, hbefore⟩
    refine ⟨⟨entries[i], List.getElem?_eq_getElem hi, by simpa using hup⟩, ?_⟩
    intro j b hji hj
    obtain ⟨hlength, rfl⟩ := List.getElem?_eq_some_iff.mp hj
    have hnot := hbefore j hji
    cases hstate : entries[j].state with
    | down => rfl
    | up => simp [hstate] at hnot
  · rintro ⟨⟨a, ha, hup⟩, hbefore⟩
    obtain ⟨hi, rfl⟩ := List.getElem?_eq_some_iff.mp ha
    refine ⟨hi, by simp [hup], fun j hji => ?_⟩
    have hdown := hbefore j entries[j] hji (List.getElem?_eq_getElem (by omega))
    simp [hdown]

theorem firstUp_eq_none : firstUp entries = none ↔ ∀ a ∈ entries, a.state = .down := by
  unfold firstUp
  rw [List.findIdx?_eq_none_iff]
  constructor
  · intro h a hmem
    have hnot := h a hmem
    cases hstate : a.state with
    | down => rfl
    | up => simp [hstate] at hnot
  · intro h a hmem
    simp [h a hmem]

/-- **Once all that are up have held, the first of them is selected.** -/
theorem select_of_allHeld (h : AllHeld entries now hold) :
    select entries now hold = firstUp entries := by
  cases hfirst : firstUp entries with
  | none => exact select_eq_none.mpr (firstUp_eq_none.mp hfirst)
  | some i =>
      obtain ⟨⟨a, ha, hup⟩, hbefore⟩ := firstUp_eq_some.mp hfirst
      have hheld := Health.holds_iff_stamp.mp (h a (List.mem_of_getElem? ha) hup)
      refine select_of_firstHeld ⟨⟨a, ha, hheld⟩, ?_⟩
      intro j b hji hb hbup
      rw [hbefore j b hji hb] at hbup
      cases hbup

theorem firstUp_le (h : select entries now hold = some i) :
    ∃ j, firstUp entries = some j ∧ j ≤ i := by
  obtain ⟨a, ha, hup⟩ := select_up h
  cases hfirst : firstUp entries with
  | none =>
      have hdown := firstUp_eq_none.mp hfirst a (List.mem_of_getElem? ha)
      rw [hup] at hdown
      cases hdown
  | some j =>
      refine ⟨j, rfl, ?_⟩
      by_contra hlt
      have hdown := (firstUp_eq_some.mp hfirst).2 i a (by omega) ha
      rw [hup] at hdown
      cases hdown

end select

/-! ### While the verdicts stand -/

namespace Hop

/-- A step that publishes nothing, records a selection as it is made if it records
one, leaves the verdicts in force as they are, and does not turn the clock back. -/
structure Calm (hop : Hop) (event : HopEvent) (hop' : Hop) : Prop where
  oneList : event.OnOneList
  verdicts : hop'.live.val.verdicts hop'.cells = hop.live.val.verdicts hop.cells
  clock : hop.now ≤ hop'.now

/-- The selection went up the list by at least this many entries. -/
def Climbs (before after : Option ℕ) (moves : ℕ) : Prop :=
  match before, after with
  | some p, some q => q + moves ≤ p
  | none, none => moves = 0
  | _, _ => False

theorem climbs_refl (selected : Option ℕ) : Climbs selected selected 0 := by
  cases selected with
  | none => rfl
  | some p => exact le_rfl

/-- How a run goes on from an observation while the verdicts stand. -/
structure Settling (hold : ℕ) (first hop : Hop) : Prop where
  live : hop.live = first.live
  recorded : hop.observed.list = hop.live
  verdicts : hop.live.val.verdicts hop.cells = first.live.val.verdicts first.cells
  looked : ∃ looked ≤ hop.now, hop.observed.selected = hop.live.val.selected hop.cells looked hold
  climbed : ∃ moves, hop.switches = first.switches ++ moves ∧
    (∀ move ∈ moves, move.cause = .held) ∧
    Climbs first.observed.selected hop.observed.selected moves.length

section steps

variable {hold : ℕ} {first hop hop' : Hop} {event : HopEvent} {p q : ℕ}

theorem Settling.frame (h : Settling hold first hop) (hcalm : Calm hop event hop')
    (hlive : hop'.live = hop.live) (hobserved : hop'.observed = hop.observed)
    (hswitches : hop'.switches = hop.switches) : Settling hold first hop' := by
  obtain ⟨looked, hle, hselected⟩ := h.looked
  refine ⟨by rw [hlive, h.live], by rw [hobserved, hlive, h.recorded],
    by rw [hcalm.verdicts, h.verdicts], ⟨looked, hle.trans hcalm.clock, ?_⟩, ?_⟩
  · rw [hobserved, hselected, UpstreamEntries.selected, UpstreamEntries.selected, hcalm.verdicts]
  · rw [hswitches, hobserved]
    exact h.climbed

/-- The switch an observation logs that moves the selection from one entry that is
up to one above it. -/
theorem record_climbs (hrecorded : hop.observed.list = hop.live)
    (hprevious : hop.observed.selected = some p) (hlt : q < p)
    (hup : ∃ entry, hop.live.val.entries[p]? = some entry ∧
      entry.health.state hop.cells = .up) :
    ∃ move, (hop.record hop.live (some q)).switches = hop.switches ++ [move] ∧
      move.cause = .held := by
  obtain ⟨entry, hentry, hup⟩ := hup
  have hp : p < hop.live.val.entries.length := (List.getElem?_eq_some_iff.mp hentry).1
  have hfresh : hop.live.val.publishedBefore hop.observed.list.val = false := by
    simp [hrecorded, UpstreamEntries.publishedBefore]
  have hmoved : hop.recordedSocket ≠ socketAt hop.live.val (some q) := by
    intro hsame
    rw [recordedSocket, hrecorded, hprevious] at hsame
    have := socketAt_injective hp hsame
    omega
  obtain ⟨move, hlogged, _, _⟩ := record_moved hfresh hmoved
  refine ⟨move, hlogged, ?_⟩
  rw [(record_cause hfresh hlogged).2, hrecorded, hprevious, switchCause_up hentry hup, if_pos hlt]
  simp [Arc.ptrEq]

/-- An observation while the verdicts stand. -/
theorem Settling.look (h : Settling hold first hop) :
    Settling hold first
      (hop.record hop.live (hop.live.val.selected hop.cells hop.now hold)) := by
  obtain ⟨looked, hle, hselected⟩ := h.looked
  obtain ⟨moves, hmoves, hheld, hclimbs⟩ := h.climbed
  have hfresh : hop.live.val.publishedBefore hop.observed.list.val = false := by
    simp [h.recorded, UpstreamEntries.publishedBefore]
  have hobserved :
      (hop.record hop.live (hop.live.val.selected hop.cells hop.now hold)).observed =
        ⟨hop.live, hop.live.val.selected hop.cells hop.now hold⟩ := record_observed hfresh
  refine ⟨h.live, by rw [hobserved]; rfl, h.verdicts, ⟨hop.now, le_rfl, by rw [hobserved]; rfl⟩, ?_⟩
  rw [hobserved]
  cases hprevious : hop.observed.selected with
  | none =>
      -- nothing was up, and no verdict has turned over since
      have hnone : hop.live.val.selected hop.cells hop.now hold = none :=
        select_none_later (hselected.symm.trans hprevious)
      have hsame : hop.recordedSocket = socketAt hop.live.val none := by
        rw [recordedSocket, h.recorded, hprevious]
      rw [hnone, record_same hsame]
      refine ⟨moves, hmoves, hheld, ?_⟩
      rwa [hprevious] at hclimbs
  | some p =>
      rw [hprevious] at hselected hclimbs
      -- with the verdicts as they were, time brings an entry as near the top or nearer
      obtain ⟨q, hq, hqp⟩ := select_later hle hselected.symm
      have hnow : hop.live.val.selected hop.cells hop.now hold = some q := hq
      rw [hnow]
      rcases hqp.lt_or_eq with hlt | rfl
      · obtain ⟨verdict, hverdict, hup⟩ := select_up hselected.symm
        rw [UpstreamEntries.getElem?_verdicts] at hverdict
        obtain ⟨entry, hentry, rfl⟩ := Option.map_eq_some_iff.mp hverdict
        obtain ⟨move, hlogged, hcause⟩ :=
          record_climbs h.recorded hprevious hlt ⟨entry, hentry, hup⟩
        refine ⟨moves ++ [move], by rw [hlogged, hmoves, List.append_assoc], ?_, ?_⟩
        · intro other hmem
          rcases List.mem_append.mp hmem with hmem | hmem
          · exact hheld other hmem
          · rw [List.mem_singleton.mp hmem, hcause]
        · cases hfirst : first.observed.selected with
          | none => simp [Climbs, hfirst] at hclimbs
          | some start =>
              simp only [Climbs, hfirst, List.length_append, List.length_singleton] at hclimbs ⊢
              omega
      · have hsame : hop.recordedSocket = socketAt hop.live.val (some q) := by
          rw [recordedSocket, h.recorded, hprevious]
        rw [record_same hsame]
        exact ⟨moves, hmoves, hheld, hclimbs⟩

/-- **Every calm step goes on settling.** -/
theorem settling_step (h : Settling hold first hop) (hcalm : Calm hop event hop')
    (hstep : Steps hold hop event hop') : Settling hold first hop' := by
  cases hstep with
  | publish next => exact hcalm.oneList.elim
  | observe k selected list hlist => exact hcalm.oneList.elim
  | look => exact h.look
  | dialled k index state list entry hlist hentry => exact h.frame hcalm rfl rfl rfl
  | confirm round health seen hstage hconfirming => exact h.frame hcalm rfl rfl rfl
  | clock now => exact h.frame hcalm rfl rfl rfl
  | idle hstage hempty => exact h.frame hcalm rfl rfl rfl
  | wake hstage => exact h.frame hcalm rfl rfl rfl
  | send list hstage => exact h.frame hcalm rfl rfl rfl
  | answered index answer round entry hstage hquiet hentry => exact h.frame hcalm rfl rfl rfl
  | lost index round hstage hquiet => exact h.frame hcalm rfl rfl rfl
  | close round hstage hquiet => exact h.frame hcalm rfl rfl rfl

theorem settling_run {events : List HopEvent} (h : Settling hold first hop)
    (hrun : (system hold).run hop events = some hop')
    (hcalm : ∀ s e s', (system hold).Takes hop events s e s' → Calm s e s') :
    Settling hold first hop' := by
  refine System.invariant_along
    (C := fun s e => ∀ s', (system hold).step s e = some s' → Calm s e s') h ?_ hrun ?_
  · intro s e s' hs hcond hstep
    exact settling_step hs (hcond s' hstep) (steps_of_step hstep)
  · rintro s e s' ⟨before, after, hevents, hbefore, _⟩ s'' hstep
    exact hcalm s e s'' ⟨before, after, hevents, hbefore, hstep⟩

theorem Settling.stays (h : Settling hold first hop)
    (hfirst : first.observed.selected = firstUp (first.live.val.verdicts first.cells)) :
    hop.observed.selected = firstUp (hop.live.val.verdicts hop.cells) := by
  obtain ⟨looked, _, hselected⟩ := h.looked
  obtain ⟨moves, _, _, hclimbs⟩ := h.climbed
  rw [hfirst, ← h.verdicts] at hclimbs
  cases hnow : hop.observed.selected with
  | none =>
      cases hup : firstUp (hop.live.val.verdicts hop.cells) with
      | none => rfl
      | some p => simp [Climbs, hnow, hup] at hclimbs
  | some q =>
      obtain ⟨p, hp, hle⟩ := firstUp_le (hselected.symm.trans hnow)
      simp only [Climbs, hnow, hp] at hclimbs
      rw [hp]
      congr 1
      omega

end steps

theorem settling_start {hold : ℕ} {now : ℤ} {before first : Hop}
    (hreach : (system hold).Reachable (start now) before)
    (hlook : (system hold).step before .look = some first) : Settling hold first first := by
  have hnumbered := numbered_of_reachable hreach
  have hfresh : before.live.val.publishedBefore before.observed.list.val = false := by
    refine hnumbered.fresh history_live fun r hr => ?_
    have hlength := (List.getElem?_eq_some_iff.mp hr).1
    rw [length_history] at hlength
    omega
  obtain rfl : before.record before.live
      (before.live.val.selected before.cells before.now hold) = first := Option.some.inj hlook
  have hobserved :
      (before.record before.live
        (before.live.val.selected before.cells before.now hold)).observed =
        ⟨before.live, before.live.val.selected before.cells before.now hold⟩ :=
    record_observed hfresh
  refine ⟨rfl, by rw [hobserved]; rfl, rfl, ⟨before.now, le_rfl, by rw [hobserved]; rfl⟩, ?_⟩
  exact ⟨[], (List.append_nil _).symm, by simp, climbs_refl _⟩

/-- **The selection settles.** After an observation, while nothing is published, each
selection is recorded as it is made, no verdict turns over and the clock does not go
back, every switch logged is a return after a hold to a higher entry, there are no
more of them than entries climbed, and from the first observation on by which all
entries that are up have held, the first of these is selected. -/
theorem selection_settles (hold : ℕ) (now : ℤ) (before first hop : Hop) (events : List HopEvent)
    (hreach : (system hold).Reachable (start now) before)
    (hlook : (system hold).step before .look = some first)
    (hrun : (system hold).run first events = some hop)
    (hcalm : ∀ s e s', (system hold).Takes first events s e s' → Calm s e s') :
    (∃ moves, hop.switches = first.switches ++ moves ∧ (∀ move ∈ moves, move.cause = .held) ∧
      Climbs first.observed.selected hop.observed.selected moves.length) ∧
    ∀ s s', (system hold).Takes first events s .look s' →
      AllHeld (s.live.val.verdicts s.cells) s.now hold →
      hop.observed.selected = firstUp (hop.live.val.verdicts hop.cells) := by
  have hstart := settling_start hreach hlook
  refine ⟨(settling_run hstart hrun hcalm).climbed, ?_⟩
  rintro s s' ⟨earlier, later, rfl, hearlier, hstep⟩ hheld
  have hs : Settling hold first s := settling_run hstart hearlier fun t e t' ht =>
    hcalm t e t' (ht.append _)
  obtain rfl : s.record s.live (s.live.val.selected s.cells s.now hold) = s' :=
    Option.some.inj hstep
  have hfresh : s.live.val.publishedBefore s.observed.list.val = false := by
    simp [hs.recorded, UpstreamEntries.publishedBefore]
  have hobserved : (s.record s.live (s.live.val.selected s.cells s.now hold)).observed =
      ⟨s.live, s.live.val.selected s.cells s.now hold⟩ := record_observed hfresh
  have hagain := settling_start (.append (hreach.snoc hlook) hearlier) hstep
  have hrest : (system hold).run (s.record s.live (s.live.val.selected s.cells s.now hold)) later =
      some hop := by
    rw [System.run_append, hearlier, Option.bind_some, System.run_cons, hstep,
      Option.bind_some] at hrun
    exact hrun
  refine (settling_run hagain hrest fun t e t' ht => ?_).stays ?_
  · obtain ⟨middle, end_, rfl, hmiddle, ht⟩ := ht
    refine hcalm t e t' ⟨earlier ++ .look :: middle, end_, by simp, ?_, ht⟩
    rw [System.run_append, hearlier, Option.bind_some, System.run_cons, hstep, Option.bind_some]
    exact hmiddle
  · rw [hobserved]
    exact select_of_allHeld hheld

/-- A step is calm, found out by taking it. -/
def calmAt (hold : ℕ) (hop : Hop) (event : HopEvent) : Bool :=
  match event with
  | .publish _ | .observe _ _ => false
  | _ => (step hold hop event).all fun hop' =>
      hop'.live.val.verdicts hop'.cells == hop.live.val.verdicts hop.cells && hop.now ≤ hop'.now

theorem calm_of_calmAt {hold : ℕ} {hop hop' : Hop} {event : HopEvent}
    (h : calmAt hold hop event = true) (hstep : step hold hop event = some hop') :
    Calm hop event hop' := by
  cases event with
  | publish next => cases h
  | observe k selected => cases h
  | clock | dialled | look | wake | send | answered | lost | confirm | close =>
      simp only [calmAt, hstep, Option.all_some, Bool.and_eq_true, beq_iff_eq,
        decide_eq_true_eq] at h
      exact ⟨trivial, h.1, h.2⟩

/-- Two upstreams come up, the second one first. -/
def bothUp : List HopEvent := [.publish listAB, .dialled 1 1 .up, .clock 1, .dialled 1 0 .up]

/-- The first one takes over when it has held. -/
theorem selection_settles_bothUp : ∃ before first hop : Hop,
    (system 5).run (start 0) bothUp = some before ∧ (system 5).step before .look = some first ∧
      (system 5).run first [.clock 6, .look] = some hop ∧
      (∃ moves, hop.switches = first.switches ++ moves ∧ moves.map Switch.cause = [.held]) ∧
      hop.observed.selected = some 0 := by
  have hchecks : ((system 5).run (start 0) bothUp).any (fun before =>
      ((system 5).step before .look).any fun first =>
        ((system 5).run first [.clock 6]).any fun s =>
          ((system 5).step s .look).any fun hop =>
            (system 5).every (calmAt 5) first [.clock 6, .look] &&
              decide (AllHeld (s.live.val.verdicts s.cells) s.now 5) &&
              hop.switches.length == first.switches.length + 1 &&
              firstUp (hop.live.val.verdicts hop.cells) == some 0) = true := by
    decide +kernel
  simp only [Option.any_eq_true, Bool.and_eq_true, decide_eq_true_eq, beq_iff_eq] at hchecks
  obtain ⟨before, hbefore, first, hlook, s, hearlier, hop, hstep, ⟨⟨hevery, hheld⟩, hlength⟩,
    hup⟩ := hchecks
  have hrun : (system 5).run first [.clock 6, .look] = some hop := System.run_snoc hearlier hstep
  obtain ⟨⟨moves, hmoves, hcauses, _⟩, hsettled⟩ := selection_settles 5 0 before first hop
    [.clock 6, .look] ⟨bothUp, hbefore⟩ hlook hrun fun t e t' ht =>
      calm_of_calmAt (System.Takes.of_every hevery ht) ht.step
  refine ⟨before, first, hop, hbefore, hlook, hrun, ⟨moves, hmoves, ?_⟩, ?_⟩
  · obtain ⟨move, rfl⟩ : ∃ move, moves = [move] := by
      rw [hmoves, List.length_append] at hlength
      exact List.length_eq_one_iff.mp (by omega)
    rw [List.map_singleton, hcauses move (List.mem_singleton_self move)]
  · rw [hsettled s hop ⟨[.clock 6], [], rfl, hearlier, hstep⟩ hheld, hup]

end Hop

end Nhop.Upstream
