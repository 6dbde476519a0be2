import Nhop.Upstream.Retirement
import Nhop.Upstream.Routes

/-!
How long the patrol takes to find out, and what the dials do then.

Two probes that agree turn a verdict over, and a round probes every entry of the
list it took. So an upstream that stays in the list, whose probes all return and
see the same thing, and of which no dial says otherwise, is judged so when two
rounds have ended (`state_of_two_rounds`), whatever was pending for it and
whatever happens to the others meanwhile. From then on a dial goes through one that
is down for a `require` rule only, where it is the first and all of them are down;
and once one is up no dial is made around them (`detected_in_two_rounds`).

`Tracked` is how far the patrol has come: before the first probe anything may be
pending, the first probe leaves a sequence unless it closes one, the next round
finds that sequence, and its probe closes it.
-/

namespace Nhop.Upstream

open Foundation Ipc Proxy Rules

namespace HopEvent

/-- A round ends. -/
def closes : HopEvent → Bool
  | .close => true
  | _ => false

end HopEvent

namespace Hop

/-- A step in which the list in force names `health`, and anything that is found
out about it is `seen`: a probe of it is not lost and sees that, and a dial through
it says no different. -/
structure Steady (health : HealthHandle) (seen : HealthState) (hop : Hop) (event : HopEvent)
    (hop' : Hop) : Prop where
  listed : health ∈ hop.live.val.entries.map UpstreamEntry.health
  folded : ∀ other, hop.Folds health other hop' → other = seen
  returned : ∀ index round entry, event = .lost index → hop.patrol.stage = .probing round →
    round.probing[index]? = some entry → entry.health ≠ health
  dialled : ∀ k index state list entry, event = .dialled k index state →
    hop.history[k]? = some list → list.val.entries[index]? = some entry →
    entry.health = health → state = seen

/-- How far the patrol has come with `health` after `closed` rounds, as long as it
is not judged `seen`. -/
def Tracked (health : HealthHandle) (seen : HealthState) (closed : ℕ) (hop : Hop) : Prop :=
  match hop.patrol.stage with
  | .looking => closed = 0 ∨ closed = 1 ∧ banked hop.patrol.pending health = some seen
  | .entering list => health ∈ list.entries.map UpstreamEntry.health ∧
      (closed = 0 ∨ closed = 1 ∧ banked hop.patrol.pending health = some seen)
  | .probing round =>
      (round.confirming = some (health, seen) ∧ closed ≤ 1) ∨
      (health ∈ round.probing.map UpstreamEntry.health ∧
        (closed = 0 ∨ closed = 1 ∧ banked hop.patrol.pending health = some seen)) ∨
      (health ∉ round.probing.map UpstreamEntry.health ∧ closed = 0 ∧
        banked round.next health = some seen)

/-- The patrol is about to write nothing else, and `health` is judged `seen` or on
its way to be. -/
structure Watching (health : HealthHandle) (seen : HealthState) (closed : ℕ) (hop : Hop) :
    Prop where
  writes : ∀ round other, hop.patrol.stage = .probing round →
    round.confirming = some (health, other) → other = seen
  tracked : health.state hop.cells = seen ∨ Tracked health seen closed hop

section steps

variable {hold : ℕ} {hop hop' : Hop} {event : HopEvent} {health : HealthHandle}
  {seen : HealthState} {closed : ℕ} {round : Round}

theorem advance_agreed {banked : Option HealthState} {settled : HealthState}
    (h : advance banked seen settled = .agreed) : settled = seen := by
  unfold advance at h
  split at h <;> first | rfl | (split at h <;> cases h)

theorem advance_banked_ne {settled : HealthState} : advance (some seen) seen settled ≠ .opened := by
  unfold advance
  split <;> simp

theorem Watching.frame (h : Watching health seen closed hop) (hpatrol : hop'.patrol = hop.patrol)
    (hstate : health.state hop'.cells = health.state hop.cells ∨ health.state hop'.cells = seen) :
    Watching health seen closed hop' := by
  refine ⟨by rw [hpatrol]; exact h.writes, ?_⟩
  rcases hstate with hsame | hseen
  · rcases h.tracked with hseen | htracked
    · exact Or.inl (hsame.trans hseen)
    · refine Or.inr ?_
      unfold Tracked at *
      rwa [hpatrol]
  · exact Or.inl hseen

theorem probing_of_close (hstage : hop.patrol.stage = .probing round)
    (hstep : (system hold).step hop .close = some hop') : round.probing = [] := by
  simp only [system, step, hstage] at hstep
  split_ifs at hstep with hdone
  exact hdone.1

theorem mem_eraseIdx_of_ne {entries : List UpstreamEntry} {index : ℕ}
    (hother : ∀ entry, entries[index]? = some entry → entry.health ≠ health) :
    health ∈ (entries.eraseIdx index).map UpstreamEntry.health ↔
      health ∈ entries.map UpstreamEntry.health := by
  refine ⟨mem_of_mem_eraseIdx, fun hmem => ?_⟩
  obtain ⟨entry, hin, rfl⟩ := List.mem_map.mp hmem
  obtain ⟨position, hposition⟩ := List.getElem?_of_mem hin
  apply List.mem_map_of_mem
  rw [List.mem_eraseIdx_iff_getElem?]
  refine ⟨position, ?_, hposition⟩
  rintro rfl
  exact hother entry hposition rfl

theorem state_judge {other : HealthHandle} {state : HealthState} {cause : VerdictCause}
    {stamp : ℤ} (h : other = health → state = seen) :
    health.state (hop.judge other state cause stamp).cells = health.state hop.cells ∨
      health.state (hop.judge other state cause stamp).cells = seen := by
  simp only [HealthHandle.state, verdict_judge]
  by_cases hsame : health = other
  · rw [if_pos hsame, Health.after_state]
    exact Or.inr (h hsame.symm)
  · rw [if_neg hsame]
    exact Or.inl rfl

theorem state_publish {next : Upstreams} (htenured : hop.Tenured)
    (hlisted : health ∈ hop.live.val.entries.map UpstreamEntry.health) :
    health.state (hop.publish next).cells = health.state hop.cells := by
  obtain ⟨entry, hmem, rfl⟩ := List.mem_map.mp hlisted
  have hrows : hop.live.val.rows ∈ hop.history.map fun list => list.val.rows :=
    List.mem_map_of_mem (by simp [history])
  have hrow : (entry.upstream.socket, entry.health.cell) ∈ hop.live.val.rows :=
    UpstreamEntries.mem_rows.mpr ⟨entry, hmem, rfl, rfl⟩
  have hframe : (UpstreamEntries.adoptEach hop.live.val.entries hop.now next.entries
      hop.cells).2.read entry.health.cell = hop.cells.read entry.health.cell :=
    UpstreamEntries.adoptEach_frame (htenured.allocated _ hrows _ hrow)
  show ((hop.live.val.adopted next hop.now hop.cells).2.read entry.health.cell).health.state = _
  rw [UpstreamEntries.adopted, hframe]
  rfl

/-- The probe of another upstream is folded in. -/
theorem Watching.answered_other (h : Watching health seen closed hop) {index : ℕ}
    {entry : UpstreamEntry} {answer : HealthState} (hstage : hop.patrol.stage = .probing round)
    (hquiet : round.confirming = none) (hentry : round.probing[index]? = some entry)
    (hne : entry.health ≠ health) :
    Watching health seen closed (hop.fold round index entry answer) := by
  have hprobing : health ∈ (round.probing.eraseIdx index).map UpstreamEntry.health ↔
      health ∈ round.probing.map UpstreamEntry.health := by
    apply mem_eraseIdx_of_ne
    intro other hother
    obtain rfl := Option.some.inj (hentry.symm.trans hother)
    exact hne
  have hnext : banked (round.next ++ [⟨answer, entry.health⟩]) health = banked round.next health :=
    banked_append_of_ne hne
  cases hadvance : advance (banked hop.patrol.pending entry.health) answer
      (entry.health.state hop.cells) with
  | agreed =>
      refine ⟨?_, h.tracked.imp_right fun htracked => ?_⟩
      · simp only [Hop.fold, hadvance, Stage.probing.injEq]
        rintro _ other rfl hconfirming
        rw [hquiet] at hconfirming
        cases hconfirming
      · simp only [Tracked, hstage] at htracked
        simpa only [Tracked, Hop.fold, hadvance, hprobing] using htracked
  | confirmed =>
      refine ⟨?_, h.tracked.imp_right fun htracked => ?_⟩
      · simp only [Hop.fold, hadvance, Stage.probing.injEq]
        rintro _ other rfl hconfirming
        exact absurd (Prod.mk.inj (Option.some.inj hconfirming)).1 hne
      · simp only [Tracked, hstage, hquiet, reduceCtorEq, false_and, false_or] at htracked
        simp only [Tracked, Hop.fold, hadvance, hprobing]
        exact Or.inr htracked
  | opened =>
      refine ⟨?_, h.tracked.imp_right fun htracked => ?_⟩
      · simp only [Hop.fold, hadvance, Stage.probing.injEq]
        rintro _ other rfl hconfirming
        rw [hquiet] at hconfirming
        cases hconfirming
      · simp only [Tracked, hstage] at htracked
        simpa only [Tracked, Hop.fold, hadvance, hprobing, hnext] using htracked

/-- **A probe of the upstream is folded in.** It agrees, or it opens a sequence in
the first round, or closes the one pending. -/
theorem Watching.answered (h : Watching health seen closed hop) (hpaced : hop.Paced)
    {index : ℕ} {entry : UpstreamEntry} (hstage : hop.patrol.stage = .probing round)
    (hquiet : round.confirming = none) (hentry : round.probing[index]? = some entry)
    (hhealth : entry.health = health) :
    Watching health seen closed (hop.fold round index entry seen) := by
  subst hhealth
  simp only [Paced, hstage] at hpaced
  have hprobed : entry.health ∈ round.probing.map UpstreamEntry.health :=
    List.mem_map_of_mem (List.mem_of_getElem? hentry)
  have hnone : banked round.next entry.health = none :=
    banked_eq_none fun waiting hmem hsame => hpaced.2 waiting hmem (hsame ▸ hprobed)
  cases hadvance : advance (banked hop.patrol.pending entry.health) seen
      (entry.health.state hop.cells) with
  | agreed =>
      refine ⟨?_, Or.inl ?_⟩
      · simp only [Hop.fold, hadvance, Stage.probing.injEq]
        rintro _ other rfl hconfirming
        rw [hquiet] at hconfirming
        cases hconfirming
      · exact advance_agreed hadvance
  | confirmed =>
      refine ⟨?_, Or.inr ?_⟩
      · simp only [Hop.fold, hadvance, Stage.probing.injEq]
        rintro _ other rfl hconfirming
        exact (Prod.mk.inj (Option.some.inj hconfirming)).2.symm
      · have htracked := h.tracked.resolve_left (advance_confirmed hadvance).2
        simp only [Tracked, hstage, hquiet, reduceCtorEq, false_and, false_or, hprobed,
          not_true_eq_false, or_false, true_and] at htracked
        simp only [Tracked, Hop.fold, hadvance]
        exact Or.inl ⟨trivial, by omega⟩
  | opened =>
      refine ⟨?_, h.tracked.imp_right fun htracked => ?_⟩
      · simp only [Hop.fold, hadvance, Stage.probing.injEq]
        rintro _ other rfl hconfirming
        rw [hquiet] at hconfirming
        cases hconfirming
      · simp only [Tracked, hstage, hquiet, reduceCtorEq, false_and, false_or, hprobed,
          not_true_eq_false, or_false, true_and] at htracked
        rcases htracked with rfl | ⟨_, hbanked⟩
        · simp only [Tracked, Hop.fold, hadvance]
          exact Or.inr (Or.inr
            ⟨notMem_eraseIdx hpaced.1 hentry, trivial, banked_append_self hnone⟩)
        · rw [hbanked] at hadvance
          exact absurd hadvance advance_banked_ne

/-- **Every steady step keeps watch**, counting the rounds that end. -/
theorem watching_step (h : Watching health seen closed hop) (hpaced : hop.Paced)
    (htenured : hop.Tenured) (hsteady : Steady health seen hop event hop')
    (hstep : (system hold).step hop event = some hop') :
    Watching health seen (closed + if event.closes then 1 else 0) hop' := by
  cases steps_of_step hstep with
  | clock now => exact h.frame rfl (Or.inl rfl)
  | observe k selected list hlist => exact h.frame rfl (Or.inl rfl)
  | look => exact h.frame rfl (Or.inl rfl)
  | publish next => exact h.frame rfl (Or.inl (state_publish htenured hsteady.listed))
  | dialled k index state list entry hlist hentry =>
      exact h.frame rfl (state_judge fun hsame =>
        hsteady.dialled k index state list entry rfl hlist hentry hsame)
  | idle hstage hempty =>
      -- the upstream is listed throughout, so there is something to probe
      have hlisted := hsteady.listed
      simp [hempty] at hlisted
  | wake hstage =>
      refine ⟨by simp, h.tracked.imp_right fun htracked => ?_⟩
      simp only [Tracked, hstage] at htracked
      exact ⟨hsteady.listed, htracked⟩
  | send list hstage =>
      refine ⟨?_, h.tracked.imp_right fun htracked => ?_⟩
      · rintro round other hprobing hconfirming
        obtain rfl := Stage.probing.inj hprobing
        cases hconfirming
      · simp only [Tracked, hstage] at htracked
        exact Or.inr (Or.inl htracked)
  | answered index answer round entry hstage hquiet hentry =>
      by_cases hhealth : entry.health = health
      · have hseen : probe answer = seen :=
          hsteady.folded _ ⟨round, index, entry, hstage, hquiet, hentry, hhealth, rfl⟩
        rw [hseen]
        exact h.answered hpaced hstage hquiet hentry hhealth
      · exact h.answered_other hstage hquiet hentry hhealth
  | lost index round hstage hquiet =>
      -- the probe that is lost is another upstream's
      have hprobing : health ∈ (round.probing.eraseIdx index).map UpstreamEntry.health ↔
          health ∈ round.probing.map UpstreamEntry.health :=
        mem_eraseIdx_of_ne fun entry hentry => hsteady.returned index round entry rfl hstage hentry
      refine ⟨?_, h.tracked.imp_right fun htracked => ?_⟩
      · rintro _ other hlost hconfirming
        obtain rfl := Stage.probing.inj hlost
        exact h.writes round other hstage hconfirming
      · simp only [Tracked, hstage] at htracked
        simpa only [Tracked, hprobing, HopEvent.closes, Bool.false_eq_true, if_false,
          Nat.add_zero] using htracked
  | confirm round judged writes hstage hconfirming =>
      have hwrites : judged = health → writes = seen := by
        rintro rfl
        exact h.writes round writes hstage hconfirming
      refine ⟨?_, ?_⟩
      · rintro _ other hprobing hnone
        obtain rfl := Stage.probing.inj hprobing
        cases hnone
      · by_cases hjudged : judged = health
        · subst hjudged
          refine Or.inl ?_
          simp only [HealthHandle.state, verdict_judge, if_true, Health.after_state]
          exact hwrites rfl
        · rcases (state_judge hwrites :
              health.state (hop.judge judged writes .probe round.started).cells =
                health.state hop.cells ∨ _) with hsame | hseen
          · refine h.tracked.imp hsame.trans fun htracked => ?_
            simp only [Tracked, hstage, hconfirming, Option.some.injEq, Prod.mk.injEq, hjudged,
              false_and, false_or] at htracked
            simp only [Tracked]
            exact Or.inr htracked
          · exact Or.inl hseen
  | close round hstage hquiet =>
      have hdone := probing_of_close hstage hstep
      refine ⟨by simp, h.tracked.imp_right fun htracked => ?_⟩
      simp only [Tracked, hstage, hquiet, hdone, reduceCtorEq, List.map_nil, List.not_mem_nil,
        false_and, not_false_eq_true, true_and, false_or] at htracked
      simp only [Tracked, HopEvent.closes]
      exact Or.inr ⟨by rw [htracked.1]; rfl, htracked.2⟩

end steps

/-- **Two rounds find out.** From any state in which the patrol is between two
rounds, an upstream that stays in the list in force, whose probes all return and see
the same, and of which no dial says otherwise, is judged so once two rounds have
ended. -/
theorem state_of_two_rounds (hold : ℕ) (now : ℤ) (health : HealthHandle) (seen : HealthState)
    (before hop : Hop) (events : List HopEvent)
    (hreach : (system hold).Reachable (start now) before)
    (hlooking : before.patrol.stage = .looking)
    (hrun : (system hold).run before events = some hop)
    (hsteady : ∀ s e s', (system hold).Takes before events s e s' → Steady health seen s e s')
    (htwo : 2 ≤ events.countP HopEvent.closes) : health.state hop.cells = seen := by
  have hwatched : (system hold).Reachable (start now) hop ∧
      Watching health seen (events.countP HopEvent.closes) hop := by
    refine System.invariant_of_schedule
      (I := fun events hop => (system hold).Reachable (start now) hop ∧
        Watching health seen (events.countP HopEvent.closes) hop)
      (C := fun s e => ∀ s', (system hold).step s e = some s' → Steady health seen s e s')
      ?_ ?_ hrun ?_
    · refine ⟨hreach, by simp [hlooking], Or.inr ?_⟩
      simp only [Tracked, hlooking]
      exact Or.inl rfl
    · rintro events s event s' ⟨hs, hwatching⟩ hcond hstep
      refine ⟨hs.snoc hstep, ?_⟩
      rw [List.countP_append, List.countP_singleton]
      exact watching_step hwatching (paced_of_reachable hs) (tenured_of_reachable hs)
        (hcond s' hstep) hstep
    · intro s event s' htakes s'' hstep
      obtain rfl := Option.some.inj (htakes.step.symm.trans hstep)
      exact hsteady _ _ _ htakes
  rcases hwatched.2.tracked with hseen | htracked
  · exact hseen
  · cases hstage : hop.patrol.stage with
    | looking =>
        simp only [Tracked, hstage] at htracked
        omega
    | entering list =>
        simp only [Tracked, hstage] at htracked
        omega
    | probing round =>
        simp only [Tracked, hstage] at htracked
        omega

/-! ### The dials that follow -/

/-- The entry a dial goes through. -/
def dialledEntry (list : UpstreamEntries) (cells : Verdicts) (now : ℤ) (hold : ℕ) :
    Decision → Option UpstreamEntry
  | .upstream .require _ => list.required (list.selected cells now hold)
  | .upstream .prefer _ => list.get (list.selected cells now hold)
  | .upstream .never _ | .direct | .never _ => none

section dials

variable {net : Network} {list : Arc UpstreamEntries} {cells : Verdicts} {now : ℤ} {hold : ℕ}
  {host : Host} {port : Port} {decision : Decision} {rule : RuleId} {entry : UpstreamEntry}

theorem upstreamsOf_required (dialled : Option UpstreamEntry) :
    upstreamsOf (required net host port rule dialled).2 =
      (dialled.map fun entry => entry.upstream.socket).toList := by
  cases dialled with
  | none => rfl
  | some entry =>
      obtain ⟨verdicts, heffects, hverdicts⟩ := required_effects net host port rule entry
      rw [heffects]
      rcases hverdicts with rfl | rfl | ⟨rfl, _⟩ <;> rfl

theorem upstreamsOf_preferred (selected : Option UpstreamEntry) :
    upstreamsOf (preferred net host port selected).2 =
      (selected.map fun entry => entry.upstream.socket).toList := by
  cases selected with
  | none => rfl
  | some entry =>
      unfold preferred
      simp only [through_effects, fallenBack, direct]
      split <;> rfl

/-- **A dial goes through the one entry its decision calls for.** -/
theorem upstreamsOf_dial : upstreamsOf (dial net list cells now hold host port decision).2 =
    ((dialledEntry list.val cells now hold decision).map
      fun entry => entry.upstream.socket).toList := by
  cases decision with
  | direct => rfl
  | never rule => rfl
  | upstream ruleClass rule =>
      cases ruleClass with
      | require => exact upstreamsOf_required _
      | prefer => exact upstreamsOf_preferred _
      | never => rfl

theorem mem_of_dialledEntry (h : dialledEntry list.val cells now hold decision = some entry) :
    entry ∈ list.val.entries := by
  cases decision with
  | direct => cases h
  | never rule => cases h
  | upstream ruleClass rule =>
      cases ruleClass with
      | require => exact mem_of_required h
      | prefer => exact mem_of_get h
      | never => cases h

theorem state_of_get (h : list.val.get (list.val.selected cells now hold) = some entry) :
    entry.health.state cells = .up := by
  obtain ⟨index, hselected, hentry⟩ := Option.bind_eq_some_iff.mp h
  obtain ⟨verdict, hverdict, hup⟩ := select_up hselected
  rw [UpstreamEntries.getElem?_verdicts, hentry] at hverdict
  obtain rfl := Option.some.inj hverdict
  exact hup

theorem get_selected_eq_none : list.val.get (list.val.selected cells now hold) = none ↔
    ∀ entry ∈ list.val.entries, entry.health.state cells = .down := by
  have hnone : list.val.selected cells now hold = none ↔
      ∀ entry ∈ list.val.entries, entry.health.state cells = .down := by
    unfold UpstreamEntries.selected
    rw [select_eq_none]
    simp [UpstreamEntries.verdicts, HealthHandle.state]
  rw [← hnone]
  cases hselected : list.val.selected cells now hold with
  | none => simp
  | some index =>
      obtain ⟨verdict, hverdict, _⟩ := select_up hselected
      rw [UpstreamEntries.getElem?_verdicts] at hverdict
      obtain ⟨entry, hentry, _⟩ := Option.map_eq_some_iff.mp hverdict
      simp [UpstreamEntries.get_some, hentry]

/-- A dial through an entry that is down is a `require` one, made while all are. -/
theorem dialled_down (h : dialledEntry list.val cells now hold decision = some entry)
    (hdown : entry.health.state cells = .down) :
    (∃ rule, decision = .upstream .require rule) ∧ list.val.entries.head? = some entry ∧
      ∀ other ∈ list.val.entries, other.health.state cells = .down := by
  have hnot : list.val.get (list.val.selected cells now hold) ≠ some entry := by
    intro hget
    rw [state_of_get hget] at hdown
    cases hdown
  cases decision with
  | direct => cases h
  | never rule => cases h
  | upstream ruleClass rule =>
      cases ruleClass with
      | never => cases h
      | prefer => exact absurd h hnot
      | require =>
          have hrequired : (selectedEntry list cells now hold <|> list.val.entries.head?) =
              some entry := by
            rw [← required_eq]
            exact h
          unfold selectedEntry at hrequired
          cases hget : list.val.get (list.val.selected cells now hold) with
          | some selected =>
              rw [hget] at hrequired hnot
              exact absurd hrequired hnot
          | none =>
              rw [hget] at hrequired
              exact ⟨⟨rule, rfl⟩, hrequired, get_selected_eq_none.mp hget⟩

theorem dialled_up {ruleClass : RuleClass} (hmem : entry ∈ list.val.entries)
    (hup : entry.health.state cells = .up) (hclass : ruleClass ≠ .never) :
    ∃ used, dialledEntry list.val cells now hold (.upstream ruleClass rule) = some used ∧
      list.val.get (list.val.selected cells now hold) = some used := by
  obtain ⟨used, hused⟩ : ∃ used, list.val.get (list.val.selected cells now hold) = some used := by
    refine Option.ne_none_iff_exists'.mp fun hnone => ?_
    rw [get_selected_eq_none.mp hnone entry hmem] at hup
    cases hup
  refine ⟨used, ?_, hused⟩
  cases ruleClass with
  | never => exact absurd rfl hclass
  | prefer => exact hused
  | require => simp [dialledEntry, UpstreamEntries.required, hused]

theorem get_of_held (hfirst : list.val.entries.head? = some entry)
    (hheld : (entry.health.verdict cells).Holds now hold) :
    list.val.get (list.val.selected cells now hold) = some entry := by
  have hentry : list.val.entries[0]? = some entry := by rw [← List.head?_eq_getElem?, hfirst]
  have hselected : list.val.selected cells now hold = some 0 := by
    refine select_of_firstHeld ⟨⟨entry.health.verdict cells, ?_, ?_⟩, fun j b hlt => ?_⟩
    · rw [UpstreamEntries.getElem?_verdicts, hentry, Option.map_some]
    · exact Health.holds_iff_stamp.mp hheld
    · omega
  rw [hselected, UpstreamEntries.get_some, hentry]

end dials

/-- **Two rounds find out, and the dials follow.** From any state in which the patrol
is between two rounds, an upstream that stays in the list in force, whose probes all
return and see the same, and of which no dial says otherwise, is judged so once two
rounds have ended. If it is gone, no dial goes through it then, but the one a `require`
rule calls for while it is the first and none is up. If it serves, no dial a `require` or
`prefer` rule calls for goes through one that is down, or through none; and once it has
held, and is the first, every such dial goes through it. -/
theorem detected_in_two_rounds (hold : ℕ) (now : ℤ) (health : HealthHandle) (seen : HealthState)
    (before hop : Hop) (events : List HopEvent)
    (hreach : (system hold).Reachable (start now) before)
    (hlooking : before.patrol.stage = .looking)
    (hrun : (system hold).run before events = some hop)
    (hsteady : ∀ s e s', (system hold).Takes before events s e s' → Steady health seen s e s')
    (htwo : 2 ≤ events.countP HopEvent.closes) :
    health.state hop.cells = seen ∧
    ∀ net host port decision, ∀ entry ∈ hop.live.val.entries, entry.health = health →
      let dialled := upstreamsOf (dial net hop.live hop.cells hop.now hold host port decision).2
      (seen = .down → entry.upstream.socket ∈ dialled →
        (∃ rule, decision = .upstream .require rule) ∧
          hop.live.val.entries.head? = some entry ∧
          ∀ other ∈ hop.live.val.entries, other.health.state hop.cells = .down) ∧
      (seen = .up → ∀ ruleClass rule, decision = .upstream ruleClass rule →
        ruleClass ≠ .never → ∃ used ∈ hop.live.val.entries,
          dialled = [used.upstream.socket] ∧ used.health.state hop.cells = .up ∧
          (hop.live.val.entries.head? = some entry →
            (health.verdict hop.cells).Holds hop.now hold → used = entry)) := by
  have hstate : health.state hop.cells = seen :=
    state_of_two_rounds hold now health seen before hop events hreach hlooking hrun hsteady htwo
  refine ⟨hstate, fun net host port decision entry hmem hhealth => ⟨?_, ?_⟩⟩
  · intro hseen hdialled
    rw [upstreamsOf_dial, Option.mem_toList, Option.map_eq_some_iff] at hdialled
    obtain ⟨used, hused, hsocket⟩ := hdialled
    obtain rfl : used = entry :=
      List.inj_on_of_nodup_map hop.live.val.distinct (mem_of_dialledEntry hused) hmem hsocket
    exact dialled_down hused (by rw [hhealth, hstate, hseen])
  · rintro hseen ruleClass rule rfl hclass
    obtain ⟨used, hused, hget⟩ := dialled_up hmem (by rw [hhealth, hstate, hseen]) hclass
    refine ⟨used, mem_of_get hget, ?_, state_of_get hget, fun hfirst hheld => ?_⟩
    · rw [upstreamsOf_dial, hused]
      rfl
    · rw [get_of_held hfirst (by rw [hhealth]; exact hheld)] at hget
      exact (Option.some.inj hget).symm

/-- A step that is neither a dial nor a lost probe, names the upstream and folds in
nothing but `seen`. -/
def steadyAt (hold : ℕ) (health : HealthHandle) (seen : HealthState) (hop : Hop)
    (event : HopEvent) : Bool :=
  match event with
  | .lost _ | .dialled _ _ _ => false
  | _ => decide (health ∈ hop.live.val.entries.map UpstreamEntry.health) &&
      (step hold hop event).all fun hop' =>
        (hop'.folds.drop hop.folds.length).all fun fold => fold.seen == seen

theorem steady_of_steadyAt {hold : ℕ} {health : HealthHandle} {seen : HealthState}
    {hop hop' : Hop} {event : HopEvent} (h : steadyAt hold health seen hop event = true)
    (hstep : step hold hop event = some hop') : Steady health seen hop event hop' := by
  cases event with
  | lost index => cases h
  | dialled k index state => cases h
  | clock | publish | observe | look | wake | send | answered | confirm | close =>
      simp only [steadyAt, hstep, Option.all_some, Bool.and_eq_true, decide_eq_true_eq] at h
      refine ⟨h.1, ?_, by simp, by simp⟩
      rintro other ⟨round, index, entry, _, _, _, _, rfl⟩
      simpa [Hop.fold] using h.2

/-- An upstream that a dial found serving is gone for two rounds. -/
def goneForTwoRounds : List HopEvent :=
  [.wake, .send, .answered 0 none, .close, .wake, .send, .answered 0 none, .confirm, .close]

theorem detected_in_two_rounds_gone : ∃ (before hop : Hop) (entry : UpstreamEntry),
    (system 5).run (start 0) [.publish listA, .dialled 1 0 .up] = some before ∧
      (system 5).run before goneForTwoRounds = some hop ∧
      entry ∈ hop.live.val.entries ∧ entry.health.state before.cells = .up ∧
      ∀ net host port rule, entry.upstream.socket ∉
        upstreamsOf (dial net hop.live hop.cells hop.now 5 host port (.upstream .prefer rule)).2 := by
  have hchecks : ((system 5).run (start 0) [.publish listA, .dialled 1 0 .up]).any (fun before =>
      ((system 5).run before goneForTwoRounds).any (fun hop =>
        hop.live.val.entries.head?.any fun entry =>
          entry.health == ⟨0⟩ && (⟨0⟩ : HealthHandle).state before.cells == .up) &&
        (system 5).every (steadyAt 5 ⟨0⟩ .down) before goneForTwoRounds &&
        before.patrol.stage == .looking) = true := by
    decide +kernel
  simp only [Option.any_eq_true, Bool.and_eq_true, beq_iff_eq] at hchecks
  obtain ⟨before, hbefore, ⟨⟨hop, hrun, entry, hfirst, hhealth, hup⟩, hevery⟩, hlooking⟩ := hchecks
  have hmem : entry ∈ hop.live.val.entries := List.mem_of_head? hfirst
  refine ⟨before, hop, entry, hbefore, hrun, hmem, by rw [hhealth]; exact hup, ?_⟩
  intro net host port rule hdialled
  have hdetected := detected_in_two_rounds 5 0 ⟨0⟩ .down before hop goneForTwoRounds ⟨_, hbefore⟩
    hlooking hrun (fun s e s' ht => steady_of_steadyAt (System.Takes.of_every hevery ht) ht.step)
    (by decide)
  obtain ⟨⟨other, hother⟩, _⟩ :=
    (hdetected.2 net host port (.upstream .prefer rule) entry hmem hhealth).1 rfl hdialled
  cases hother

end Hop

end Nhop.Upstream
