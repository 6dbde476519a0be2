import Nhop.Upstream.SwitchLog

/-!
Whether a switch is logged with the cause it has.

The cause is made up after the fact, from the selection recorded before, the one
being recorded and the verdict of the former as it is now. Two histories look
alike from there: a verdict stamped by a round that started earlier can put a
lower-ranked entry before the selected one without anything having gone down,
and one that went down and came back between two observations can hide why a
higher-ranked entry took over. `Misread` says when an observation meets such a
history, in terms of the verdicts alone, and these are the only observations
that log a cause the run does not bear out.
-/

namespace Nhop.Upstream

open Foundation Ipc Proxy

/-- The verdicts an observation can misread, the entry at `p` having been
selected before. The entry is up; and either it stayed up, no entry down to it
has held, and one that is up goes before it by its instant, or it has been down
since, none has held, and the one up longest is ranked above it. -/
def Misreads (verdicts : List Health) (now : ℤ) (hold p : ℕ) (fell : Prop) : Prop :=
  ∃ a, verdicts[p]? = some a ∧ a.state = .up ∧
    ((¬fell ∧ (∀ (i : ℕ) (v : Health), i ≤ p → verdicts[i]? = some v → ¬v.Holds now hold) ∧
      ∃ j b, verdicts[j]? = some b ∧ b.state = .up ∧
        (b.changedAt < a.changedAt ∨ b.changedAt = a.changedAt ∧ j < p)) ∨
    (fell ∧ (∀ (i : ℕ) (v : Health), verdicts[i]? = some v → ¬v.Holds now hold) ∧
      ∃ j b, j < p ∧ verdicts[j]? = some b ∧ b.state = .up ∧
        ∀ i v, verdicts[i]? = some v → v.state = .up →
          b.changedAt < v.changedAt ∨ b.changedAt = v.changedAt ∧ j ≤ i))

section verdicts

variable {verdicts : List Health} {now : ℤ} {hold p j : ℕ} {a b : Health} {fell : Prop}

theorem unheld_of_select (hsel : select verdicts now hold = some j) (hb : verdicts[j]? = some b)
    {i : ℕ} {v : Health} (hv : verdicts[i]? = some v) (hheld : v.Holds now hold) :
    b.Holds now hold ∧ j ≤ i := by
  by_cases hij : j = i
  · subst hij
    obtain rfl := Option.some.inj (hb.symm.trans hv)
    exact ⟨hheld, le_rfl⟩
  · rcases select_precedes hsel hb hv hheld.1 hij with ⟨hbheld, hnot | hlt⟩ | ⟨_, hnot, _⟩
    · exact absurd hheld hnot
    · exact ⟨hbheld, hlt.le⟩
    · exact absurd hheld hnot

/-- An entry that stayed up is misread exactly when it lost to one that is not a
higher-ranked entry that has held. -/
theorem misreads_stayed (hsel : select verdicts now hold = some j) (hb : verdicts[j]? = some b)
    (ha : verdicts[p]? = some a) (hup : a.state = .up) (hstayed : ¬fell) :
    Misreads verdicts now hold p fell ↔ j ≠ p ∧ ¬(j < p ∧ b.Holds now hold) := by
  constructor
  · rintro ⟨a', ha', _, ⟨_, hunheld, i, v, hv, hvup, hbefore⟩ | ⟨hfell, _⟩⟩
    · obtain rfl := Option.some.inj (ha.symm.trans ha')
      refine ⟨?_, fun ⟨hlt, hheld⟩ => hunheld j b hlt.le hb hheld⟩
      rintro rfl
      obtain rfl := Option.some.inj (ha.symm.trans hb)
      have hne : j ≠ i := by
        rintro rfl
        obtain rfl := Option.some.inj (ha.symm.trans hv)
        omega
      rcases select_precedes hsel ha hv hvup hne with ⟨hheld, _⟩ | ⟨_, _, hlt⟩
      · exact hunheld j a le_rfl ha hheld
      · omega
    · exact absurd hfell hstayed
  · rintro ⟨hne, hnot⟩
    refine ⟨a, ha, hup, Or.inl ⟨hstayed, fun i v hi hv hheld => ?_, ?_⟩⟩
    · obtain ⟨hbheld, hle⟩ := unheld_of_select hsel hb hv hheld
      exact hnot ⟨by omega, hbheld⟩
    · obtain ⟨_, hb', hbup⟩ := select_up hsel
      obtain rfl := Option.some.inj (hb'.symm.trans hb)
      have hprecedes := select_precedes hsel hb ha hup hne
      refine ⟨j, _, hb, hbup, ?_⟩
      rcases hprecedes with ⟨hheld, _⟩ | ⟨_, _, hbefore⟩
      · have hlt : p < j := by
          by_contra hge
          exact hnot ⟨by omega, hheld⟩
        exact Or.inl (Precedes.stamp (Or.inl ⟨hheld, by assumption⟩) hup hlt)
      · exact hbefore

/-- An entry that went down and came back is misread exactly when it lost to a
higher-ranked entry that has not held. -/
theorem misreads_fell (hsel : select verdicts now hold = some j) (hb : verdicts[j]? = some b)
    (ha : verdicts[p]? = some a) (hup : a.state = .up) (hfell : fell) :
    Misreads verdicts now hold p fell ↔ j < p ∧ ¬b.Holds now hold := by
  obtain ⟨_, hb', hbup⟩ := select_up hsel
  obtain rfl := Option.some.inj (hb'.symm.trans hb)
  constructor
  · rintro ⟨_, _, _, ⟨hstayed, _⟩ | ⟨_, hunheld, i, v, hip, hv, hvup, hfirst⟩⟩
    · exact absurd hfell hstayed
    · have hij : j = i := by
        by_contra hne
        have hvb := hfirst j _ hb hbup
        rcases select_precedes hsel hb hv hvup hne with ⟨hheld, _⟩ | ⟨_, _, hbefore⟩
        · exact hunheld j _ hb hheld
        · omega
      exact ⟨by omega, hunheld j _ hb⟩
  · rintro ⟨hlt, hnot⟩
    refine ⟨a, ha, hup, Or.inr ⟨hfell, fun i v hv hheld => ?_, j, _, hlt, hb, hbup, ?_⟩⟩
    · exact hnot (unheld_of_select hsel hb hv hheld).1
    · intro i v hv hvup
      by_cases hij : j = i
      · subst hij
        obtain rfl := Option.some.inj (hb.symm.trans hv)
        exact Or.inr ⟨rfl, le_rfl⟩
      · rcases select_precedes hsel hb hv hvup hij with ⟨hheld, _⟩ | ⟨_, _, hbefore⟩
        · exact absurd hheld hnot
        · omega

end verdicts

namespace HopEvent

/-- The event neither publishes a list nor records a selection made from an
older one: observations are made at once, from the list in force. -/
def OnOneList : HopEvent → Prop
  | .publish _ | .observe _ _ => False
  | .clock _ | .dialled _ _ _ | .look | .wake | .send | .answered _ _ | .lost _ | .confirm
  | .close => True

end HopEvent

namespace Hop

/-- What a switch logged at this moment with this cause says is the case. -/
def Truthful (hold : ℕ) (hop : Hop) (cause : SwitchCause) : Prop :=
  match cause with
  | .held => ∃ p j entry, hop.observed.selected = some p ∧
      hop.live.val.selected hop.cells hop.now hold = some j ∧ j < p ∧
      hop.live.val.entries[j]? = some entry ∧
      (entry.health.verdict hop.cells).Holds hop.now hold
  | .down => ∃ p entry, hop.observed.selected = some p ∧
      hop.observed.list.val.entries[p]? = some entry ∧ entry.health ∈ hop.downs
  | .recovered => hop.observed.selected = none
  | .reload => True

/-- The entry at `p` has been down since the selection was last recorded. -/
def Fell (hop : Hop) (p : ℕ) : Prop :=
  ∃ entry, hop.live.val.entries[p]? = some entry ∧ entry.health ∈ hop.downs

/-- An observation made now would misread the verdicts. -/
def Misread (hold : ℕ) (hop : Hop) : Prop :=
  ∃ p, hop.observed.selected = some p ∧ hop.observed.list = hop.live ∧
    Misreads (hop.live.val.verdicts hop.cells) hop.now hold p (hop.Fell p)

/-- Since the list in force was published, the selection recorded is one of an
older list, or one of this list whose entry is still up or has been down since. -/
structure Watched (hop : Hop) : Prop where
  fresh : hop.live.val.publishedBefore hop.observed.list.val = false
  watched : hop.observed.list.ptr ≠ hop.live.ptr ∨
    hop.observed.list = hop.live ∧ ∀ p, hop.observed.selected = some p →
      ∃ entry, hop.live.val.entries[p]? = some entry ∧
        (entry.health.state hop.cells = .up ∨ entry.health ∈ hop.downs)

section steps

variable {hold : ℕ} {hop hop' : Hop} {event : HopEvent}

theorem watched_publish {now : ℤ} (h : (system hold).Reachable (start now) hop)
    (next : Upstreams) : (hop.publish next).Watched := by
  have hreach : (system hold).Reachable (start now) (hop.publish next) :=
    h.snoc (e := .publish next) rfl
  have hnumbered := numbered_of_reachable hreach
  refine ⟨?_, Or.inl ?_⟩
  · refine hnumbered.fresh history_live fun r hr => ?_
    have hlength := (List.getElem?_eq_some_iff.mp hr).1
    rw [length_history] at hlength
    omega
  · have hlive := (numbered_of_reachable h).ptr _ _ history_live
    change hop.observed.list.ptr ≠ hop.live.ptr + 1
    rcases (numbered_of_reachable h).recorded with hmem | hfirst
    · obtain ⟨r, hr⟩ := List.getElem?_of_mem hmem
      have hlength := (List.getElem?_eq_some_iff.mp hr).1
      rw [length_history] at hlength
      have hptr := (numbered_of_reachable h).ptr r _ hr
      omega
    · rw [hfirst]
      simp

theorem Watched.frame (h : hop.Watched) (hlive : hop'.live = hop.live)
    (hobserved : hop'.observed = hop.observed) (hcells : hop'.cells = hop.cells)
    (hdowns : hop'.downs = hop.downs) : hop'.Watched := by
  refine ⟨?_, ?_⟩
  · rw [hlive, hobserved]
    exact h.fresh
  · rw [hlive, hobserved, hcells, hdowns]
    exact h.watched

/-- A verdict written keeps watch: the recorded entry goes down only by being
noted. -/
theorem Watched.judge (h : hop.Watched) (health : HealthHandle) (state : HealthState)
    (cause : VerdictCause) (stamp : ℤ) : (hop.judge health state cause stamp).Watched := by
  refine ⟨h.fresh, ?_⟩
  rcases h.watched with hother | ⟨hsame, hentries⟩
  · exact Or.inl hother
  · refine Or.inr ⟨hsame, fun p hp => ?_⟩
    obtain ⟨entry, hentry, hup | hdown⟩ := hentries p hp
    · refine ⟨entry, hentry, ?_⟩
      simp only [HealthHandle.state, verdict_judge]
      by_cases heq : entry.health = health
      · subst heq
        cases state with
        | up => simp
        | down => simp [Hop.judge, hup]
      · rw [if_neg heq]
        exact Or.inl hup
    · refine ⟨entry, hentry, Or.inr ?_⟩
      simp only [Hop.judge]
      split
      · exact List.mem_cons_of_mem _ hdown
      · exact hdown

theorem Watched.look (h : hop.Watched) :
    (hop.record hop.live (hop.live.val.selected hop.cells hop.now hold)).Watched := by
  have hobserved :
      (hop.record hop.live (hop.live.val.selected hop.cells hop.now hold)).observed =
        ⟨hop.live, hop.live.val.selected hop.cells hop.now hold⟩ := record_observed h.fresh
  refine ⟨?_, Or.inr ?_⟩
  · rw [hobserved]
    simp [UpstreamEntries.publishedBefore, Hop.record]
  · rw [hobserved]
    refine ⟨rfl, fun p hp => ?_⟩
    obtain ⟨verdict, hverdict, hup⟩ := select_up hp
    rw [UpstreamEntries.getElem?_verdicts] at hverdict
    obtain ⟨entry, hentry, rfl⟩ := Option.map_eq_some_iff.mp hverdict
    exact ⟨entry, hentry, Or.inl hup⟩

theorem watched_step (h : hop.Watched) (hone : event.OnOneList)
    (hstep : Steps hold hop event hop') : hop'.Watched := by
  cases hstep with
  | publish next => cases hone
  | observe k selected list hlist => cases hone
  | look => exact h.look
  | dialled k index state list entry hlist hentry => exact h.judge _ _ _ _
  | confirm round health seen hstage hconfirming =>
      exact (h.judge health seen .probe round.started).frame rfl rfl rfl rfl
  | clock now => exact h.frame rfl rfl rfl rfl
  | idle hstage hempty => exact h.frame rfl rfl rfl rfl
  | wake hstage => exact h.frame rfl rfl rfl rfl
  | send list hstage => exact h.frame rfl rfl rfl rfl
  | answered index answer round entry hstage hquiet hentry => exact h.frame rfl rfl rfl rfl
  | lost index round hstage hquiet => exact h.frame rfl rfl rfl rfl
  | close round hstage hquiet => exact h.frame rfl rfl rfl rfl

theorem record_cause {list : Arc UpstreamEntries} {selected : Option ℕ} {move : Switch}
    (hfresh : list.val.publishedBefore hop.observed.list.val = false)
    (hmove : (hop.record list selected).switches = hop.switches ++ [move]) :
    hop.recordedSocket ≠ socketAt list.val selected ∧
      move.cause = if hop.observed.list.ptrEq list then
        switchCause list.val hop.observed.selected selected hop.cells else .reload := by
  have hmoved : hop.recordedSocket ≠ socketAt list.val selected := by
    intro hsame
    rw [record_same hsame] at hmove
    simp at hmove
  refine ⟨hmoved, ?_⟩
  simp only [record, switched_moved hfresh hmoved, Option.toList_some] at hmove
  rw [← List.singleton_inj.mp (List.append_cancel_left hmove)]

theorem switchCause_up {list : UpstreamEntries} {cells : Verdicts} {p j : ℕ}
    {entry : UpstreamEntry} (hentry : list.entries[p]? = some entry)
    (hup : entry.health.state cells = .up) :
    switchCause list (some p) (some j) cells = if j < p then .held else .down := by
  simp [switchCause, hentry, hup]

theorem switchCause_down {list : UpstreamEntries} {cells : Verdicts} {p : ℕ}
    {new : Option ℕ} {entry : UpstreamEntry} (hentry : list.entries[p]? = some entry)
    (hdown : entry.health.state cells = .down) :
    switchCause list (some p) new cells = .down := by
  simp [switchCause, hentry, hdown]

section observation

variable {p : ℕ} {entry : UpstreamEntry}

theorem fell_iff (hentry : hop.live.val.entries[p]? = some entry) :
    hop.Fell p ↔ entry.health ∈ hop.downs := by
  constructor
  · rintro ⟨entry', hentry', hmem⟩
    obtain rfl := Option.some.inj (hentry.symm.trans hentry')
    exact hmem
  · exact fun hmem => ⟨entry, hentry, hmem⟩

theorem truthful_down_iff (hprevious : hop.observed.selected = some p)
    (hsame : hop.observed.list = hop.live) : hop.Truthful hold .down ↔ hop.Fell p := by
  constructor
  · rintro ⟨p', entry, hp', hentry, hmem⟩
    rw [hprevious] at hp'
    obtain rfl := Option.some.inj hp'
    exact ⟨entry, by rw [← hsame]; exact hentry, hmem⟩
  · rintro ⟨entry, hentry, hmem⟩
    exact ⟨p, entry, hprevious, by rw [hsame]; exact hentry, hmem⟩

theorem truthful_held_iff {j : ℕ} {b : Health} (hprevious : hop.observed.selected = some p)
    (hsel : hop.live.val.selected hop.cells hop.now hold = some j)
    (hb : (hop.live.val.verdicts hop.cells)[j]? = some b) :
    hop.Truthful hold .held ↔ j < p ∧ b.Holds hop.now hold := by
  rw [UpstreamEntries.getElem?_verdicts] at hb
  obtain ⟨entry, hentry, rfl⟩ := Option.map_eq_some_iff.mp hb
  constructor
  · rintro ⟨p', j', entry', hp', hj', hlt, hentry', hheld⟩
    rw [hprevious] at hp'
    rw [hsel] at hj'
    obtain rfl := Option.some.inj hp'
    obtain rfl := Option.some.inj hj'
    obtain rfl := Option.some.inj (hentry.symm.trans hentry')
    exact ⟨hlt, hheld⟩
  · rintro ⟨hlt, hheld⟩
    exact ⟨p, j, entry, hprevious, hsel, hlt, hentry, hheld⟩

/-- When the recorded entry is up, a switch is logged when another one is
selected, as `held` or `down` by their order. -/
theorem look_logs {j : ℕ} {cause : SwitchCause} (h : hop.Watched)
    (hprevious : hop.observed.selected = some p) (hsame : hop.observed.list = hop.live)
    (hentry : hop.live.val.entries[p]? = some entry) (hup : entry.health.state hop.cells = .up)
    (hsel : hop.live.val.selected hop.cells hop.now hold = some j) :
    (∃ move, (hop.record hop.live (hop.live.val.selected hop.cells hop.now hold)).switches =
        hop.switches ++ [move] ∧ move.cause = cause) ↔
      j ≠ p ∧ cause = if j < p then .held else .down := by
  have hptr : hop.observed.list.ptrEq hop.live = true := by simp [Arc.ptrEq, hsame]
  have hcause : ∀ move,
      (hop.record hop.live (hop.live.val.selected hop.cells hop.now hold)).switches =
        hop.switches ++ [move] → j ≠ p ∧ move.cause = if j < p then .held else .down := by
    intro move hmove
    obtain ⟨hmoved, hcause⟩ := record_cause h.fresh hmove
    rw [if_pos hptr, hprevious, hsel, switchCause_up hentry hup] at hcause
    refine ⟨?_, hcause⟩
    rintro rfl
    rw [recordedSocket, hprevious, hsame, hsel] at hmoved
    exact hmoved rfl
  constructor
  · rintro ⟨move, hmove, rfl⟩
    exact hcause move hmove
  · rintro ⟨hne, rfl⟩
    have hmoved : hop.recordedSocket ≠ socketAt hop.live.val (some j) := by
      rw [recordedSocket, hprevious, hsame]
      intro hsockets
      exact hne (socketAt_injective (List.getElem?_eq_some_iff.mp hentry).1 hsockets).symm
    obtain ⟨move, hmove, _⟩ := record_moved h.fresh hmoved
    rw [← hsel] at hmove
    exact ⟨move, hmove, (hcause move hmove).2⟩

/-- When the recorded entry is up, the cause logged is the case unless the
verdicts are misread. -/
theorem look_truthful_up (h : hop.Watched) (hprevious : hop.observed.selected = some p)
    (hsame : hop.observed.list = hop.live) (hentry : hop.live.val.entries[p]? = some entry)
    (hup : entry.health.state hop.cells = .up) :
    (∀ move, (hop.record hop.live (hop.live.val.selected hop.cells hop.now hold)).switches =
        hop.switches ++ [move] → hop.Truthful hold move.cause) ↔
      ¬Misreads (hop.live.val.verdicts hop.cells) hop.now hold p (hop.Fell p) := by
  have hverdict : (hop.live.val.verdicts hop.cells)[p]? =
      some (entry.health.verdict hop.cells) := by
    rw [UpstreamEntries.getElem?_verdicts, hentry]
    rfl
  obtain ⟨j, hsel⟩ : ∃ j, hop.live.val.selected hop.cells hop.now hold = some j :=
    select_isSome_of_up hverdict hup
  obtain ⟨b, hb, _⟩ := select_up hsel
  have hlogs : (∀ move,
      (hop.record hop.live (hop.live.val.selected hop.cells hop.now hold)).switches =
        hop.switches ++ [move] → hop.Truthful hold move.cause) ↔
      (j ≠ p → hop.Truthful hold (if j < p then .held else .down)) := by
    constructor
    · intro htruth hne
      obtain ⟨move, hmove, hcause⟩ :=
        (look_logs h hprevious hsame hentry hup hsel).mpr ⟨hne, rfl⟩
      rw [← hcause]
      exact htruth move hmove
    · intro htruth move hmove
      obtain ⟨hne, hcause⟩ :=
        (look_logs h hprevious hsame hentry hup hsel).mp ⟨move, hmove, rfl⟩
      rw [hcause]
      exact htruth hne
  have hheld : hop.Truthful hold .held ↔ j < p ∧ b.Holds hop.now hold :=
    truthful_held_iff hprevious hsel hb
  have hdown : hop.Truthful hold .down ↔ hop.Fell p := truthful_down_iff hprevious hsame
  rw [hlogs]
  -- the cause is read off the two positions, so whether the entry fell in between decides
  by_cases hfell : hop.Fell p
  · rw [misreads_fell hsel hb hverdict hup hfell]
    split
    · rw [hheld]
      constructor
      · exact fun htruth hmiss => hmiss.2 (htruth (by omega)).2
      · exact fun hmiss _ => ⟨by assumption, by_contra fun hnot => hmiss ⟨by assumption, hnot⟩⟩
    · exact iff_of_true (fun _ => hdown.mpr hfell) (fun hmiss => by omega)
  · rw [misreads_stayed hsel hb hverdict hup hfell, not_and, not_not]
    refine imp_congr_right fun _ => ?_
    split
    · exact hheld
    · rw [hdown]
      exact iff_of_false hfell (fun hmiss => by omega)

end observation

/-- **An observation logs a cause that is not the case exactly when it misreads
the verdicts.** -/
theorem look_truthful_iff (h : hop.Watched) :
    (∀ move, (hop.record hop.live (hop.live.val.selected hop.cells hop.now hold)).switches =
        hop.switches ++ [move] → hop.Truthful hold move.cause) ↔ ¬hop.Misread hold := by
  rcases h.watched with hother | ⟨hsame, hentries⟩
  · refine iff_of_true (fun move hmove => ?_) ?_
    · rw [(record_cause h.fresh hmove).2, if_neg (by simpa [Arc.ptrEq] using hother)]
      trivial
    · rintro ⟨p, _, hlist, _⟩
      exact hother (by rw [hlist])
  have hptr : hop.observed.list.ptrEq hop.live = true := by simp [Arc.ptrEq, hsame]
  cases hprevious : hop.observed.selected with
  | none =>
      refine iff_of_true (fun move hmove => ?_) ?_
      · rw [(record_cause h.fresh hmove).2, if_pos hptr, hprevious]
        exact hprevious
      · rintro ⟨p, hp, _⟩
        rw [hprevious] at hp
        cases hp
  | some p =>
      obtain ⟨entry, hentry, hseen⟩ := hentries p hprevious
      have hmisread : hop.Misread hold ↔
          Misreads (hop.live.val.verdicts hop.cells) hop.now hold p (hop.Fell p) := by
        constructor
        · rintro ⟨p', hp', _, hreads⟩
          rw [hprevious] at hp'
          obtain rfl := Option.some.inj hp'
          exact hreads
        · exact fun hreads => ⟨p, hprevious, hsame, hreads⟩
      rw [hmisread]
      cases hstate : entry.health.state hop.cells with
      | up => exact look_truthful_up h hprevious hsame hentry hstate
      | down =>
          refine iff_of_true (fun move hmove => ?_) ?_
          · rw [(record_cause h.fresh hmove).2, if_pos hptr, hprevious,
              switchCause_down hentry hstate, truthful_down_iff hprevious hsame, fell_iff hentry]
            rcases hseen with hup | hdown
            · exact absurd (hstate.symm.trans hup) (by decide)
            · exact hdown
          · rintro ⟨a, ha, hup, _⟩
            rw [UpstreamEntries.getElem?_verdicts, hentry] at ha
            obtain rfl := Option.some.inj ha
            exact absurd (hstate.symm.trans hup) (by decide)

end steps

/-- The clock does not move back over a schedule that starts at `now`. -/
def ClockForward (now : ℤ) : List HopEvent → Prop
  | [] => True
  | .clock later :: events => now ≤ later ∧ ClockForward later events
  | _ :: events => ClockForward now events

/-- Every switch logged while the list just published is in force is logged with
a cause that is the case. -/
def CausesTruthful (hold : ℕ) (published : Hop) (events : List HopEvent) : Prop :=
  ∀ hop hop' move, (system hold).Takes published events hop .look hop' →
    hop'.switches = hop.switches ++ [move] → hop.Truthful hold move.cause

/-- **The causes logged are the case exactly in the runs no observation of which
misreads the verdicts.** -/
theorem causes_truthful_iff (hold : ℕ) (now : ℤ) (before : Hop) (next : Upstreams)
    (events : List HopEvent) (h : (system hold).Reachable (start now) before)
    (hone : ∀ event ∈ events, event.OnOneList) :
    CausesTruthful hold (before.publish next) events ↔
      ∀ hop hop', (system hold).Takes (before.publish next) events hop .look hop' →
        ¬hop.Misread hold := by
  have hwatched : ∀ hop hop', (system hold).Takes (before.publish next) events hop .look hop' →
      hop.Watched := fun hop hop' htakes =>
    System.invariant_of_takes (watched_publish h next)
      (fun _ _ _ hs hevent hstep => watched_step hs hevent (steps_of_step hstep)) hone htakes
  have hlook : ∀ hop hop', (system hold).Takes (before.publish next) events hop .look hop' →
      hop' = hop.record hop.live (hop.live.val.selected hop.cells hop.now hold) :=
    fun hop hop' htakes => (Option.some.inj htakes.step).symm
  constructor
  · intro htruth hop hop' htakes
    refine (look_truthful_iff (hwatched hop hop' htakes)).mp fun move hmove => ?_
    exact htruth hop hop' move htakes (by rw [hlook hop hop' htakes]; exact hmove)
  · intro hreads hop hop' move htakes hmove
    rw [hlook hop hop' htakes] at hmove
    exact (look_truthful_iff (hwatched hop hop' htakes)).mpr (hreads hop hop' htakes) move hmove

/-- A dial turns the first of two upstreams up while a round that started before
is out; the round then turns the second one up, stamped earlier. -/
def backDated : List HopEvent :=
  [.wake, .send, .answered 1 (some (.ok ⟨0⟩)), .answered 0 none, .close,
    .clock 9, .wake, .send, .clock 10, .dialled 1 0 .up, .look,
    .answered 1 (some (.ok ⟨1⟩)), .confirm, .clock 11]

/-- What the last observation of a schedule finds: the cause of the switch it
logs, and the handles that went down since the one before. -/
def lastLook (hold : ℕ) (published : Hop) (events : List HopEvent) :
    Option (List SwitchCause × List HealthHandle) :=
  ((system hold).run published events).bind fun hop =>
    ((system hold).step hop .look).map fun hop' =>
      ((hop'.switches.drop hop.switches.length).map Switch.cause, hop.downs)

/-- **A round stamped earlier makes an upstream that never went down look as if
it had.** -/
theorem causes_not_always_truthful :
    ¬∀ (hold : ℕ) (now : ℤ) (before : Hop) (next : Upstreams) (events : List HopEvent),
      (system hold).Reachable (start now) before → ClockForward before.now events →
      (∀ event ∈ events, event.OnOneList) →
      CausesTruthful hold (before.publish next) events := by
  intro hclaim
  have hforward : ClockForward (start 0).now (backDated ++ [.look]) := by
    simp [ClockForward, backDated, start]
  have hone : ∀ event ∈ backDated ++ [.look], event.OnOneList := by
    simp [backDated, HopEvent.OnOneList]
  have htruth := hclaim returnHold 0 (start 0) listAB (backDated ++ [.look]) (.refl _) hforward hone
  have hlook : lastLook returnHold ((start 0).publish listAB) backDated =
      some ([.down], []) := by decide +kernel
  obtain ⟨hop, hrun, hlook⟩ := Option.bind_eq_some_iff.mp hlook
  obtain ⟨hop', hstep, hlogged⟩ := Option.map_eq_some_iff.mp hlook
  obtain ⟨hcause, hdowns⟩ := Prod.mk.inj hlogged
  obtain ⟨move, hdrop, hdown⟩ := List.map_eq_singleton_iff.mp hcause
  have hmove : hop'.switches = hop.switches ++ [move] := by
    obtain rfl : hop.record hop.live (hop.live.val.selected hop.cells hop.now returnHold) = hop' :=
      Option.some.inj hstep
    have happend : ∃ more, (hop.record hop.live
        (hop.live.val.selected hop.cells hop.now returnHold)).switches = hop.switches ++ more :=
      ⟨_, rfl⟩
    obtain ⟨more, hmore⟩ := happend
    rw [hmore, List.drop_left] at hdrop
    rw [hmore, hdrop]
  have hsaid := htruth hop hop' move (System.Takes.last hrun hstep) hmove
  rw [hdown] at hsaid
  obtain ⟨p, entry, _, _, hmem⟩ := hsaid
  rw [hdowns] at hmem
  cases hmem

/-- The entry recorded is down, or one down to it has held. -/
def plainIn (hold : ℕ) (hop : Hop) (p : ℕ) : Bool :=
  let verdicts := hop.live.val.verdicts hop.cells
  verdicts[p]?.any (fun v => v.state == .down) ||
    (verdicts.take (p + 1)).any fun v => decide (v.Holds hop.now hold)

/-- An observation made now does not misread the verdicts, for a plain reason. -/
def plain (hold : ℕ) (hop : Hop) : HopEvent → Bool
  | .look => hop.observed.selected.all (hop.plainIn hold)
  | _ => true

theorem not_misread_of_plain {hold : ℕ} {hop : Hop} (h : hop.plain hold .look = true) :
    ¬hop.Misread hold := by
  rintro ⟨p, hselected, _, a, ha, hup, hreads⟩
  simp only [plain, plainIn, hselected, Option.all_some, ha,
    Option.any_some, Bool.or_eq_true, beq_iff_eq,
    List.any_eq_true, decide_eq_true_eq] at h
  rcases h with hdown | ⟨v, hv, hheld⟩
  · rw [hup] at hdown
    cases hdown
  · obtain ⟨i, hi, hget⟩ := List.mem_take_iff_getElem.mp hv
    have hentry := List.getElem?_eq_some_iff.mpr ⟨(lt_min_iff.mp hi).2, hget⟩
    rcases hreads with ⟨_, hnone, _⟩ | ⟨_, hnone, _⟩
    · exact hnone i v (Nat.lt_succ_iff.mp (lt_min_iff.mp hi).1) hentry hheld
    · exact hnone i v hentry hheld

/-- The second upstream is up first, the first one takes over once it has held, and
then goes down. -/
def recovery : List HopEvent :=
  [.dialled 1 1 .up, .clock 1, .dialled 1 0 .up, .look, .clock 6, .look, .dialled 1 0 .down, .look]

theorem causes_truthful_iff_recovery :
    CausesTruthful 5 ((start 0).publish listAB) recovery ∧
      ((system 5).run ((start 0).publish listAB) recovery).map (fun hop =>
        hop.switches.map Switch.cause) = some [.reload, .held, .down] := by
  have hplain : (system 5).every (plain 5) ((start 0).publish listAB) recovery = true := by
    decide +kernel
  refine ⟨(causes_truthful_iff 5 0 (start 0) listAB recovery (.refl _)
    (by simp [recovery, HopEvent.OnOneList])).mpr ?_, by decide +kernel⟩
  intro hop hop' htakes
  exact not_misread_of_plain (htakes.of_every hplain)

end Hop

end Nhop.Upstream
