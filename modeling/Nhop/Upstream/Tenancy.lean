import Nhop.Upstream.Hop

/-!
A verdict belongs to one unbroken publication of one address.

The tables of all published lists, oldest first, form a history in which every
adoption renews the table before it: an address keeps its verdict cell from one
list to the next and a new address gets a cell nothing has held. What follows
for writes is a comparison of cells, whoever still holds a handle of a list that
has been replaced.
-/

namespace Nhop.Upstream

open Foundation Ipc Proxy

namespace UpstreamEntries

variable {kept : List UpstreamEntry} {now : ℤ} {cells : Verdicts} {upstream : Upstream}
  {next : List Upstream}

/-- Where the handle of an adopted entry comes from: the entry kept for its
address, or a cell allocated between `cells` and `cells'`, down since `now`. -/
def Adopts (kept : List UpstreamEntry) (now : ℤ) (cells cells' : Verdicts)
    (entry : UpstreamEntry) : Prop :=
  (∃ listed ∈ kept, listed.upstream.socket = entry.upstream.socket ∧
    listed.health = entry.health) ∨
  ((∀ listed ∈ kept, listed.upstream.socket ≠ entry.upstream.socket) ∧
    cells.next ≤ entry.health.cell ∧ entry.health.cell < cells'.next ∧
    entry.health.verdict cells' = ⟨.down, now⟩)

theorem adoptOne_next : cells.next ≤ (adoptOne kept upstream now cells).2.next := by
  unfold adoptOne
  split
  · exact le_rfl
  · simp

theorem adoptOne_frame {cell : ℕ} (h : cell < cells.next) :
    (adoptOne kept upstream now cells).2.read cell = cells.read cell := by
  unfold adoptOne
  split
  · rfl
  · exact Cells.read_alloc_of_lt h

theorem adoptOne_adopts : Adopts kept now cells (adoptOne kept upstream now cells).2
    (adoptOne kept upstream now cells).1 := by
  unfold adoptOne
  split
  · next listed hfind =>
      refine Or.inl ⟨listed, List.mem_of_find?_eq_some hfind, ?_, rfl⟩
      simpa using List.find?_some hfind
  · next hnone =>
      refine Or.inr ⟨fun listed hmem hsocket => ?_, le_rfl, by simp,
        HealthHandle.verdict_judging_self⟩
      have hnot := List.find?_eq_none.mp hnone listed hmem
      simp only [beq_iff_eq] at hnot
      exact hnot hsocket

theorem adoptEach_next : cells.next ≤ (adoptEach kept now next cells).2.next := by
  induction next generalizing cells with
  | nil => exact le_rfl
  | cons upstream rest ih =>
      calc cells.next
          ≤ (adoptOne kept upstream now cells).2.next := adoptOne_next
        _ ≤ (adoptEach kept now rest (adoptOne kept upstream now cells).2).2.next := ih

/-- Adoption leaves every verdict there was alone. -/
theorem adoptEach_frame {cell : ℕ} (h : cell < cells.next) :
    (adoptEach kept now next cells).2.read cell = cells.read cell := by
  induction next generalizing cells with
  | nil => rfl
  | cons upstream rest ih =>
      have hone : cell < (adoptOne kept upstream now cells).2.next := h.trans_le adoptOne_next
      calc (adoptEach kept now rest (adoptOne kept upstream now cells).2).2.read cell
          = (adoptOne kept upstream now cells).2.read cell := ih hone
        _ = cells.read cell := adoptOne_frame h

theorem adoptEach_adopts :
    ∀ entry ∈ (adoptEach kept now next cells).1,
      Adopts kept now cells (adoptEach kept now next cells).2 entry := by
  induction next generalizing cells with
  | nil => simp [adoptEach]
  | cons upstream rest ih =>
      intro entry hmem
      have hone : cells.next ≤ (adoptOne kept upstream now cells).2.next := adoptOne_next
      rcases List.mem_cons.mp hmem with rfl | hmem
      · have hadopts : Adopts kept now cells (adoptOne kept upstream now cells).2
            (adoptOne kept upstream now cells).1 := adoptOne_adopts
        rcases hadopts with hkept | ⟨hnot, hlow, hhigh, hdown⟩
        · exact Or.inl hkept
        · refine Or.inr ⟨hnot, hlow, hhigh.trans_le adoptEach_next, ?_⟩
          rw [← hdown]
          exact congrArg Judged.health (adoptEach_frame hhigh)
      · rcases ih entry hmem with hkept | ⟨hnot, hlow, hhigh, hdown⟩
        · exact Or.inl hkept
        · exact Or.inr ⟨hnot, hone.trans hlow, hhigh, hdown⟩

/-- The handle of one adopted entry is not the handle of a later one: two kept
handles come from two entries, and an allocated one is past all before it. -/
theorem adopts_ne {middle last : Verdicts} {entry other : UpstreamEntry}
    (hcells : (kept.map fun listed => listed.health.cell).Nodup)
    (hallocated : ∀ listed ∈ kept, listed.health.cell < cells.next)
    (hmiddle : cells.next ≤ middle.next) (hentry : Adopts kept now cells middle entry)
    (hother : Adopts kept now middle last other)
    (hne : entry.upstream.socket ≠ other.upstream.socket) :
    entry.health.cell ≠ other.health.cell := by
  intro hsame
  rcases hentry with ⟨listed, hmem, hsocket, hhealth⟩ | ⟨_, hlow, hhigh, _⟩
  · have hcell := hallocated listed hmem
    rw [hhealth] at hcell
    rcases hother with ⟨listed', hmem', hsocket', hhealth'⟩ | ⟨_, hlow', _, _⟩
    · have heq : listed = listed' := List.inj_on_of_nodup_map hcells hmem hmem' (by
        rw [hhealth, hhealth', hsame])
      subst heq
      exact hne (hsocket.symm.trans hsocket')
    · omega
  · rcases hother with ⟨listed', hmem', _, hhealth'⟩ | ⟨_, hlow', _, _⟩
    · have hcell := hallocated listed' hmem'
      rw [hhealth'] at hcell
      omega
    · omega

theorem adoptEach_handles (hcells : (kept.map fun listed => listed.health.cell).Nodup)
    (hallocated : ∀ listed ∈ kept, listed.health.cell < cells.next)
    (hnext : (next.map Upstream.socket).Nodup) :
    ((adoptEach kept now next cells).1.map fun entry => entry.health.cell).Nodup := by
  induction next generalizing cells with
  | nil => simp [adoptEach]
  | cons upstream rest ih =>
      rw [List.map_cons, List.nodup_cons] at hnext
      obtain ⟨hout, hrest⟩ := hnext
      have hone : cells.next ≤ (adoptOne kept upstream now cells).2.next := adoptOne_next
      have hadopts : Adopts kept now cells (adoptOne kept upstream now cells).2
          (adoptOne kept upstream now cells).1 := adoptOne_adopts
      simp only [adoptEach, List.map_cons, List.nodup_cons]
      refine ⟨fun hmem => ?_, ih (fun listed h => (hallocated listed h).trans_le hone) hrest⟩
      obtain ⟨other, hother, hcell⟩ := List.mem_map.mp hmem
      refine adopts_ne hcells hallocated hone hadopts (adoptEach_adopts other hother) ?_ hcell.symm
      rw [adoptOne_upstream]
      intro hsocket
      rw [hsocket, ← adoptEach_sockets] at hout
      exact hout (List.mem_map_of_mem hother)

theorem mem_rows {list : UpstreamEntries} {socket : SocketAddr} {cell : ℕ} :
    (socket, cell) ∈ list.rows ↔
      ∃ entry ∈ list.entries, entry.upstream.socket = socket ∧ entry.health.cell = cell := by
  simp [rows]

theorem rows_sockets (list : UpstreamEntries) :
    list.rows.map Prod.fst = list.entries.map fun entry => entry.upstream.socket := by
  simp [rows, Function.comp_def]

theorem rows_handles (list : UpstreamEntries) :
    list.rows.map Prod.snd = list.entries.map fun entry => entry.health.cell := by
  simp [rows, Function.comp_def]

/-- **Adoption renews the table of a list.** -/
theorem adopted_renews {list : UpstreamEntries} (next : Upstreams) (now : ℤ)
    (hcells : (list.rows.map Prod.snd).Nodup) (hallocated : ∀ row ∈ list.rows, row.2 < cells.next) :
    Renews cells.next list.rows (list.adopted next now cells).1.rows ∧
      ∀ row ∈ (list.adopted next now cells).1.rows, row.2 < (list.adopted next now cells).2.next := by
  rw [rows_handles] at hcells
  have hlisted : ∀ listed ∈ list.entries, listed.health.cell < cells.next := fun listed hmem =>
    hallocated (listed.upstream.socket, listed.health.cell) (mem_rows.mpr ⟨listed, hmem, rfl, rfl⟩)
  have hadopts : ∀ entry ∈ (list.adopted next now cells).1.entries,
      Adopts list.entries now cells (list.adopted next now cells).2 entry := adoptEach_adopts
  refine ⟨⟨?_, ?_, ?_, ?_⟩, ?_⟩
  · rw [rows_sockets]
    exact (list.adopted next now cells).1.distinct
  · rw [rows_handles]
    exact adoptEach_handles hcells hlisted next.distinct
  · intro socket cell cell' hrow hrow'
    obtain ⟨listed, hmem, rfl, rfl⟩ := mem_rows.mp hrow
    obtain ⟨entry, hentry, hsocket, rfl⟩ := mem_rows.mp hrow'
    rcases hadopts entry hentry with ⟨listed', hmem', hsocket', hhealth⟩ | ⟨hnot, _⟩
    · have heq : listed' = listed := List.inj_on_of_nodup_map list.distinct hmem' hmem
        (hsocket'.trans hsocket)
      rw [← hhealth, heq]
    · exact absurd hsocket.symm (hnot listed hmem)
  · intro socket cell' hout hrow'
    obtain ⟨entry, hentry, rfl, rfl⟩ := mem_rows.mp hrow'
    rcases hadopts entry hentry with ⟨listed, hmem, hsocket, _⟩ | ⟨_, hlow, _, _⟩
    · refine absurd ?_ hout
      rw [rows_sockets]
      exact List.mem_map.mpr ⟨listed, hmem, hsocket⟩
    · exact hlow
  · rintro ⟨socket, cell⟩ hrow
    obtain ⟨entry, hentry, rfl, rfl⟩ := mem_rows.mp hrow
    rcases hadopts entry hentry with ⟨listed, hmem, _, hhealth⟩ | ⟨_, _, hhigh, _⟩
    · rw [← hhealth]
      exact (hlisted listed hmem).trans_le adoptEach_next
    · exact hhigh

end UpstreamEntries

namespace Hop

/-- The tables of all published lists are a history of cells. -/
def Tenured (hop : Hop) : Prop :=
  Tenures hop.cells.next (hop.history.map fun list => list.val.rows)

/-- The patrol holds this handle: in a sequence, in a snapshot, in a probe under
way or in a verdict it is about to write. -/
def PatrolHolds (hop : Hop) (health : HealthHandle) : Prop :=
  (∃ waiting ∈ hop.patrol.pending, waiting.health = health) ∨
  match hop.patrol.stage with
  | .looking => False
  | .entering list => ∃ entry ∈ list.entries, entry.health = health
  | .probing round =>
      (∃ entry ∈ round.probing, entry.health = health) ∨
      (∃ seen, round.confirming = some (health, seen)) ∨
      (∃ waiting ∈ round.next, waiting.health = health)

/-- The handle is one of a published list. -/
def Published (hop : Hop) (health : HealthHandle) : Prop :=
  ∃ list ∈ hop.history, ∃ entry ∈ list.val.entries, entry.health = health

/-- The patrol holds no handle that was not handed out with a list. -/
def Handed (hop : Hop) : Prop := ∀ health, hop.PatrolHolds health → hop.Published health

section steps

variable {hold : ℕ} {hop hop' : Hop} {event : HopEvent}

theorem tenured_start (now : ℤ) : (start now).Tenured := Tenures.single_nil _

theorem Tenured.frame (h : hop.Tenured) (hhistory : hop'.history = hop.history)
    (hcells : hop'.cells.next = hop.cells.next) : hop'.Tenured := by
  unfold Tenured
  rw [hhistory, hcells]
  exact h

theorem Tenured.publish (h : hop.Tenured) (next : Upstreams) : (hop.publish next).Tenured := by
  have hlive : hop.live ∈ hop.history := by simp [history]
  have hrows : hop.live.val.rows ∈ hop.history.map fun list => list.val.rows :=
    List.mem_map_of_mem hlive
  obtain ⟨hrenews, hbelow⟩ := UpstreamEntries.adopted_renews next hop.now
    (h.handles _ hrows) (h.allocated _ hrows)
  have hgrown : hop.cells.next ≤ (hop.live.val.adopted next hop.now hop.cells).2.next :=
    UpstreamEntries.adoptEach_next
  have hlast : (hop.history.map fun list => list.val.rows).getLast? = some hop.live.val.rows := by
    simp [history]
  have htenures := h.renew hlast hrenews hgrown hbelow
  simpa [Tenured, Hop.publish, history] using htenures

theorem tenured_step (h : hop.Tenured) (hstep : Steps hold hop event hop') : hop'.Tenured := by
  cases hstep with
  | publish next => exact h.publish next
  | dialled k index state list entry hlist hentry => exact h.frame rfl (by simp [judge])
  | confirm round health seen hstage hconfirming => exact h.frame rfl (by simp [judge])
  | clock now => exact h
  | observe k selected list hlist => exact h
  | look => exact h
  | idle hstage hempty => exact h
  | wake hstage => exact h
  | send list hstage => exact h
  | answered index answer round entry hstage hquiet hentry => exact h
  | lost index round hstage hquiet => exact h
  | close round hstage hquiet => exact h

theorem handed_start (now : ℤ) : (start now).Handed := by
  intro health hholds
  simp [PatrolHolds, start] at hholds

/-- A handle of a published list stays one. -/
theorem Published.publish {health : HealthHandle} (h : hop.Published health) (next : Upstreams) :
    (hop.publish next).Published health := by
  obtain ⟨list, hmem, hentry⟩ := h
  exact ⟨list, List.mem_append_left _ hmem, hentry⟩

theorem patrolHolds_probing {round : Round} (hstage : hop.patrol.stage = .probing round)
    {health : HealthHandle} :
    hop.PatrolHolds health ↔
      (∃ waiting ∈ hop.patrol.pending, waiting.health = health) ∨
      (∃ entry ∈ round.probing, entry.health = health) ∨
      (∃ seen, round.confirming = some (health, seen)) ∨
      (∃ waiting ∈ round.next, waiting.health = health) := by
  simp only [PatrolHolds, hstage]

/-- **The patrol only ever holds what was handed out.** -/
theorem handed_step (h : hop.Handed) (hstep : Steps hold hop event hop') : hop'.Handed := by
  cases hstep with
  | publish next => exact fun health hholds => (h health hholds).publish next
  | clock now => exact h
  | dialled k index state list entry hlist hentry => exact h
  | observe k selected list hlist => exact h
  | look => exact h
  | idle hstage hempty =>
      intro health hholds
      simp [PatrolHolds, hstage] at hholds
  | wake hstage =>
      rintro health (hpending | ⟨entry, hmem, hhealth⟩)
      · exact h health (Or.inl hpending)
      · exact ⟨hop.live, by simp [history], entry, hmem, hhealth⟩
  | send list hstage =>
      rintro health (hpending | hentry | ⟨seen, hnone⟩ | ⟨waiting, hmem, _⟩)
      · exact h health (Or.inl hpending)
      · exact h health (Or.inr (by rw [hstage]; exact hentry))
      · cases hnone
      · cases hmem
  | answered index answer round entry hstage hquiet hentry =>
      have hprobed : hop.Published entry.health := h entry.health
        ((patrolHolds_probing hstage).mpr (Or.inr (Or.inl
          ⟨entry, List.mem_of_getElem? hentry, rfl⟩)))
      have hprobing : ∀ health, (∃ e ∈ round.probing.eraseIdx index, e.health = health) →
          hop.Published health := by
        rintro health ⟨e, hmem, he⟩
        exact h health ((patrolHolds_probing hstage).mpr (Or.inr (Or.inl
          ⟨e, List.mem_of_mem_eraseIdx hmem, he⟩)))
      have hnext : ∀ health, (∃ waiting ∈ round.next, waiting.health = health) →
          hop.Published health := fun health hheld =>
        h health ((patrolHolds_probing hstage).mpr (Or.inr (Or.inr (Or.inr hheld))))
      rintro health (hpending | hheld)
      · exact h health (Or.inl hpending)
      · simp only [fold] at hheld
        -- whatever the answer leads to, the handle it concerns was among those probed
        cases hadvance : advance (banked hop.patrol.pending entry.health) (probe answer)
            (entry.health.state hop.cells) with
        | agreed =>
            simp only [hadvance, hquiet] at hheld
            rcases hheld with hheld | ⟨_, hnone⟩ | hheld
            · exact hprobing health hheld
            · cases hnone
            · exact hnext health hheld
        | confirmed =>
            simp only [hadvance] at hheld
            rcases hheld with hheld | ⟨seen, hconfirming⟩ | hheld
            · exact hprobing health hheld
            · obtain ⟨rfl, _⟩ := Prod.mk.inj (Option.some.inj hconfirming)
              exact hprobed
            · exact hnext health hheld
        | opened =>
            simp only [hadvance, hquiet] at hheld
            rcases hheld with hheld | ⟨_, hnone⟩ | ⟨waiting, hmem, hwaiting⟩
            · exact hprobing health hheld
            · cases hnone
            · rcases List.mem_append.mp hmem with hmem | hmem
              · exact hnext health ⟨waiting, hmem, hwaiting⟩
              · obtain rfl : waiting = ⟨probe answer, entry.health⟩ := by simpa using hmem
                exact hwaiting ▸ hprobed
  | lost index round hstage hquiet =>
      intro health hholds
      refine h health ((patrolHolds_probing hstage).mpr ?_)
      rcases (patrolHolds_probing rfl).mp hholds with hpending | ⟨e, hmem, he⟩ | hheld
      · exact Or.inl hpending
      · exact Or.inr (Or.inl ⟨e, List.mem_of_mem_eraseIdx hmem, he⟩)
      · exact Or.inr (Or.inr hheld)
  | confirm round written seen hstage hconfirming =>
      intro health hholds
      refine h health ((patrolHolds_probing hstage).mpr ?_)
      rcases (patrolHolds_probing rfl).mp hholds with hpending | hprobing | ⟨_, hnone⟩ | hnext
      · exact Or.inl hpending
      · exact Or.inr (Or.inl hprobing)
      · cases hnone
      · exact Or.inr (Or.inr (Or.inr hnext))
  | close round hstage hquiet =>
      rintro health (hnext | hfalse)
      · exact h health ((patrolHolds_probing hstage).mpr (Or.inr (Or.inr (Or.inr hnext))))
      · exact hfalse.elim

end steps

/-- In the list published `k`-th, the address is judged by this handle. -/
def Judges (hop : Hop) (k : ℕ) (socket : SocketAddr) (health : HealthHandle) : Prop :=
  ∃ list, hop.history[k]? = some list ∧
    ∃ entry ∈ list.val.entries, entry.upstream.socket = socket ∧ entry.health = health

/-- The address is in every list published from the `k`-th to the `n`-th. -/
def Stays (hop : Hop) (socket : SocketAddr) (k n : ℕ) : Prop :=
  ∀ m, k ≤ m → m ≤ n → ∀ list, hop.history[m]? = some list →
    socket ∈ list.val.entries.map fun entry => entry.upstream.socket

section runs

variable {hold : ℕ} {now : ℤ} {hop : Hop} {k n : ℕ} {socket socket' : SocketAddr}
  {health health' : HealthHandle}

theorem tenured_of_reachable (h : (system hold).Reachable (start now) hop) : hop.Tenured :=
  System.invariant (tenured_start now)
    (fun _ _ _ hs hstep => tenured_step hs (steps_of_step hstep)) h

theorem handed_of_reachable (h : (system hold).Reachable (start now) hop) : hop.Handed :=
  System.invariant (handed_start now)
    (fun _ _ _ hs hstep => handed_step hs (steps_of_step hstep)) h

theorem table_getElem? : (hop.history.map fun list => list.val.rows)[k]? =
    hop.history[k]?.map fun list => list.val.rows := by
  simp

theorem Judges.row (h : hop.Judges k socket health) :
    ∃ t, (hop.history.map fun list => list.val.rows)[k]? = some t ∧ (socket, health.cell) ∈ t := by
  obtain ⟨list, hlist, entry, hmem, hsocket, hhealth⟩ := h
  refine ⟨list.val.rows, by rw [table_getElem?, hlist]; rfl, ?_⟩
  exact UpstreamEntries.mem_rows.mpr ⟨entry, hmem, hsocket, by rw [hhealth]⟩

/-- **One handle, one unbroken publication.** -/
theorem Tenured.handle_eq_iff (h : hop.Tenured) (hkn : k ≤ n) (hk : hop.Judges k socket health)
    (hn : hop.Judges n socket' health') :
    health = health' ↔ socket = socket' ∧ hop.Stays socket k n := by
  obtain ⟨t, ht, hrow⟩ := hk.row
  obtain ⟨t', ht', hrow'⟩ := hn.row
  have hcell : health = health' ↔ health.cell = health'.cell := by
    cases health
    cases health'
    simp
  have hstays : hop.Stays socket k n ↔ ∀ m, k ≤ m → m ≤ n → ∀ u,
      (hop.history.map fun list => list.val.rows)[m]? = some u → socket ∈ u.map Prod.fst := by
    refine forall_congr' fun m => forall_congr' fun _ => forall_congr' fun _ => ?_
    constructor
    · intro hlists u hu
      rw [table_getElem?] at hu
      obtain ⟨list, hlist, rfl⟩ := Option.map_eq_some_iff.mp hu
      rw [UpstreamEntries.rows_sockets]
      exact hlists list hlist
    · intro htables list hlist
      rw [← UpstreamEntries.rows_sockets]
      exact htables _ (by rw [table_getElem?, hlist]; rfl)
  rw [hcell, hstays]
  constructor
  · intro hsame
    rw [← hsame] at hrow'
    obtain rfl := h.owner t (List.mem_of_getElem? ht) t' (List.mem_of_getElem? ht') _ _ _ hrow hrow'
    exact ⟨rfl, (h.tenure k n t t' hkn ht ht' socket _ _ hrow hrow').mp rfl⟩
  · rintro ⟨rfl, hstay⟩
    exact (h.tenure k n t t' hkn ht ht' socket _ _ hrow hrow').mpr hstay

/-- What a publication does to the entries it publishes. -/
theorem publish_entry (hhanded : hop.Handed) (htenured : hop.Tenured) {next : Upstreams}
    {entry : UpstreamEntry} (hentry : entry ∈ (hop.publish next).live.val.entries) :
    (∀ listed ∈ hop.live.val.entries, listed.upstream.socket = entry.upstream.socket →
      entry.health = listed.health ∧
      entry.health.verdict (hop.publish next).cells = listed.health.verdict hop.cells) ∧
    ((∀ listed ∈ hop.live.val.entries, listed.upstream.socket ≠ entry.upstream.socket) →
      entry.health.verdict (hop.publish next).cells = ⟨.down, hop.now⟩ ∧
      ∀ health, hop.Published health ∨ hop.PatrolHolds health → health ≠ entry.health) := by
  have hbelow : ∀ list ∈ hop.history, ∀ e ∈ list.val.entries, e.health.cell < hop.cells.next := by
    intro list hlist e he
    exact htenured.allocated _ (List.mem_map_of_mem hlist) (e.upstream.socket, e.health.cell)
      (UpstreamEntries.mem_rows.mpr ⟨e, he, rfl, rfl⟩)
  have hlive : hop.live ∈ hop.history := by simp [history]
  rcases UpstreamEntries.adoptEach_adopts entry hentry with
    ⟨listed, hmem, hsocket, hhealth⟩ | ⟨hnot, hlow, _, hdown⟩
  · refine ⟨fun listed' hmem' hsocket' => ?_, fun hnone => absurd hsocket (hnone listed hmem)⟩
    have heq : listed = listed' := List.inj_on_of_nodup_map hop.live.val.distinct hmem hmem'
      (hsocket.trans hsocket'.symm)
    subst heq
    refine ⟨hhealth.symm, ?_⟩
    rw [← hhealth]
    exact congrArg Judged.health
      (UpstreamEntries.adoptEach_frame (hbelow hop.live hlive listed hmem))
  · refine ⟨fun listed hmem hsocket => absurd hsocket (hnot listed hmem), fun _ => ⟨hdown, ?_⟩⟩
    rintro health hheld rfl
    obtain ⟨list, hlist, e, he, hsame⟩ : hop.Published entry.health := hheld.elim id (hhanded _)
    have hless := hbelow list hlist e he
    rw [hsame] at hless
    omega

/-- **A verdict belongs to one unbroken publication of one address.** In every
state of every run: each published list has distinct sockets and distinct
handles; two entries share a handle exactly when they have one address that
stayed published from the one list to the other; so a write through a handle of
an earlier list reaches an entry of a later one exactly then. Publishing a list
leaves the verdict of an address it keeps as it was, and gives any other address
a verdict that is down and that no list, no sequence and no probe had before. -/
theorem verdict_tenancy (hold : ℕ) (now : ℤ) (hop : Hop)
    (h : (system hold).Reachable (start now) hop) :
    (∀ list ∈ hop.history,
      (list.val.entries.map fun entry => entry.upstream.socket).Nodup ∧
      (list.val.entries.map fun entry => entry.health).Nodup) ∧
    (∀ k n socket socket' health health', k ≤ n → hop.Judges k socket health →
      hop.Judges n socket' health' →
      (health = health' ↔ socket = socket' ∧ hop.Stays socket k n)) ∧
    (∀ k n socket socket' health health' state cause stamp, k ≤ n → hop.Judges k socket health →
      hop.Judges n socket' health' →
      (socket = socket' ∧ hop.Stays socket k n →
        health'.verdict (hop.judge health state cause stamp).cells =
          (health'.verdict hop.cells).after state stamp) ∧
      (¬(socket = socket' ∧ hop.Stays socket k n) →
        health'.verdict (hop.judge health state cause stamp).cells = health'.verdict hop.cells)) ∧
    ∀ next, ∀ entry ∈ (hop.publish next).live.val.entries,
      (∀ listed ∈ hop.live.val.entries, listed.upstream.socket = entry.upstream.socket →
        entry.health = listed.health ∧
        entry.health.verdict (hop.publish next).cells = listed.health.verdict hop.cells) ∧
      ((∀ listed ∈ hop.live.val.entries, listed.upstream.socket ≠ entry.upstream.socket) →
        entry.health.verdict (hop.publish next).cells = ⟨.down, hop.now⟩ ∧
        ∀ health, hop.Published health ∨ hop.PatrolHolds health → health ≠ entry.health) := by
  have htenured := tenured_of_reachable h
  refine ⟨?_, ?_, ?_, ?_⟩
  · intro list hlist
    refine ⟨list.val.distinct, ?_⟩
    have hcells := htenured.handles _ (List.mem_map_of_mem hlist)
    rw [UpstreamEntries.rows_handles] at hcells
    refine List.Nodup.of_map HealthHandle.cell ?_
    simpa [Function.comp_def] using hcells
  · intro k n socket socket' health health' hkn hk hn
    exact htenured.handle_eq_iff hkn hk hn
  · intro k n socket socket' health health' state cause stamp hkn hk hn
    rw [← htenured.handle_eq_iff hkn hk hn, verdict_judge]
    refine ⟨?_, fun hne => if_neg (Ne.symm hne)⟩
    rintro rfl
    exact if_pos rfl
  · intro next entry hentry
    exact publish_entry (handed_of_reachable h) htenured hentry

/-- An address is published, removed, and added back. -/
def addedBack : List HopEvent := [.publish listA, .dialled 1 0 .up, .publish listB, .publish listA]

theorem verdict_tenancy_addedBack :
    ∃ hop, (system 0).run (start 0) addedBack = some hop ∧
      hop.Judges 1 upstreamA.socket ⟨0⟩ ∧ hop.Judges 3 upstreamA.socket ⟨2⟩ ∧
      ¬hop.Stays upstreamA.socket 1 3 := by
  obtain ⟨hop, hrun⟩ : ∃ hop, (system 0).run (start 0) addedBack = some hop :=
    Option.isSome_iff_exists.mp (by decide +kernel)
  have hhistory : ((system 0).run (start 0) addedBack).map
      (fun s => s.history.map fun list => list.val.rows) =
      some [[], [(upstreamA.socket, 0)], [(upstreamB.socket, 1)], [(upstreamA.socket, 2)]] := by
    decide +kernel
  rw [hrun, Option.map_some, Option.some.injEq] at hhistory
  have hjudges : ∀ k socket cell, ([[], [(upstreamA.socket, 0)], [(upstreamB.socket, 1)],
      [(upstreamA.socket, 2)]] : List (List (SocketAddr × ℕ)))[k]? = some [(socket, cell)] →
      hop.Judges k socket ⟨cell⟩ := by
    intro k socket cell hk
    rw [← hhistory, table_getElem?] at hk
    obtain ⟨list, hlist, hrows⟩ := Option.map_eq_some_iff.mp hk
    obtain ⟨entry, hmem, hsocket, hcell⟩ := UpstreamEntries.mem_rows.mp
      (hrows ▸ List.mem_singleton_self (socket, cell))
    exact ⟨list, hlist, entry, hmem, hsocket, by cases h : entry.health; simp_all⟩
  have hfirst := hjudges 1 upstreamA.socket 0 rfl
  have hback := hjudges 3 upstreamA.socket 2 rfl
  refine ⟨hop, hrun, hfirst, hback, fun hstays => ?_⟩
  obtain ⟨_, htenancy, _⟩ := verdict_tenancy 0 0 hop ⟨addedBack, hrun⟩
  have hsame := (htenancy 1 3 _ _ _ _ (by decide) hfirst hback).mpr ⟨rfl, hstays⟩
  exact absurd hsame (by decide)

end runs

end Hop

end Nhop.Upstream
