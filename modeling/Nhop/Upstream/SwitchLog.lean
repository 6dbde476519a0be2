import Nhop.Foundation.ChangeLog
import Nhop.Upstream.Hop

/-!
The switch log is a faithful chain.

Read by the sockets its addresses dial, the log is a walk from nothing to the
selection recorded last, whoever recorded what and whatever was published
between. Published lists are numbered by their position in the history, which
is what lets a list that has been replaced be told from the one that replaced
it. The numbers are 64 bits wide and stop at the largest, so the last part holds
as long as they have not run out.
-/

namespace Nhop.Upstream

open Foundation Ipc Proxy

namespace Hop

/-- The log, by the sockets the two sides of each move dial. -/
def moves (switches : List Switch) : List (Option SocketAddr × Option SocketAddr) :=
  switches.map fun move => (dials move.left, dials move.reached)

/-- The socket the last move logged went to, none before the first. -/
def lastReached (switches : List Switch) : Option SocketAddr :=
  switches.getLast?.bind fun move => dials move.reached

/-- The selection recorded last dials this socket. -/
def recordedSocket (hop : Hop) : Option SocketAddr :=
  socketAt hop.observed.list.val hop.observed.selected

/-- The log leads from nothing to the selection recorded last. -/
def Chained (hop : Hop) : Prop := IsWalk none (moves hop.switches) hop.recordedSocket

/-- Published lists are numbered by their position in the history. -/
structure Numbered (hop : Hop) : Prop where
  ptr : ∀ k list, hop.history[k]? = some list → list.ptr = k + 1
  count : ∀ k list, hop.history[k]? = some list →
    list.val.publication.count = min k Publication.max
  recorded : hop.observed.list ∈ hop.history ∨ hop.observed.list = ⟨0, UpstreamEntries.empty⟩

section record

variable {hop : Hop} {list : Arc UpstreamEntries} {selected : Option ℕ}

theorem record_stale (h : list.val.publishedBefore hop.observed.list.val = true) :
    hop.record list selected = hop := by
  simp [record, switched_stale h, h]

theorem record_observed (h : list.val.publishedBefore hop.observed.list.val = false) :
    (hop.record list selected).observed = ⟨list, selected⟩ :=
  switched_fst h

theorem record_same (hsame : hop.recordedSocket = socketAt list.val selected) :
    (hop.record list selected).switches = hop.switches := by
  simp [record, switched_same hsame]

/-- A move logs one switch, between the two sockets. -/
theorem record_moved (h : list.val.publishedBefore hop.observed.list.val = false)
    (hmoved : hop.recordedSocket ≠ socketAt list.val selected) :
    ∃ move, (hop.record list selected).switches = hop.switches ++ [move] ∧
      dials move.left = hop.recordedSocket ∧ dials move.reached = socketAt list.val selected := by
  refine ⟨⟨(upstreamAt hop.observed.list.val hop.observed.selected).map Upstream.written,
    (upstreamAt list.val selected).map Upstream.written,
    if hop.observed.list.ptrEq list then
      switchCause list.val hop.observed.selected selected hop.cells
    else .reload⟩, ?_, dials_written _, dials_written _⟩
  simp only [record, switched_moved h hmoved, Option.toList_some]

/-- **Recording a selection keeps the chain.** -/
theorem Chained.record (h : hop.Chained) : (hop.record list selected).Chained := by
  by_cases hstale : list.val.publishedBefore hop.observed.list.val = true
  · rw [record_stale hstale]
    exact h
  · have hfresh := Bool.eq_false_iff.mpr hstale
    have hsocket : (hop.record list selected).recordedSocket = socketAt list.val selected := by
      rw [recordedSocket, record_observed hfresh]
    unfold Chained
    rw [hsocket]
    by_cases hsame : hop.recordedSocket = socketAt list.val selected
    · rw [record_same hsame, ← hsame]
      exact h
    · obtain ⟨move, hswitches, hleft, hreached⟩ := record_moved hfresh hsame
      rw [hswitches, moves, List.map_append]
      simp only [List.map_cons, List.map_nil, hleft, hreached]
      exact IsWalk.snoc h hsame

theorem Chained.last (h : hop.Chained) : lastReached hop.switches = hop.recordedSocket := by
  have hlast := IsWalk.last h
  rw [← hlast]
  unfold lastReached moves
  cases hmove : hop.switches.getLast? <;> simp [List.getLast?_map, hmove]

end record

section steps

variable {hold : ℕ} {hop hop' : Hop} {event : HopEvent}

theorem chained_start (now : ℤ) : (start now).Chained := rfl

theorem chained_step (h : hop.Chained) (hstep : Steps hold hop event hop') : hop'.Chained := by
  cases hstep with
  | observe k selected list hlist => exact h.record
  | look => exact h.record
  | clock now => exact h
  | publish next => exact h
  | dialled k index state list entry hlist hentry => exact h
  | idle hstage hempty => exact h
  | wake hstage => exact h
  | send list hstage => exact h
  | answered index answer round entry hstage hquiet hentry => exact h
  | lost index round hstage hquiet => exact h
  | confirm round health seen hstage hconfirming => exact h
  | close round hstage hquiet => exact h

theorem numbered_start (now : ℤ) : (start now).Numbered where
  ptr := by
    intro k list h
    obtain rfl : k = 0 := by
      have := (List.getElem?_eq_some_iff.mp h).1
      simp only [history, start, List.nil_append, List.length_singleton] at this
      omega
    obtain rfl : ⟨1, UpstreamEntries.empty⟩ = list := by simpa [history, start] using h
    rfl
  count := by
    intro k list h
    obtain rfl : k = 0 := by
      have := (List.getElem?_eq_some_iff.mp h).1
      simp only [history, start, List.nil_append, List.length_singleton] at this
      omega
    obtain rfl : ⟨1, UpstreamEntries.empty⟩ = list := by simpa [history, start] using h
    rfl
  recorded := Or.inr rfl

theorem Numbered.frame (h : hop.Numbered) (hhistory : hop'.history = hop.history)
    (hobserved : hop'.observed = hop.observed) : hop'.Numbered where
  ptr := by rw [hhistory]; exact h.ptr
  count := by rw [hhistory]; exact h.count
  recorded := by rw [hhistory, hobserved]; exact h.recorded

theorem history_live : hop.history[hop.replaced.length]? = some hop.live := by
  simp [history]

theorem length_history : hop.history.length = hop.replaced.length + 1 := by
  simp [history]

theorem history_publish {next : Upstreams} :
    (hop.publish next).history = hop.history ++ [(hop.publish next).live] := rfl

/-- A list published next takes the next number. -/
theorem Numbered.publish (h : hop.Numbered) (next : Upstreams) : (hop.publish next).Numbered where
  ptr := by
    intro k list hlist
    rw [history_publish] at hlist
    rcases lt_or_ge k hop.history.length with hk | hk
    · rw [List.getElem?_append_left hk] at hlist
      exact h.ptr k list hlist
    · have hlen := (List.getElem?_eq_some_iff.mp hlist).1
      simp only [List.length_append, List.length_singleton] at hlen
      obtain rfl : k = hop.history.length := by omega
      obtain rfl : (hop.publish next).live = list := by simpa using hlist
      have hlive := h.ptr _ _ history_live
      rw [length_history]
      simp only [Hop.publish, hlive]
  count := by
    intro k list hlist
    rw [history_publish] at hlist
    rcases lt_or_ge k hop.history.length with hk | hk
    · rw [List.getElem?_append_left hk] at hlist
      exact h.count k list hlist
    · have hlen := (List.getElem?_eq_some_iff.mp hlist).1
      simp only [List.length_append, List.length_singleton] at hlen
      obtain rfl : k = hop.history.length := by omega
      obtain rfl : (hop.publish next).live = list := by simpa using hlist
      have hlive := h.count _ _ history_live
      rw [length_history]
      simp only [Hop.publish, UpstreamEntries.publication_adopted, Publication.saturatingNext,
        hlive]
      omega
  recorded := by
    rcases h.recorded with hmem | hfirst
    · exact Or.inl (by rw [history_publish]; exact List.mem_append_left _ hmem)
    · exact Or.inr hfirst

theorem Numbered.record (h : hop.Numbered) {k : ℕ} {list : Arc UpstreamEntries}
    {selected : Option ℕ} (hlist : hop.history[k]? = some list) :
    (hop.record list selected).Numbered := by
  by_cases hstale : list.val.publishedBefore hop.observed.list.val = true
  · rw [record_stale hstale]
    exact h
  · have hfresh := Bool.eq_false_iff.mpr hstale
    refine ⟨h.ptr, h.count, Or.inl ?_⟩
    rw [record_observed hfresh]
    exact List.mem_of_getElem? hlist

theorem numbered_step (h : hop.Numbered) (hstep : Steps hold hop event hop') : hop'.Numbered := by
  cases hstep with
  | observe k selected list hlist => exact h.record hlist
  | look => exact h.record history_live
  | publish next => exact h.publish next
  | clock now => exact h.frame rfl rfl
  | dialled k index state list entry hlist hentry => exact h.frame rfl rfl
  | idle hstage hempty => exact h.frame rfl rfl
  | wake hstage => exact h.frame rfl rfl
  | send list hstage => exact h.frame rfl rfl
  | answered index answer round entry hstage hquiet hentry => exact h.frame rfl rfl
  | lost index round hstage hquiet => exact h.frame rfl rfl
  | confirm round health seen hstage hconfirming => exact h.frame rfl rfl
  | close round hstage hquiet => exact h.frame rfl rfl

end steps

section runs

variable {hold : ℕ} {now : ℤ} {hop hop' : Hop}

theorem chained_of_reachable (h : (system hold).Reachable (start now) hop) : hop.Chained :=
  System.invariant (chained_start now)
    (fun _ _ _ hs hstep => chained_step hs (steps_of_step hstep)) h

theorem numbered_of_reachable (h : (system hold).Reachable (start now) hop) : hop.Numbered :=
  System.invariant (numbered_start now)
    (fun _ _ _ hs hstep => numbered_step hs (steps_of_step hstep)) h

/-- A list no older than the recorded one is not taken for a replaced one. -/
theorem Numbered.fresh (h : hop.Numbered) {k : ℕ} {list : Arc UpstreamEntries}
    (hlist : hop.history[k]? = some list)
    (hrecorded : ∀ r, hop.history[r]? = some hop.observed.list → r ≤ k) :
    list.val.publishedBefore hop.observed.list.val = false := by
  unfold UpstreamEntries.publishedBefore
  rcases h.recorded with hmem | hfirst
  · obtain ⟨r, hr⟩ := List.getElem?_of_mem hmem
    have hle := hrecorded r hr
    rw [h.count k list hlist, h.count r _ hr]
    simp only [decide_eq_false_iff_not]
    omega
  · rw [hfirst]
    simp [UpstreamEntries.empty]

/-- While the numbers last, a list older than the recorded one is. -/
theorem Numbered.stale (h : hop.Numbered) (hfew : hop.replaced.length < 2 ^ 64) {k r : ℕ}
    {list : Arc UpstreamEntries} (hlist : hop.history[k]? = some list)
    (hrecorded : hop.history[r]? = some hop.observed.list) (hlt : k < r) :
    list.val.publishedBefore hop.observed.list.val = true := by
  unfold UpstreamEntries.publishedBefore
  have hr := (List.getElem?_eq_some_iff.mp hrecorded).1
  rw [length_history] at hr
  have hmax : Publication.max = 2 ^ 64 - 1 := rfl
  have hless : min k Publication.max < min r Publication.max := by omega
  rw [h.count k list hlist, h.count r _ hrecorded]
  exact decide_eq_true hless

/-- **The switch log is a faithful chain.** In every state of every run: each
switch logged moves between different sockets, the first one from none and every
other one from where the one before it went. The next observation, if it is from
a list older than the recorded one, changes nothing while fewer than `2 ^ 64`
lists have been published; from any other list it leaves the log ending at the
socket it observed, and adds a switch only when the log did not end there. -/
theorem switch_log_faithful (hold : ℕ) (now : ℤ) (hop : Hop)
    (h : (system hold).Reachable (start now) hop) :
    (∀ move ∈ hop.switches, dials move.left ≠ dials move.reached) ∧
    (∀ move, hop.switches[0]? = some move → dials move.left = none) ∧
    (∀ n move move', hop.switches[n]? = some move → hop.switches[n + 1]? = some move' →
      dials move'.left = dials move.reached) ∧
    ∀ k selected list hop', hop.history[k]? = some list →
      (system hold).step hop (.observe k selected) = some hop' →
      (∀ r, hop.history[r]? = some hop.observed.list → k < r → hop.replaced.length < 2 ^ 64 →
        hop' = hop) ∧
      ((∀ r, hop.history[r]? = some hop.observed.list → r ≤ k) →
        lastReached hop'.switches = socketAt list.val selected ∧
        (lastReached hop.switches = socketAt list.val selected → hop'.switches = hop.switches) ∧
        (lastReached hop.switches ≠ socketAt list.val selected →
          ∃ move, hop'.switches = hop.switches ++ [move] ∧
            dials move.left = lastReached hop.switches ∧
            dials move.reached = socketAt list.val selected)) := by
  have hchain := chained_of_reachable h
  have hnumbered := numbered_of_reachable h
  refine ⟨?_, ?_, ?_, ?_⟩
  · intro move hmove
    exact IsWalk.moves_ne hchain _ (List.mem_map_of_mem hmove)
  · intro move hmove
    have hhead : (moves hop.switches)[0]? = some (dials move.left, dials move.reached) := by
      simp [moves, hmove]
    exact IsWalk.head hchain hhead
  · intro n move move' hmove hmove'
    have hthis : (moves hop.switches)[n]? = some (dials move.left, dials move.reached) := by
      simp [moves, hmove]
    have hnext : (moves hop.switches)[n + 1]? = some (dials move'.left, dials move'.reached) := by
      simp [moves, hmove']
    exact IsWalk.adjacent hchain hthis hnext
  · intro k selected list hop' hlist hstep
    obtain rfl : hop.record list selected = hop' := by
      have hsteps := steps_of_step hstep
      cases hsteps with
      | observe _ _ list' hlist' =>
          obtain rfl := Option.some.inj (hlist.symm.trans hlist')
          rfl
    refine ⟨fun r hr hlt hfew => record_stale (hnumbered.stale hfew hlist hr hlt), ?_⟩
    intro hrecorded
    have hfresh := hnumbered.fresh hlist hrecorded
    rw [hchain.record.last, hchain.last, recordedSocket, record_observed hfresh]
    refine ⟨rfl, record_same, fun hmoved => ?_⟩
    exact record_moved hfresh hmoved

/-- A list is published, selected from, replaced, and selected from again by a
dial that still holds it. -/
def staleObserver : List HopEvent :=
  [.publish listA, .observe 1 (some 0), .publish listB, .observe 2 (some 0)]

theorem switch_log_faithful_staleObserver :
    ∃ hop, (system 0).run (start 0) staleObserver = some hop ∧
      (∀ move ∈ hop.switches, dials move.left ≠ dials move.reached) ∧
      ∀ move, hop.switches[0]? = some move → dials move.left = none := by
  obtain ⟨hop, hrun⟩ : ∃ hop, (system 0).run (start 0) staleObserver = some hop :=
    Option.isSome_iff_exists.mp (by decide +kernel)
  obtain ⟨hmoves, hhead, _⟩ := switch_log_faithful 0 0 hop ⟨staleObserver, hrun⟩
  exact ⟨hop, hrun, hmoves, hhead⟩

/-! ### When the numbers run out -/

theorem socketAt_first {list : UpstreamEntries} {first : Upstream}
    (h : list.entries.map UpstreamEntry.upstream = [first]) :
    socketAt list (some 0) = some first.socket := by
  obtain ⟨entry, hentries, rfl⟩ := List.map_eq_singleton_iff.mp h
  simp [socketAt, upstreamAt, UpstreamEntries.get_some, hentries]

/-- Any number of lists can be published without anything being observed. -/
theorem reachable_published (n : ℕ) : ∃ hop, (system hold).Reachable (start now) hop ∧
    hop.replaced.length = n + 1 ∧
    hop.live.val.entries.map UpstreamEntry.upstream = listA.entries := by
  induction n with
  | zero =>
      refine ⟨(start now).publish listA, System.Reachable.snoc (.refl _) (e := .publish listA) rfl,
        rfl, UpstreamEntries.upstreams_adopted⟩
  | succ n ih =>
      obtain ⟨hop, hreach, hlength, _⟩ := ih
      refine ⟨hop.publish listA, hreach.snoc (e := .publish listA) rfl, ?_,
        UpstreamEntries.upstreams_adopted⟩
      simp only [Hop.publish, length_history, hlength]

/-- Once `2 ^ 64` lists have been published, the last two share their number, and
a dial that still holds the older one logs a switch back to it. -/
theorem numbers_run_out :
    ¬∀ (hop hop' : Hop) (k r : ℕ) (selected : Option ℕ),
      (system 0).Reachable (start 0) hop → hop.history[r]? = some hop.observed.list → k < r →
      (system 0).step hop (.observe k selected) = some hop' → hop'.switches = hop.switches := by
  intro hclaim
  obtain ⟨full, hfull, hlength, hupstreams⟩ :
      ∃ hop, (system 0).Reachable (start 0) hop ∧
        hop.replaced.length = (Publication.max - 1) + 1 ∧
        hop.live.val.entries.map UpstreamEntry.upstream = listA.entries :=
    reachable_published (Publication.max - 1)
  have hmax : Publication.max - 1 + 1 = Publication.max := by
    have : Publication.max = 2 ^ 64 - 1 := rfl
    omega
  rw [hmax] at hlength
  -- the list that is in force and the one published next carry the same number
  let newest := full.publish listB
  have hnewest : (system 0).Reachable (start 0) newest := hfull.snoc (e := .publish listB) rfl
  have hnumbered := numbered_of_reachable hnewest
  have hnewlength : newest.replaced.length = Publication.max + 1 := by
    simp only [newest, Hop.publish, length_history, hlength]
  have hheld : newest.history[Publication.max]? = some full.live := by
    rw [history_publish, List.getElem?_append_left (by rw [length_history]; omega), ← hlength]
    exact history_live
  have hlast : newest.history[Publication.max + 1]? = some newest.live := by
    rw [← hnewlength]
    exact history_live
  have hfresh : newest.live.val.publishedBefore newest.observed.list.val = false := by
    refine hnumbered.fresh hlast fun r hr => ?_
    have hrlength := (List.getElem?_eq_some_iff.mp hr).1
    rw [length_history] at hrlength
    omega
  let recorded := newest.record newest.live (some 0)
  have hobserved : recorded.observed = ⟨newest.live, some 0⟩ := record_observed hfresh
  have hstep : (system 0).step newest (.observe (Publication.max + 1) (some 0)) =
      some recorded := by
    change (newest.history[Publication.max + 1]?).bind _ = _
    rw [hlast]
    rfl
  -- a selection from the older of the two is recorded once more
  have hback : (system 0).step recorded (.observe Publication.max (some 0)) =
      some (recorded.record full.live (some 0)) := by
    change (newest.history[Publication.max]?).bind _ = _
    rw [hheld]
    rfl
  have hsame := hclaim recorded _ Publication.max (Publication.max + 1) (some 0)
    (hnewest.snoc hstep) (by rw [hobserved]; exact hlast) (by omega) hback
  have htaken : full.live.val.publishedBefore recorded.observed.list.val = false := by
    rw [hobserved]
    unfold UpstreamEntries.publishedBefore
    rw [hnumbered.count _ _ hheld, hnumbered.count _ _ hlast]
    simp
  have hmoved : recorded.recordedSocket ≠ socketAt full.live.val (some 0) := by
    have hnew : newest.live.val.entries.map UpstreamEntry.upstream = [upstreamB] :=
      UpstreamEntries.upstreams_adopted
    rw [recordedSocket, hobserved, socketAt_first hnew, socketAt_first hupstreams]
    decide
  obtain ⟨move, hswitches, _⟩ := record_moved htaken hmoved
  rw [hswitches] at hsame
  simp at hsame

end runs

end Hop

end Nhop.Upstream
