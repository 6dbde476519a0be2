import Nhop.Cli.Follow

/-!
What `nhop logs -f` prints, and when it is all there is.

The command stands in one file of the log at an offset where a line ends. As long
as it has printed what comes before that place, reading on keeps it so, whatever
the daemon appends or begins in the meantime. The place is lost when the files are
listed and the newest is another one: the command moves to it at once, and what the
file before it was appended since it was read, and all of the files between, is
never printed. That is nothing exactly when no complete line is among it. And the
command has to get there: it gives up where a file it has listed is not kept any more
when it is to be opened.
-/

namespace Nhop.Cli

open Foundation

/-! ### The log files -/

section files

variable {dir : List Entry} {name newest : String}

theorem mem_files : name ∈ files dir ↔ isLog name = true ∧ ∃ entry ∈ dir, entry.name = name := by
  rw [files, List.mem_insertionSort, List.mem_filter, List.mem_map, and_comm]

theorem le_newest (h : (files dir).getLast? = some newest) (hmem : name ∈ files dir) :
    name ≤ newest := by
  have hsorted : (files dir).Pairwise (· ≤ ·) := List.pairwise_insertionSort _ _
  obtain ⟨before, hsplit⟩ := List.getLast?_eq_some_iff.mp h
  rw [hsplit] at hsorted hmem
  rcases List.mem_append.mp hmem with hbefore | hlast
  · exact (List.pairwise_append.mp hsorted).2.2 name hbefore newest (List.mem_singleton_self _)
  · exact (List.mem_singleton.mp hlast).le

/-- The newest file is the last one by name. -/
theorem newest_eq (hmem : newest ∈ files dir) (hle : ∀ name ∈ files dir, name ≤ newest) :
    (files dir).getLast? = some newest := by
  cases hlast : (files dir).getLast? with
  | none =>
      rw [List.getLast?_eq_none_iff.mp hlast] at hmem
      cases hmem
  | some last =>
      have hle' := hle last (List.mem_of_getLast? hlast)
      rw [le_antisymm hle' (le_newest hlast hmem)]

end files

/-! ### What is to be printed -/

/-- The complete lines of a text, as they are printed. -/
def shown (text : Text) : List Text := (lines '\n' text).map trimEnd

/-- Every complete line that was logged. -/
def Watch.logged (s : Watch) : List Text := s.archive.flatMap fun entry => shown entry.text

/-- What of a file comes before a place in the log. -/
def before (current : String) (offset : ℕ) (entry : Entry) : List Text :=
  if entry.name < current then shown entry.text
  else if entry.name = current then shown (entry.text.take offset) else []

/-- What of a file comes behind a place in the log, and before the newest file. -/
def behind (current : String) (offset : ℕ) (newest : String) (entry : Entry) : List Text :=
  if entry.name = current then shown (entry.text.drop offset)
  else if current < entry.name ∧ entry.name < newest then shown entry.text else []

/-- The complete lines before a place in the log: those of older files, and those of
this one up to the offset. -/
def printedAt (archive : List Entry) (current : String) (offset : ℕ) : List Text :=
  archive.flatMap (before current offset)

/-- The complete lines up to the end of a file. -/
def printedUpTo (archive : List Entry) (current : String) : List Text :=
  archive.flatMap fun entry => if entry.name ≤ current then shown entry.text else []

/-- The complete lines behind a place in the log and before the newest file. -/
def unread (archive : List Entry) (current : String) (offset : ℕ) (newest : String) : List Text :=
  archive.flatMap (behind current offset newest)

/-- Moving on to a newer file leaves no complete line behind. -/
def skipsNothing (s : Watch) : Event → Bool
  | .follows none =>
      match s.reading, (files s.dir).getLast? with
      | .waiting current offset, some newest =>
          newest == current || unread s.archive current offset newest == []
      | _, _ => true
  | _ => true

/-- The file that the next call of the command is to open. -/
def Reading.opens : Reading → Option String
  | .opening (file :: _) _ => some file
  | .opening [] current => some current
  | .listed current _ => some current
  | .waiting _ _ | .exited _ => none

/-- No call of the command fails, and the file it is to open is still kept. -/
def finds (s : Watch) : Event → Bool
  | .follows failure =>
      failure.isNone && s.reading.opens.all fun file => s.dir.any fun entry => entry.name == file
  | _ => true

/-- The command goes on. Nothing is printed that was not logged, or twice, or out of
order, and nothing before the place it stands at is missing. -/
structure Watch.Lossless (s : Watch) : Prop where
  goesOn : ∀ exit, s.reading ≠ .exited exit
  begins : s.out <+: s.logged
  place : ∀ current offset,
    s.reading = .waiting current offset ∨ s.reading = .listed current offset →
      s.out = printedAt s.archive current offset

/-- When a file has been read, all its complete lines are printed, and all before it. -/
def Watch.ReadsAll (s s' : Watch) : Prop :=
  s.reading ≠ s'.reading → ∀ current offset, s'.reading = .waiting current offset →
    s'.out = printedUpTo s'.archive current

section shown

variable {text more : Text} {offset : ℕ}

theorem shown_prefix_append : shown text <+: shown (text ++ more) :=
  (lines_prefix_append '\n' text more).map trimEnd

theorem shown_eq (h : LineEnd '\n' text offset) :
    shown text = shown (text.take offset) ++ shown (text.drop offset) := by
  rw [shown, h.lines_eq, List.map_append]
  rfl

end shown

section place

variable {archive earlier later : List Entry} {entry other : Entry} {offset : ℕ}
  {current newest : String}

theorem before_older (h : other.name < current) : before current offset other = shown other.text :=
  if_pos h

theorem before_self : before entry.name offset entry = shown (entry.text.take offset) := by
  rw [before, if_neg (lt_irrefl _), if_pos rfl]

theorem before_newer (h : current < other.name) : before current offset other = [] := by
  rw [before, if_neg h.not_gt, if_neg h.ne']

theorem behind_older (h : other.name < current) : behind current offset newest other = [] := by
  rw [behind, if_neg h.ne, if_neg fun hnewer => h.not_gt hnewer.1]

/-- Of the files behind a place, those before the newest are behind it. -/
theorem behind_newer (h : current < other.name) :
    behind current offset newest other = before newest 0 other := by
  unfold behind before
  rw [if_neg h.ne']
  simp only [h, true_and, List.take_zero]
  split_ifs <;> rfl

theorem flatMap_congr_left {f g : Entry → List Text} (h : ∀ entry ∈ archive, f entry = g entry) :
    archive.flatMap f = archive.flatMap g := by
  rw [List.flatMap_def, List.flatMap_def, List.map_congr_left h]

/-- The log around one of its files. -/
structure Around (archive earlier : List Entry) (entry : Entry) (later : List Entry) : Prop where
  split : archive = earlier ++ entry :: later
  older : ∀ other ∈ earlier, other.name < entry.name
  newer : ∀ other ∈ later, entry.name < other.name

namespace Around

theorem flatMap_eq (h : Around archive earlier entry later) (f : Entry → List Text) :
    archive.flatMap f = earlier.flatMap f ++ (f entry ++ later.flatMap f) := by
  rw [h.split, List.flatMap_append, List.flatMap_cons]

theorem printedAt_eq (h : Around archive earlier entry later) (offset : ℕ) :
    printedAt archive entry.name offset =
      earlier.flatMap (fun other => shown other.text) ++ shown (entry.text.take offset) := by
  have hearlier : earlier.flatMap (before entry.name offset) =
      earlier.flatMap fun other => shown other.text :=
    flatMap_congr_left fun other hmem => before_older (h.older other hmem)
  have hlater : later.flatMap (before entry.name offset) = [] :=
    List.flatMap_eq_nil_iff.mpr fun other hmem => before_newer (h.newer other hmem)
  rw [printedAt, h.flatMap_eq, hearlier, before_self, hlater, List.append_nil]

theorem printedUpTo_eq (h : Around archive earlier entry later) :
    printedUpTo archive entry.name =
      earlier.flatMap (fun other => shown other.text) ++ shown entry.text := by
  let upTo (other : Entry) : List Text := if other.name ≤ entry.name then shown other.text else []
  have hearlier : earlier.flatMap upTo = earlier.flatMap fun other => shown other.text :=
    flatMap_congr_left fun other hmem => if_pos (h.older other hmem).le
  have hlater : later.flatMap upTo = [] :=
    List.flatMap_eq_nil_iff.mpr fun other hmem => if_neg (h.newer other hmem).not_ge
  show archive.flatMap upTo = _
  rw [h.flatMap_eq, hearlier, hlater, List.append_nil, show upTo entry = _ from if_pos le_rfl]

/-- **Moving on.** What comes before the newest file is what comes before the place
in an older one, and what is unread. -/
theorem printedAt_newest (h : Around archive earlier entry later)
    (hoffset : LineEnd '\n' entry.text offset) (hnewest : entry.name < newest) :
    printedAt archive newest 0 =
      printedAt archive entry.name offset ++ unread archive entry.name offset newest := by
  have hplace : printedAt archive newest 0 =
      earlier.flatMap (fun other => shown other.text) ++
        (shown entry.text ++ later.flatMap (before newest 0)) := by
    rw [printedAt, h.flatMap_eq, before_older hnewest]
    have hearlier : earlier.flatMap (before newest 0) =
        earlier.flatMap fun other => shown other.text :=
      flatMap_congr_left fun other hmem => before_older ((h.older other hmem).trans hnewest)
    rw [hearlier]
  have hunread : unread archive entry.name offset newest =
      shown (entry.text.drop offset) ++ later.flatMap (before newest 0) := by
    have hearlier : earlier.flatMap (behind entry.name offset newest) = [] :=
      List.flatMap_eq_nil_iff.mpr fun other hmem => behind_older (h.older other hmem)
    have hlater : later.flatMap (behind entry.name offset newest) =
        later.flatMap (before newest 0) :=
      flatMap_congr_left fun other hmem => behind_newer (h.newer other hmem)
    rw [unread, h.flatMap_eq, hearlier, List.nil_append, hlater, behind, if_pos rfl]
  rw [hplace, h.printedAt_eq, hunread, shown_eq hoffset]
  simp only [List.append_assoc]

/-- What comes before a place is a beginning of what was logged. -/
theorem printedAt_begins (h : Around archive earlier entry later)
    (hoffset : LineEnd '\n' entry.text offset) :
    printedAt archive entry.name offset <+: archive.flatMap fun other => shown other.text := by
  rw [h.printedAt_eq, h.flatMap_eq, shown_eq hoffset]
  simp only [List.append_assoc]
  exact (List.prefix_append_right_inj _).mpr (List.prefix_append _ _)

end Around

end place

/-! ### The daemon -/

/-- The files that are kept are files of the log, as they were written, the newest
among them. -/
structure Watch.Kept (s : Watch) : Prop where
  chronological : s.archive.Pairwise fun a b => a.name < b.name
  logs : ∀ entry ∈ s.archive, isLog entry.name = true
  held : ∀ entry ∈ s.dir, isLog entry.name = true → entry ∈ s.archive
  newest : (files s.dir).getLast? = (s.archive.map Entry.name).getLast?

section kept

variable {s s' : Watch} {entry other : Entry} {more : Text} {name : String}

theorem grown_append (more : Text) (earlier : List Entry) (last : Entry) :
    grown more (earlier ++ [last]) =
      earlier ++ [{ last with text := last.text ++ more }] := by
  induction earlier with
  | nil => rfl
  | cons entry earlier ih =>
      cases earlier with
      | nil => rfl
      | cons next earlier =>
          show entry :: grown more (next :: earlier ++ [last]) = _
          rw [ih]
          rfl

theorem Watch.Kept.around_of_split (h : s.Kept) {earlier later : List Entry}
    (hsplit : s.archive = earlier ++ entry :: later) : Around s.archive earlier entry later := by
  have hchronological := h.chronological
  rw [hsplit] at hchronological
  obtain ⟨_, hnewer, holder⟩ := List.pairwise_append.mp hchronological
  refine ⟨hsplit, fun other hother => ?_, (List.pairwise_cons.mp hnewer).1⟩
  exact holder other hother entry (List.mem_cons_self ..)

theorem Watch.Kept.around (h : s.Kept) (hmem : entry ∈ s.archive) :
    ∃ earlier later, Around s.archive earlier entry later := by
  obtain ⟨earlier, later, hsplit⟩ := List.append_of_mem hmem
  exact ⟨earlier, later, h.around_of_split hsplit⟩

theorem Watch.Kept.eq_of_name (h : s.Kept) (hentry : entry ∈ s.archive) (hother : other ∈ s.archive)
    (hname : other.name = entry.name) : other = entry := by
  obtain ⟨earlier, later, haround⟩ := h.around hentry
  rw [haround.split] at hother
  rcases List.mem_append.mp hother with hearlier | hrest
  · exact absurd hname (haround.older other hearlier).ne
  · rcases List.mem_cons.mp hrest with rfl | hlater
    · rfl
    · exact absurd hname (haround.newer other hlater).ne'

theorem files_congr {dir dir' : List Entry} (h : dir.map Entry.name = dir'.map Entry.name) :
    files dir = files dir' := by
  rw [files, files, h]

theorem map_name_grown (more : Text) (archive : List Entry) :
    (grown more archive).map Entry.name = archive.map Entry.name := by
  rcases List.eq_nil_or_concat' archive with rfl | ⟨earlier, last, rfl⟩
  · rfl
  · rw [grown_append]
    simp

theorem Watch.Kept.appends (h : s.Kept) (hstep : s.appends more = some s') : s'.Kept := by
  obtain ⟨newest, hnewest, rfl⟩ := Option.map_eq_some_iff.mp hstep
  have hlast := h.newest
  rw [hnewest] at hlast
  obtain ⟨earlier, last, harchive⟩ : ∃ earlier last, s.archive = earlier ++ [last] := by
    rcases List.eq_nil_or_concat' s.archive with hnil | hsome
    · rw [hnil] at hlast
      cases hlast
    · exact hsome
  have hname : newest = last.name := by
    rw [harchive, List.map_append] at hlast
    simpa using hlast
  have hnames : (s.dir.map fun entry =>
      if entry.name = newest then { entry with text := entry.text ++ more } else entry).map
        Entry.name = s.dir.map Entry.name := by
    rw [List.map_map]
    refine List.map_congr_left fun entry _ => ?_
    show (if entry.name = newest then _ else entry).name = entry.name
    split_ifs <;> rfl
  refine ⟨?_, ?_, ?_, ?_⟩
  · have hsorted := List.pairwise_map.mpr h.chronological
    rw [← map_name_grown more] at hsorted
    exact List.pairwise_map.mp hsorted
  · intro entry hmem
    have hmem' : entry.name ∈ (grown more s.archive).map Entry.name := List.mem_map_of_mem hmem
    rw [map_name_grown] at hmem'
    obtain ⟨other, hother, hname⟩ := List.mem_map.mp hmem'
    exact hname ▸ h.logs other hother
  · intro entry hmem hlog
    show entry ∈ grown more s.archive
    rw [harchive, grown_append]
    obtain ⟨other, hother, rfl⟩ := List.mem_map.mp hmem
    split_ifs at hlog ⊢ with hnew
    · have hin := h.held other hother hlog
      have hin' : last ∈ s.archive := by simp [harchive]
      rw [h.eq_of_name hin' hin (hnew.trans hname)]
      simp
    · have hin := h.held other hother hlog
      rw [harchive] at hin
      rcases List.mem_append.mp hin with hearlier | hend
      · exact List.mem_append_left _ hearlier
      · rw [List.mem_singleton.mp hend] at hnew
        exact absurd hname.symm hnew
  · show (files _).getLast? = ((grown more s.archive).map Entry.name).getLast?
    rw [files_congr hnames, map_name_grown, h.newest]

theorem Watch.Kept.rotates (h : s.Kept) (hstep : s.rotates name = some s') : s'.Kept := by
  unfold Watch.rotates at hstep
  split_ifs at hstep with henabled
  cases hstep
  obtain ⟨hlog, hnewer⟩ := henabled
  let begun : Entry := ⟨name, []⟩
  have hbehind : ∀ entry ∈ s.archive, entry.name < name := by
    intro entry hmem
    obtain ⟨earlier, last, harchive⟩ := (List.eq_nil_or_concat' s.archive).resolve_left
      (List.ne_nil_of_mem hmem)
    have hlast : (files s.dir).getLast? = some last.name := by
      rw [h.newest, harchive]
      simp
    have hlt := hnewer last.name (List.mem_of_getLast? hlast)
    rw [harchive] at hmem
    rcases List.mem_append.mp hmem with hearlier | hend
    · have hchronological := h.chronological
      rw [harchive] at hchronological
      exact ((List.pairwise_append.mp hchronological).2.2 entry hearlier last
        (List.mem_singleton_self _)).trans hlt
    · rwa [List.mem_singleton.mp hend]
  refine ⟨?_, ?_, ?_, ?_⟩
  · refine List.pairwise_append.mpr ⟨h.chronological, List.pairwise_singleton _ _, ?_⟩
    intro entry hmem other hother
    rw [List.mem_singleton.mp hother]
    exact hbehind entry hmem
  · intro entry hmem
    rcases List.mem_append.mp hmem with hold | hend
    · exact h.logs entry hold
    · rw [List.mem_singleton.mp hend]
      exact hlog
  · intro entry hmem hisLog
    rcases List.mem_append.mp hmem with hold | hend
    · exact List.mem_append_left _ (h.held entry (List.mem_of_mem_filter hold) hisLog)
    · exact List.mem_append_right _ hend
  · have hlast : ((s.archive ++ [begun]).map Entry.name).getLast? = some name := by simp [begun]
    show _ = ((s.archive ++ [begun]).map Entry.name).getLast?
    rw [hlast]
    refine newest_eq (mem_files.mpr ⟨hlog, begun, by simp [begun], rfl⟩) fun other hother => ?_
    obtain ⟨hisLog, entry, hmem, rfl⟩ := mem_files.mp hother
    rcases List.mem_append.mp hmem with hold | hend
    · exact (hnewer _ (mem_files.mpr ⟨hisLog, entry, List.mem_of_mem_filter hold, rfl⟩)).le
    · rw [List.mem_singleton.mp hend]

theorem map_name_logsOf (dir : List Entry) : (logsOf dir).map Entry.name = files dir := by
  have hsort := List.map_insertionSort (r := fun a b : Entry => a.name ≤ b.name) (s := (· ≤ ·))
    Entry.name (dir.filter fun entry => isLog entry.name) fun _ _ _ _ => Iff.rfl
  rw [logsOf, hsort, files, List.filter_map]
  rfl

theorem kept_listing (dir : Directory) : (Watch.listing dir).Kept := by
  have hnodup : (files dir.entries).Nodup :=
    (List.perm_insertionSort _ _).nodup_iff.mpr (dir.distinct.filter _)
  have hsorted : (files dir.entries).Pairwise (· < ·) :=
    ((List.pairwise_insertionSort _ _).and hnodup).imp fun h => lt_of_le_of_ne h.1 h.2
  refine ⟨?_, ?_, ?_, ?_⟩
  · rw [← map_name_logsOf] at hsorted
    exact List.pairwise_map.mp hsorted
  · intro entry hmem
    exact (List.mem_filter.mp ((List.mem_insertionSort _).mp hmem)).2
  · intro entry hmem hlog
    exact (List.mem_insertionSort _).mpr (List.mem_filter.mpr ⟨hmem, hlog⟩)
  · show (files dir.entries).getLast? = ((logsOf dir.entries).map Entry.name).getLast?
    rw [map_name_logsOf]

end kept

/-! ### The place the command stands at -/

/-- The command stands in a file of the log, where a line ends; or it is about to
print another one of those it found, and has printed the ones before it. -/
def Watch.Stands (s : Watch) : Prop :=
  match s.reading with
  | .opening kept current => ∃ printed rest entry later,
      s.archive = printed ++ (rest ++ entry :: later) ∧ rest.map Entry.name = kept ∧
        entry.name = current ∧ s.out = printed.flatMap fun other => shown other.text
  | .waiting current offset | .listed current offset =>
      ∃ entry ∈ s.archive, entry.name = current ∧ LineEnd '\n' entry.text offset
  | .exited _ => True

/-- What comes before the place was printed, and nothing else. -/
def Watch.Printed (s : Watch) : Prop :=
  match s.reading with
  | .opening _ _ => True
  | .waiting current offset | .listed current offset => s.out = printedAt s.archive current offset
  | .exited _ => s.out <+: s.logged

/-- A later state of the log: a file that is there goes on, and others follow. -/
def Continues (archive archive' : List Entry) : Prop :=
  ∀ earlier entry later, archive = earlier ++ entry :: later →
    ∃ more later', archive' = earlier ++ { entry with text := entry.text ++ more } :: later'

section place

variable {s s' : Watch} {archive archive' : List Entry} {more : Text} {name : String}

theorem continues_grown (more : Text) (archive : List Entry) :
    Continues archive (grown more archive) := by
  rintro earlier entry later rfl
  rcases List.eq_nil_or_concat' later with rfl | ⟨between, last, rfl⟩
  · exact ⟨more, [], grown_append more earlier entry⟩
  · refine ⟨[], between ++ [{ last with text := last.text ++ more }], ?_⟩
    have hsplit : earlier ++ entry :: (between ++ [last]) =
        (earlier ++ entry :: between) ++ [last] := by
      simp
    rw [hsplit, grown_append]
    simp

theorem continues_begun (begun : Entry) (archive : List Entry) :
    Continues archive (archive ++ [begun]) := by
  rintro earlier entry later rfl
  exact ⟨[], later ++ [begun], by simp⟩

theorem Continues.prefix_flatMap (h : Continues archive archive') :
    (archive.flatMap fun entry => shown entry.text) <+:
      archive'.flatMap fun entry => shown entry.text := by
  rcases List.eq_nil_or_concat' archive with rfl | ⟨earlier, last, rfl⟩
  · exact List.nil_prefix
  · obtain ⟨more, later, rfl⟩ := h earlier last [] rfl
    simp only [List.flatMap_append, List.flatMap_cons, List.flatMap_nil, List.append_nil]
    refine (List.prefix_append_right_inj _).mpr ?_
    exact shown_prefix_append.trans (List.prefix_append _ _)

/-- What the daemon writes does not move the command. -/
theorem Continues.stands (h : Continues s.archive s'.archive) (hreading : s'.reading = s.reading)
    (hout : s'.out = s.out) (hs : s.Stands) : s'.Stands := by
  unfold Watch.Stands at hs ⊢
  rw [hreading, hout]
  have hplace {current : String} {offset : ℕ}
      (hs : ∃ entry ∈ s.archive, entry.name = current ∧ LineEnd '\n' entry.text offset) :
      ∃ entry ∈ s'.archive, entry.name = current ∧ LineEnd '\n' entry.text offset := by
    obtain ⟨entry, hmem, rfl, hoffset⟩ := hs
    obtain ⟨earlier, later, hsplit⟩ := List.append_of_mem hmem
    obtain ⟨more, later', hsplit'⟩ := h earlier entry later hsplit
    refine ⟨{ entry with text := entry.text ++ more }, ?_, rfl, hoffset.append more⟩
    rw [hsplit']
    simp
  cases hcase : s.reading with
  | opening kept current =>
      rw [hcase] at hs
      obtain ⟨printed, rest, entry, later, hsplit, hrest, hentry, hprinted⟩ := hs
      rw [← List.append_assoc] at hsplit
      obtain ⟨more, later', hsplit'⟩ := h _ entry later hsplit
      rw [List.append_assoc] at hsplit'
      exact ⟨printed, rest, _, later', hsplit', hrest, hentry, hprinted⟩
  | waiting current offset =>
      rw [hcase] at hs
      exact hplace hs
  | listed current offset =>
      rw [hcase] at hs
      exact hplace hs
  | exited exit => trivial

theorem Continues.printedAt_eq (h : Continues s.archive s'.archive) (hkept : s.Kept)
    (hkept' : s'.Kept) {entry : Entry} {offset : ℕ} (hmem : entry ∈ s.archive)
    (hoffset : LineEnd '\n' entry.text offset) :
    printedAt s'.archive entry.name offset = printedAt s.archive entry.name offset := by
  obtain ⟨earlier, later, haround⟩ := hkept.around hmem
  obtain ⟨more, later', hsplit'⟩ := h earlier entry later haround.split
  let entry' : Entry := { entry with text := entry.text ++ more }
  have haround' : Around s'.archive earlier entry' later' := hkept'.around_of_split hsplit'
  have htake : entry'.text.take offset = entry.text.take offset :=
    List.take_append_of_le_length hoffset.inside
  have hprinted := haround'.printedAt_eq offset
  rw [htake, ← haround.printedAt_eq offset] at hprinted
  exact hprinted

theorem Continues.printed (h : Continues s.archive s'.archive) (hkept : s.Kept) (hkept' : s'.Kept)
    (hreading : s'.reading = s.reading) (hout : s'.out = s.out) (hstands : s.Stands)
    (hs : s.Printed) : s'.Printed := by
  unfold Watch.Printed at hs ⊢
  unfold Watch.Stands at hstands
  rw [hreading, hout]
  cases hcase : s.reading with
  | opening kept current => trivial
  | waiting current offset =>
      rw [hcase] at hs hstands
      obtain ⟨entry, hmem, rfl, hoffset⟩ := hstands
      exact hs.trans (h.printedAt_eq hkept hkept' hmem hoffset).symm
  | listed current offset =>
      rw [hcase] at hs hstands
      obtain ⟨entry, hmem, rfl, hoffset⟩ := hstands
      exact hs.trans (h.printedAt_eq hkept hkept' hmem hoffset).symm
  | exited exit =>
      rw [hcase] at hs
      exact hs.trans h.prefix_flatMap

end place

/-! ### Reading on -/

section reads

variable {s s' : Watch} {entry : Entry} {offset : ℕ} {failure : Option ℕ} {exit : Exit}
  {next : ℕ → Reading} {follow : Follow}

/-- Where the complete lines behind an offset end. -/
def lineEnd (text : Text) (offset : ℕ) : ℕ :=
  offset + (lines '\n' (text.drop offset)).flatten.length

/-- A file that is still kept is printed from where a line ends to where the last one
does, unless that fails halfway. -/
theorem prints_eq (failure : Option ℕ) (exit : Exit) (next : ℕ → Reading)
    (hkept : s.Kept) (hmem : entry ∈ s.archive)
    (hoffset : LineEnd '\n' entry.text offset) :
    (∃ part, part <+: shown (entry.text.drop offset) ∧
      s.prints entry.name offset .all failure exit next =
        { s with reading := .exited exit, out := s.out ++ part }) ∨
    s.prints entry.name offset .all failure exit next =
      { s with
        reading := next (lineEnd entry.text offset)
        out := s.out ++ shown (entry.text.drop offset) } := by
  unfold Watch.prints printFrom
  cases hfind : s.dir.find? fun other => other.name == entry.name with
  | none =>
      left
      exact ⟨[], List.nil_prefix, by simp⟩
  | some found =>
      have hname : found.name = entry.name := by simpa using List.find?_some hfind
      have hlog : isLog found.name = true := hname ▸ hkept.logs entry hmem
      have hfound : found = entry :=
        hkept.eq_of_name hmem (hkept.held found (List.mem_of_find?_eq_some hfind) hlog) hname
      have hread : readFrom entry.text offset =
          (shown (entry.text.drop offset), lineEnd entry.text offset) := by
        rw [readFrom, if_neg (Nat.not_lt.mpr hoffset.inside)]
        rfl
      have hall (complete : List Text) : complete.filter Window.all = complete :=
        List.filter_eq_self.mpr fun _ _ => rfl
      simp only [Option.map_some, hfound, hread, hall]
      cases failure with
      | none => exact Or.inr rfl
      | some count => exact Or.inl ⟨_, List.take_prefix count _, rfl⟩

/-- **A read** that starts behind what was printed ends behind all of the file. -/
theorem printedAt_lineEnd (hkept : s.Kept) (hmem : entry ∈ s.archive)
    (hoffset : LineEnd '\n' entry.text offset) :
    printedAt s.archive entry.name (lineEnd entry.text offset) =
        printedAt s.archive entry.name offset ++ shown (entry.text.drop offset) ∧
      printedAt s.archive entry.name (lineEnd entry.text offset) =
        printedUpTo s.archive entry.name := by
  obtain ⟨earlier, later, haround⟩ := hkept.around hmem
  have htake : shown (entry.text.take (lineEnd entry.text offset)) = shown entry.text :=
    congrArg (List.map trimEnd) hoffset.next.2
  constructor
  · rw [haround.printedAt_eq, haround.printedAt_eq, htake, shown_eq hoffset, List.append_assoc]
  · rw [haround.printedAt_eq, haround.printedUpTo_eq, htake]

/-- What is printed of a file behind the place is what was logged there. -/
theorem printed_prefix (hkept : s.Kept) (hmem : entry ∈ s.archive)
    (hoffset : LineEnd '\n' entry.text offset) {part : List Text}
    (hpart : part <+: shown (entry.text.drop offset)) :
    printedAt s.archive entry.name offset ++ part <+: s.logged := by
  obtain ⟨earlier, later, haround⟩ := hkept.around hmem
  have hnext := haround.printedAt_begins hoffset.next.1
  rw [show offset + _ = lineEnd entry.text offset from rfl,
    (printedAt_lineEnd hkept hmem hoffset).1] at hnext
  exact ((List.prefix_append_right_inj _).mpr hpart).trans hnext

/-- Once a file is read, the command waits behind all of it, or exits. -/
theorem reads_step (hkept : s.Kept) (hmem : entry ∈ s.archive)
    (hoffset : LineEnd '\n' entry.text offset)
    (hnext : ∀ offset, next offset = .waiting entry.name offset ∨
        ∃ exit, next offset = .exited exit)
    (hstep : s.prints entry.name offset .all failure exit next = s') :
    s'.Stands ∧ (s.out = printedAt s.archive entry.name offset →
      s'.Printed ∧ ∀ current offset, s'.reading = .waiting current offset →
        s'.out = printedUpTo s'.archive current) := by
  obtain ⟨hadds, hall⟩ := printedAt_lineEnd hkept hmem hoffset
  rcases prints_eq failure exit next hkept hmem hoffset with
    ⟨part, hpart, hprints⟩ | hprints
  · rw [← hstep, hprints]
    refine ⟨trivial, fun hout => ⟨?_, fun current offset h => by cases h⟩⟩
    show s.out ++ part <+: s.logged
    rw [hout]
    exact printed_prefix hkept hmem hoffset hpart
  · rw [← hstep, hprints]
    rcases hnext (lineEnd entry.text offset) with hwaiting | ⟨exit, hexited⟩
    · rw [hwaiting]
      refine ⟨⟨entry, hmem, rfl, hoffset.next.1⟩, fun hout => ⟨?_, fun current offset' h => ?_⟩⟩
      · show s.out ++ _ = printedAt s.archive entry.name (lineEnd entry.text offset)
        rw [hadds, hout]
      · cases h
        show s.out ++ _ = printedUpTo s.archive entry.name
        rw [← hall, hadds, hout]
    · rw [hexited]
      refine ⟨trivial, fun hout => ⟨?_, fun current offset' h => by cases h⟩⟩
      show s.out ++ _ <+: s.logged
      rw [hout]
      exact printed_prefix hkept hmem hoffset (List.prefix_refl _)

/-- **Listing the files** moves the command to the newest one. What comes before it
is what was printed if nothing behind the old place is unread. -/
theorem lists_step (hkept : s.Kept) (hmem : entry ∈ s.archive)
    (hoffset : LineEnd '\n' entry.text offset) {newest : String}
    (hnewest : (files s.dir).getLast? = some newest) (hne : newest ≠ entry.name) :
    (∃ last ∈ s.archive, last.name = newest) ∧
      printedAt s.archive newest 0 =
        printedAt s.archive entry.name offset ++ unread s.archive entry.name offset newest := by
  have hlast : newest ∈ s.archive.map Entry.name :=
    List.mem_of_getLast? (hkept.newest ▸ hnewest)
  obtain ⟨last, hlastmem, rfl⟩ := List.mem_map.mp hlast
  obtain ⟨earlier, later, haround⟩ := hkept.around hmem
  refine ⟨⟨last, hlastmem, rfl⟩, haround.printedAt_newest hoffset ?_⟩
  have hend : (s.archive.map Entry.name).getLast? = some last.name := hkept.newest ▸ hnewest
  rcases List.eq_nil_or_concat' later with rfl | ⟨between, final, rfl⟩
  · rw [haround.split, List.map_append] at hend
    simp at hend
    exact absurd hend.symm hne
  · have hsplit : earlier ++ entry :: (between ++ [final]) =
        (earlier ++ entry :: between) ++ [final] := by simp
    rw [haround.split, hsplit, List.map_append, List.map_singleton, List.getLast?_concat] at hend
    have hfinal : final.name = last.name := Option.some.inj hend
    rw [← hfinal]
    exact haround.newer final (by simp)

theorem follows_step (hkept : s.Kept) (hstands : s.Stands)
    (hstep : s.follows follow .all failure = some s') :
    s'.Stands ∧ (s.Printed → skipsNothing s (.follows failure) = true →
      s'.Printed ∧ s.ReadsAll s') := by
  unfold Watch.follows at hstep
  unfold Watch.Stands at hstands
  cases hcase : s.reading with
  | opening kept current =>
      rw [hcase] at hstands
      obtain ⟨printed, rest, entry, later, hsplit, rfl, rfl, hout⟩ := hstands
      cases rest with
      | nil =>
          simp only [hcase, List.map_nil, Option.some.injEq] at hstep
          have hmem : entry ∈ s.archive := by simp [hsplit]
          have haround := hkept.around_of_split hsplit
          have hplace : s.out = printedAt s.archive entry.name 0 := by
            rw [hout, haround.printedAt_eq]
            simp [shown, lines, splitInclusive]
          -- the last of the files listed, which all the others are older than
          obtain ⟨hstands', hprinted⟩ :=
            reads_step hkept hmem (LineEnd.start _ _) (fun offset => by
              cases follow with
              | stop => exact Or.inr ⟨_, rfl⟩
              | keep => exact Or.inl rfl) hstep
          exact ⟨hstands', fun _ _ => ⟨(hprinted hplace).1, fun _ => (hprinted hplace).2⟩⟩
      | cons file rest =>
          simp only [hcase, List.map_cons, Option.some.injEq] at hstep
          have hmem : file ∈ s.archive := by simp [hsplit]
          have hlogged : s.out ++ shown file.text <+: s.logged := by
            rw [Watch.logged, hsplit, hout, List.flatMap_append]
            refine (List.prefix_append_right_inj _).mpr ?_
            simp
          rcases prints_eq failure .failed (fun _ => .opening (rest.map Entry.name) entry.name)
            hkept hmem (LineEnd.start _ _) with ⟨part, hpart, hprints⟩ | hprints
          · rw [← hstep, hprints]
            refine ⟨trivial, fun _ _ => ⟨?_, fun _ current offset h => by cases h⟩⟩
            show s.out ++ part <+: s.logged
            exact ((List.prefix_append_right_inj _).mpr hpart).trans hlogged
          · rw [← hstep, hprints]
            refine ⟨?_, fun _ _ => ⟨trivial, fun _ current offset h => by cases h⟩⟩
            refine ⟨printed ++ [file], rest, entry, later, by simp [hsplit], rfl, rfl, ?_⟩
            show s.out ++ shown file.text = _
            rw [hout]
            simp
  | waiting current offset =>
      rw [hcase] at hstands
      obtain ⟨entry, hmem, rfl, hoffset⟩ := hstands
      simp only [hcase, Option.some.injEq] at hstep
      subst hstep
      have hwaiting : s.Printed → s.out = printedAt s.archive entry.name offset := by
        intro hs
        unfold Watch.Printed at hs
        rwa [hcase] at hs
      have hnothing {exit : Exit} : s.Printed →
          Watch.Printed { s with reading := .exited exit } := by
        intro hs
        obtain ⟨earlier, later, haround⟩ := hkept.around hmem
        show s.out <+: s.logged
        rw [hwaiting hs]
        exact haround.printedAt_begins hoffset
      cases failure with
      | some count =>
          exact ⟨trivial, fun hs _ => ⟨hnothing hs, fun _ current offset h => by cases h⟩⟩
      | none =>
          cases hnewest : (files s.dir).getLast? with
          | none =>
              simp only
              refine ⟨⟨entry, hmem, rfl, hoffset⟩, fun hs _ => ⟨hwaiting hs, fun hne => ?_⟩⟩
              exact absurd hcase hne
          | some newest =>
              simp only
              split_ifs with hne
              -- the one step that may lose a line: what is unread of this file is never come back to
              · obtain ⟨⟨last, hlast, hname⟩, hmoved⟩ := lists_step hkept hmem hoffset hnewest hne
                refine ⟨⟨last, hlast, hname, LineEnd.start _ _⟩, fun hs hskips => ⟨?_, ?_⟩⟩
                · have hunread : unread s.archive entry.name offset newest = [] := by
                    simpa [skipsNothing, hcase, hnewest, hne] using hskips
                  show s.out = printedAt s.archive newest 0
                  rw [hmoved, hunread, List.append_nil]
                  exact hwaiting hs
                · exact fun _ current offset h => by cases h
              · refine ⟨⟨entry, hmem, rfl, hoffset⟩, fun hs _ => ⟨hwaiting hs, ?_⟩⟩
                exact fun _ current offset h => by cases h
  | listed current offset =>
      rw [hcase] at hstands
      obtain ⟨entry, hmem, rfl, hoffset⟩ := hstands
      simp only [hcase, Option.some.injEq] at hstep
      obtain ⟨hstands', hprinted⟩ :=
        reads_step hkept hmem hoffset (fun _ => Or.inl rfl) hstep
      refine ⟨hstands', fun hs _ => ?_⟩
      have hplace : s.out = printedAt s.archive entry.name offset := by
        unfold Watch.Printed at hs
        rwa [hcase] at hs
      exact ⟨(hprinted hplace).1, fun _ => (hprinted hplace).2⟩
  | exited exit =>
      rw [hcase] at hstep
      cases hstep

end reads

/-! ### Every run -/

section runs

variable {s s' : Watch} {e : Event} {follow : Follow}

theorem follows_eq_some {failure : Option ℕ} {window : Window}
    (h : s.follows follow window failure = some s') :
    s'.dir = s.dir ∧ s'.archive = s.archive := by
  have hprints (file : String) (offset : ℕ) (exit : Exit) (next : ℕ → Reading) :
      (s.prints file offset window failure exit next).dir = s.dir ∧
        (s.prints file offset window failure exit next).archive = s.archive := by
    unfold Watch.prints
    cases printFrom s.dir file offset window with
    | none => exact ⟨rfl, rfl⟩
    | some printed => cases failure <;> exact ⟨rfl, rfl⟩
  unfold Watch.follows at h
  cases hcase : s.reading with
  | opening kept current =>
      cases kept <;>
        · simp only [hcase, Option.some.injEq] at h
          exact h ▸ hprints _ _ _ _
  | waiting current offset =>
      simp only [hcase, Option.some.injEq] at h
      exact h ▸ ⟨rfl, rfl⟩
  | listed current offset =>
      simp only [hcase, Option.some.injEq] at h
      exact h ▸ hprints _ _ _ _
  | exited exit => simp [hcase] at h

/-- What every step keeps, whatever is skipped. -/
def Watch.Sound (s : Watch) : Prop := s.Kept ∧ s.Stands

theorem step_sound (hsound : s.Sound) (h : (watching follow .all).step s e = some s') :
    s'.Sound ∧ (s.Printed → skipsNothing s e = true → s'.Printed ∧ s.ReadsAll s') := by
  obtain ⟨hkept, hstands⟩ := hsound
  have hwritten (hkept' : s'.Kept) (hcontinues : Continues s.archive s'.archive)
      (hreading : s'.reading = s.reading) (hout : s'.out = s.out) :
      s'.Sound ∧ (s.Printed → skipsNothing s e = true → s'.Printed ∧ s.ReadsAll s') :=
    ⟨⟨hkept', hcontinues.stands hreading hout hstands⟩, fun hs _ =>
      ⟨hcontinues.printed hkept hkept' hreading hout hstands hs, fun hne =>
        absurd hreading.symm hne⟩⟩
  cases e with
  | appends more =>
      have hkept' := hkept.appends h
      obtain ⟨newest, _, rfl⟩ := Option.map_eq_some_iff.mp h
      exact hwritten hkept' (continues_grown more _) rfl rfl
  | rotates name =>
      have hkept' := hkept.rotates h
      have hstep : s.rotates name = some s' := h
      unfold Watch.rotates at hstep
      split_ifs at hstep
      cases hstep
      exact hwritten hkept' (continues_begun _ _) rfl rfl
  | follows failure =>
      obtain ⟨hdir, harchive⟩ := follows_eq_some h
      have hkept' : s'.Kept :=
        ⟨harchive ▸ hkept.chronological, harchive ▸ hkept.logs, by
          rw [hdir, harchive]
          exact hkept.held, by
          rw [hdir, harchive]
          exact hkept.newest⟩
      obtain ⟨hstands', hprinted⟩ := follows_step hkept hstands h
      exact ⟨⟨hkept', hstands'⟩, hprinted⟩

theorem sound_listing (dir : Directory) : (Watch.listing dir).Sound := by
  refine ⟨kept_listing dir, ?_⟩
  unfold Watch.Stands Watch.listing
  cases hlast : (files dir.entries).getLast? with
  | none => trivial
  | some current =>
      obtain ⟨kept, hkept⟩ := List.getLast?_eq_some_iff.mp hlast
      have hnames := map_name_logsOf dir.entries
      rw [hkept] at hnames
      obtain ⟨rest, last, hsplit, hrest, hend⟩ := List.map_eq_append_iff.mp hnames
      obtain ⟨entry, rfl, hentry⟩ := List.map_eq_singleton_iff.mp hend
      refine ⟨[], rest, entry, [], by simpa using hsplit, ?_, hentry, rfl⟩
      rw [hrest, hkept, List.dropLast_concat]

theorem printed_listing (dir : Directory) : (Watch.listing dir).Printed := by
  unfold Watch.Printed Watch.listing
  cases (files dir.entries).getLast? with
  | none => exact List.nil_prefix
  | some current => trivial

theorem begins_of_printed (hsound : s.Sound) (hs : s.Printed) :
    s.out <+: s.logged ∧ ∀ current offset,
      s.reading = .waiting current offset ∨ s.reading = .listed current offset →
        s.out = printedAt s.archive current offset := by
  obtain ⟨hkept, hstands⟩ := hsound
  unfold Watch.Stands at hstands
  unfold Watch.Printed at hs
  have hplace {current : String} {offset : ℕ} (hout : s.out = printedAt s.archive current offset)
      (hmem : ∃ entry ∈ s.archive, entry.name = current ∧ LineEnd '\n' entry.text offset) :
      s.out <+: s.logged := by
    obtain ⟨entry, hmem, rfl, hoffset⟩ := hmem
    obtain ⟨earlier, later, haround⟩ := hkept.around hmem
    rw [hout]
    exact haround.printedAt_begins hoffset
  cases hcase : s.reading with
  | opening kept current =>
      rw [hcase] at hstands
      obtain ⟨printed, rest, entry, later, hsplit, _, _, hout⟩ := hstands
      refine ⟨?_, fun current offset h => by rcases h with h | h <;> cases h⟩
      rw [hout, Watch.logged, hsplit, List.flatMap_append]
      exact List.prefix_append _ _
  | waiting current offset =>
      rw [hcase] at hs hstands
      refine ⟨hplace hs hstands, fun current' offset' h => ?_⟩
      rcases h with h | h <;> cases h
      exact hs
  | listed current offset =>
      rw [hcase] at hs hstands
      refine ⟨hplace hs hstands, fun current' offset' h => ?_⟩
      rcases h with h | h <;> cases h
      exact hs
  | exited exit =>
      rw [hcase] at hs
      exact ⟨hs, fun current offset h => by rcases h with h | h <;> cases h⟩

/-- A step that skips complete lines has lost them once it is taken. -/
theorem skipsNothing_of_lossless (hsound : s.Sound) (h : (watching follow .all).step s e = some s')
    (hs : s.Lossless) (hs' : s'.Lossless) : skipsNothing s e = true := by
  obtain ⟨hkept, hstands⟩ := hsound
  unfold skipsNothing
  split
  · split
    · next current offset newest hreading hnewest =>
        have hstep : s.follows follow .all none = some s' := h
        unfold Watch.Stands at hstands
        rw [hreading] at hstands
        obtain ⟨entry, hmem, rfl, hoffset⟩ := hstands
        by_cases hne : newest = entry.name
        · simp [hne]
        · simp only [Watch.follows, hreading, hnewest, Option.some.injEq] at hstep
          rw [if_pos hne] at hstep
          have hbefore := hs.place entry.name offset (Or.inl hreading)
          have hafter := hs'.place newest 0 (Or.inr (hstep ▸ rfl))
          obtain ⟨_, hmoved⟩ := lists_step hkept hmem hoffset hnewest hne
          rw [← hstep] at hafter
          have hout : s.out = s.out ++ unread s.archive entry.name offset newest := by
            conv_lhs => rw [show s.out = printedAt s.archive newest 0 from hafter, hmoved, ← hbefore]
          simp [List.self_eq_append_right.mp hout]
    · rfl
  · rfl

/-- A file is not read exactly where that fails or there is no file. -/
theorem prints_exits_iff {file : String} {offset : ℕ} {window : Window} {failure : Option ℕ}
    {exit : Exit} {next : ℕ → Reading} (hnext : ∀ offset exit, next offset ≠ .exited exit) :
    (∀ exit', (s.prints file offset window failure exit next).reading ≠ .exited exit') ↔
      failure = none ∧ (s.dir.any fun entry => entry.name == file) = true := by
  rw [← List.isSome_find?]
  unfold Watch.prints printFrom
  cases s.dir.find? fun entry => entry.name == file with
  | none => simp
  | some found =>
      cases failure with
      | none => simp [hnext]
      | some count => simp

/-- The command goes on exactly where it finds what it is to read. -/
theorem goesOn_iff (hs : ∀ exit, s.reading ≠ .exited exit)
    (h : (watching .keep .all).step s e = some s') :
    (∀ exit, s'.reading ≠ .exited exit) ↔ finds s e = true := by
  cases e with
  | appends more =>
      obtain ⟨newest, _, rfl⟩ := Option.map_eq_some_iff.mp h
      exact iff_of_true hs rfl
  | rotates name =>
      have hstep : s.rotates name = some s' := h
      unfold Watch.rotates at hstep
      split_ifs at hstep
      cases hstep
      exact iff_of_true hs rfl
  | follows failure =>
      have hstep : s.follows .keep .all failure = some s' := h
      unfold Watch.follows at hstep
      simp only [finds, Bool.and_eq_true, Option.isNone_iff_eq_none]
      cases hcase : s.reading with
      | opening kept current =>
          cases kept <;>
            · simp only [hcase, Option.some.injEq] at hstep
              subst hstep
              exact prints_exits_iff fun _ _ => Reading.noConfusion
      | waiting current offset =>
          simp only [hcase, Option.some.injEq] at hstep
          subst hstep
          cases failure with
          | some count => simp
          | none =>
              cases (files s.dir).getLast? with
              | none => simp [Reading.opens]
              | some newest =>
                  simp only
                  split_ifs <;> simp [Reading.opens]
      | listed current offset =>
          simp only [hcase, Option.some.injEq] at hstep
          subst hstep
          exact prints_exits_iff fun _ _ => Reading.noConfusion
      | exited exit => exact absurd hcase (hs exit)

theorem goesOn_listing (dir : Directory) :
    (∀ exit, (Watch.listing dir).reading ≠ .exited exit) ↔ files dir.entries ≠ [] := by
  unfold Watch.listing
  cases hlast : (files dir.entries).getLast? with
  | none => simp [List.getLast?_eq_none_iff.mp hlast]
  | some current =>
      obtain ⟨kept, hkept⟩ := List.getLast?_eq_some_iff.mp hlast
      simp [hkept]

/-- **Following the log loses nothing**, exactly when there is a log to follow, every
file that is listed is still kept when it is opened, and no poll that finds a newer
file leaves a complete line behind. Then the command goes on, what is printed at any
point of the run is a beginning of what was logged and all of it up to the place the
command stands at, and each read ends with all of the file and of those before it
printed. -/
theorem follow_lossless_iff (dir : Directory) (es : List Event) :
    ((∀ first rest s, es = first ++ rest →
        (watching .keep .all).run (.listing dir) first = some s → s.Lossless) ∧
      ∀ s e s', (watching .keep .all).Takes (.listing dir) es s e s' → s.ReadsAll s') ↔
    files dir.entries ≠ [] ∧ ∀ s e s', (watching .keep .all).Takes (.listing dir) es s e s' →
      finds s e = true ∧ skipsNothing s e = true := by
  have hsound {s : Watch} (hreach : (watching .keep .all).Reachable (.listing dir) s) : s.Sound :=
    System.invariant (sound_listing dir) (fun s e s' hs h => (step_sound hs h).1) hreach
  constructor
  · rintro ⟨hlossless, _⟩
    refine ⟨(goesOn_listing dir).mp (hlossless [] es _ rfl rfl).goesOn, ?_⟩
    rintro s e s' ⟨first, rest, rfl, hrun, hstep⟩
    have hs : s.Lossless := hlossless first _ s rfl hrun
    have hs' : s'.Lossless :=
      hlossless (first ++ [e]) rest s' (by simp) (System.run_snoc hrun hstep)
    exact ⟨(goesOn_iff hs.goesOn hstep).mp hs'.goesOn,
      skipsNothing_of_lossless (hsound ⟨first, hrun⟩) hstep hs hs'⟩
  · rintro ⟨hsome, hgoes⟩
    have hprinted : ∀ first rest s, es = first ++ rest →
        (watching .keep .all).run (.listing dir) first = some s →
          (s.Sound ∧ s.Printed) ∧ ∀ exit, s.reading ≠ .exited exit := by
      rintro first rest s rfl hrun
      refine System.invariant_along
        (I := fun s => (s.Sound ∧ s.Printed) ∧ ∀ exit, s.reading ≠ .exited exit)
        ⟨⟨sound_listing dir, printed_listing dir⟩, (goesOn_listing dir).mpr hsome⟩
        (fun s e s' hs hgoes h => ?_) hrun fun s e s' htakes => hgoes s e s' (htakes.append rest)
      obtain ⟨hsound', hnext⟩ := step_sound hs.1.1 h
      exact ⟨⟨hsound', (hnext hs.1.2 hgoes.2).1⟩, (goesOn_iff hs.2 h).mpr hgoes.1⟩
    constructor
    · intro first rest s hes hrun
      obtain ⟨⟨hs, hs'⟩, hon⟩ := hprinted first rest s hes hrun
      obtain ⟨hbegins, hplace⟩ := begins_of_printed hs hs'
      exact ⟨hon, hbegins, hplace⟩
    · intro s e s' htakes
      obtain ⟨first, rest, hes, hrun, hstep⟩ := htakes
      obtain ⟨⟨hs, hs'⟩, _⟩ := hprinted first _ s hes hrun
      exact ((step_sound hs hstep).2 hs' (hgoes s e s' ⟨first, rest, hes, hrun, hstep⟩).2).2

/-- A log of one file with one line in it. -/
def oneLine : Directory where
  entries := [⟨"nhop.log.2026-08-03", "first\n".toList⟩]
  distinct := by simp

/-- A line is appended behind the last poll of its file, and the next file begun. -/
def behindThePoll : List Event :=
  [.follows none, .appends "second\n".toList, .rotates "nhop.log.2026-08-04",
    .appends "third\n".toList, .follows none, .follows none]

/-- It is not printed. -/
theorem follow_loses :
    ¬∀ first rest s, behindThePoll = first ++ rest →
      (watching .keep .all).run (.listing oneLine) first = some s → s.Lossless := by
  intro h
  have hrun : ((watching .keep .all).run (.listing oneLine) behindThePoll).map
      (fun s => (s.reading, s.out, s.logged)) =
      some (.waiting "nhop.log.2026-08-04" 6, ["first".toList, "third".toList],
        ["first".toList, "second".toList, "third".toList]) := by decide +kernel
  obtain ⟨s, hs, hend⟩ := Option.map_eq_some_iff.mp hrun
  have hbegins := (h behindThePoll [] s (List.append_nil _).symm hs).begins
  simp only [Prod.mk.injEq] at hend
  rw [hend.2.1, hend.2.2] at hbegins
  revert hbegins
  decide +kernel

end runs

end Nhop.Cli
