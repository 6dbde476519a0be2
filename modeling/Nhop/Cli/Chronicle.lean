import Nhop.Cli.Lossless
import Nhop.Cli.Rendering

/-!
What `nhop logs --since` shows of what the daemon has logged.

The command with a window goes through the files as the one without does, and prints
the lines of it that fall in the window (`Through`). So what is known of the plain
command is known of it. The daemon writes a line for each connection, turnover and
move, and for what it meets besides, in pieces of whatever length. The lines of the
first three are read as what they were written for, the others as nothing to be shown,
and all of them are placed in time by their stamps.
-/

namespace Nhop.Cli

open Foundation Ipc Proxy Upstream Logging

/-- Stretch of the log that is asked for. -/
inductive Since
  | all
  /-- Only lines stamped at or after this instant. -/
  | since (cutoff : ℤ)
  deriving DecidableEq, Repr

namespace Since

def Covers (since : Since) (instant : ℤ) : Prop :=
  match since with
  | .all => True
  | .since cutoff => cutoff ≤ instant

end Since

/-- When a line was written, by its stamp. -/
def stamped [Formatter] (line : Text) : Option ℤ := (Formatter.value line).bind stampedValue

/-- Whether a line falls in the window. One that cannot be placed in time does not. -/
def Since.holds [Formatter] (since : Since) : Window := fun line =>
  match since with
  | .all => true
  | .since cutoff =>
      match stamped line with
      | none => false
      | some stamp => decide (cutoff ≤ stamp)

/-! ### Going through the log with a window -/

section window

variable {window : Window} {s s' t : Watch} {e : Event} {failure : Option ℕ} {follow : Follow}

/-- Of the lines that are kept of a list the first ones are those kept of a beginning. -/
theorem exists_filter_take {α : Type} (keep : α → Bool) (all : List α) (count : ℕ) :
    ∃ n, (all.take n).filter keep = (all.filter keep).take count := by
  induction all generalizing count with
  | nil => exact ⟨0, by simp⟩
  | cons a all ih =>
      by_cases ha : keep a = true
      · cases count with
        | zero => exact ⟨0, by simp⟩
        | succ count =>
            obtain ⟨n, hn⟩ := ih count
            exact ⟨n + 1, by simp [ha, hn]⟩
      · obtain ⟨n, hn⟩ := ih count
        exact ⟨n + 1, by simp [ha, hn]⟩

/-- The command stands where the plain one does, and has printed of its lines those in
the window. -/
structure Watch.Through (window : Window) (s t : Watch) : Prop where
  dir : s.dir = t.dir
  archive : s.archive = t.archive
  reading : s.reading = t.reading
  out : s.out = t.out.filter window

theorem through_prints (h : s.Through window t) (file : String) (offset : ℕ)
    (failure : Option ℕ) (exit : Exit) (next : ℕ → Reading) :
    ∃ failure', failure'.isNone = failure.isNone ∧
      (s.prints file offset window failure exit next).Through window
        (t.prints file offset .all failure' exit next) := by
  unfold Watch.prints printFrom
  rw [h.dir]
  cases t.dir.find? fun entry => entry.name == file with
  | none => exact ⟨failure, rfl, rfl, h.archive, rfl, h.out⟩
  | some entry =>
      let printed := (readFrom entry.text offset).1
      have hall : printed.filter Window.all = printed := List.filter_eq_self.mpr fun _ _ => rfl
      cases failure with
      | none =>
          refine ⟨none, rfl, rfl, h.archive, rfl, ?_⟩
          show s.out ++ printed.filter window = (t.out ++ printed.filter Window.all).filter window
          rw [hall, List.filter_append, h.out]
      | some count =>
          obtain ⟨n, hn⟩ := exists_filter_take window printed count
          refine ⟨some n, rfl, rfl, h.archive, rfl, ?_⟩
          show s.out ++ (printed.filter window).take count =
            (t.out ++ (printed.filter Window.all).take n).filter window
          rw [hall, List.filter_append, h.out, hn]

theorem through_follows (h : s.Through window t)
    (hstep : s.follows follow window failure = some s') :
    ∃ failure' t', failure'.isNone = failure.isNone ∧
      t.follows follow .all failure' = some t' ∧ s'.Through window t' := by
  unfold Watch.follows at hstep ⊢
  rw [← h.reading]
  cases hcase : s.reading with
  | opening kept current =>
      cases kept with
      | nil =>
          simp only [hcase, Option.some.injEq] at hstep ⊢
          subst hstep
          obtain ⟨failure', hsame, hthrough⟩ := through_prints h current 0 failure .failed _
          exact ⟨failure', _, hsame, rfl, hthrough⟩
      | cons file kept =>
          simp only [hcase, Option.some.injEq] at hstep ⊢
          obtain ⟨failure', hsame, hthrough⟩ := through_prints h file 0 failure .failed
            fun _ => .opening kept current
          exact ⟨failure', _, hsame, rfl, hstep ▸ hthrough⟩
  | waiting current offset =>
      simp only [hcase, Option.some.injEq] at hstep ⊢
      refine ⟨failure, _, rfl, rfl, ?_⟩
      rw [← hstep]
      exact ⟨h.dir, h.archive, by rw [h.dir], h.out⟩
  | listed current offset =>
      simp only [hcase, Option.some.injEq] at hstep ⊢
      obtain ⟨failure', hsame, hthrough⟩ := through_prints h current offset failure .failed
        (.waiting current)
      exact ⟨failure', _, hsame, rfl, hstep ▸ hthrough⟩
  | exited exit =>
      rw [hcase] at hstep
      cases hstep

/-- **A step with a window is one without**, that skips what it skips. -/
theorem through_step (h : s.Through window t)
    (hstep : (watching follow window).step s e = some s') :
    ∃ e' t', (watching follow .all).step t e' = some t' ∧ s'.Through window t' ∧
      skipsNothing t e' = skipsNothing s e := by
  have hskips {failure' failure : Option ℕ} (hsame : failure'.isNone = failure.isNone) :
      skipsNothing t (.follows failure') = skipsNothing s (.follows failure) := by
    unfold skipsNothing
    rw [h.reading, h.dir, h.archive]
    cases failure' <;> cases failure <;> simp at hsame <;> rfl
  cases e with
  | appends more =>
      obtain ⟨newest, hnewest, hs'⟩ := Option.map_eq_some_iff.mp hstep
      rw [h.dir] at hnewest
      have htaken : ∃ t', t.appends more = some t' ∧ s'.Through window t' := by
        rw [Watch.appends, hnewest, Option.map_some, ← hs']
        refine ⟨_, rfl, ?_, ?_, h.reading, h.out⟩
        · simp only [h.dir]
        · simp only [h.archive]
      obtain ⟨t', ht', hthrough⟩ := htaken
      exact ⟨.appends more, t', ht', hthrough, rfl⟩
  | rotates name =>
      have hrotates : s.rotates name = some s' := hstep
      unfold Watch.rotates at hrotates
      split_ifs at hrotates with hnew
      rw [h.dir] at hnew
      have htaken : ∃ t', t.rotates name = some t' ∧ s'.Through window t' := by
        rw [Watch.rotates, if_pos hnew, ← Option.some.inj hrotates]
        refine ⟨_, rfl, ?_, ?_, h.reading, h.out⟩
        · simp only [h.dir]
        · simp only [h.archive]
      obtain ⟨t', ht', hthrough⟩ := htaken
      exact ⟨.rotates name, t', ht', hthrough, rfl⟩
  | follows failure =>
      obtain ⟨failure', t', hsame, hstep', hthrough⟩ := through_follows h hstep
      exact ⟨.follows failure', t', hstep', hthrough, hskips hsame⟩

end window

/-! ### What the command has printed once it waits -/

section tells

variable {dir : Directory} {s s' : Watch} {e : Event} {failure : Option ℕ} {follow : Follow}
  {archive archive' archive'' : List Entry}

theorem continues_refl (archive : List Entry) : Continues archive archive := by
  rintro earlier entry later rfl
  exact ⟨[], later, by simp⟩

theorem Continues.trans (h : Continues archive archive') (h' : Continues archive' archive'') :
    Continues archive archive'' := by
  intro earlier entry later hsplit
  obtain ⟨more, later', hsplit'⟩ := h earlier entry later hsplit
  obtain ⟨more', later'', hsplit''⟩ := h' earlier _ later' hsplit'
  exact ⟨more ++ more', later'', by rw [hsplit'', List.append_assoc]⟩

theorem continues_step (h : (watching follow .all).step s e = some s') :
    Continues s.archive s'.archive := by
  cases e with
  | appends more =>
      obtain ⟨newest, _, rfl⟩ := Option.map_eq_some_iff.mp h
      exact continues_grown more _
  | rotates name =>
      have hstep : s.rotates name = some s' := h
      unfold Watch.rotates at hstep
      split_ifs at hstep
      cases hstep
      exact continues_begun _ _
  | follows failure =>
      rw [(follows_eq_some h).2]
      exact continues_refl _

/-- The command does not stand in what it first found any more: it follows the log, or
has come to its end. -/
def Reading.Past : Reading → Prop
  | .opening _ _ => False
  | .waiting _ _ | .listed _ _ => True
  | .exited exit => exit = .success

/-- What was there when the files were first listed is printed before the command
follows the log, or ends well. -/
structure Watch.Tells (dir : Directory) (s : Watch) : Prop where
  continues : Continues (logsOf dir.entries) s.archive
  opening : ∀ kept current, s.reading = .opening kept current →
    (files dir.entries).getLast? = some current
  past : s.reading.Past → (Watch.listing dir).logged <+: s.out

theorem tells_listing (dir : Directory) : (Watch.listing dir).Tells dir := by
  refine ⟨continues_refl _, ?_, ?_⟩
  · intro kept current hreading
    unfold Watch.listing at hreading
    cases hlast : (files dir.entries).getLast? with
    | none => simp [hlast] at hreading
    | some newest =>
        simp only [hlast, Reading.opening.injEq] at hreading
        rw [hreading.2]
  · intro hpast
    unfold Watch.listing at hpast
    cases hlast : (files dir.entries).getLast? with
    | none => simp [hlast, Reading.Past] at hpast
    | some newest => simp [hlast, Reading.Past] at hpast

/-- A call that prints exits, or goes on behind what it has printed. -/
theorem prints_cases (s : Watch) (file : String) (offset : ℕ) (window : Window)
    (failure : Option ℕ) (exit : Exit) (next : ℕ → Reading) :
    ∃ part reading, s.prints file offset window failure exit next =
        { s with reading := reading, out := s.out ++ part } ∧
      (reading = .exited exit ∨ ∃ offset, reading = next offset) := by
  unfold Watch.prints
  cases printFrom s.dir file offset window with
  | none => exact ⟨[], .exited exit, by simp, Or.inl rfl⟩
  | some printed =>
      cases failure with
      | none => exact ⟨printed.1, next printed.2, rfl, Or.inr ⟨_, rfl⟩⟩
      | some count => exact ⟨printed.1.take count, .exited exit, rfl, Or.inl rfl⟩

theorem Continues.prefix_printedUpTo {current : String} (hkept : s.Kept)
    (h : Continues (logsOf dir.entries) s.archive)
    (hcurrent : (files dir.entries).getLast? = some current) :
    (Watch.listing dir).logged <+: printedUpTo s.archive current := by
  obtain ⟨earlier, last, hsplit, hname⟩ : ∃ earlier last,
      logsOf dir.entries = earlier ++ [last] ∧ last.name = current := by
    rw [← map_name_logsOf] at hcurrent
    rcases List.eq_nil_or_concat' (logsOf dir.entries) with hnil | ⟨earlier, last, hsome⟩
    · simp [hnil] at hcurrent
    · refine ⟨earlier, last, hsome, ?_⟩
      rw [hsome, List.map_append] at hcurrent
      simpa using hcurrent
  obtain ⟨more, later, harchive⟩ := h earlier last [] hsplit
  have haround := hkept.around_of_split harchive
  have hupTo := haround.printedUpTo_eq
  have hlogged : (Watch.listing dir).logged =
      (logsOf dir.entries).flatMap fun entry => shown entry.text := rfl
  rw [← hname, hupTo, hlogged, hsplit, List.flatMap_append]
  refine (List.prefix_append_right_inj _).mpr ?_
  simpa using shown_prefix_append

theorem tells_step (hsound : s.Sound) (h : s.Tells dir)
    (hstep : (watching follow .all).step s e = some s') : s'.Tells dir := by
  obtain ⟨hkept, hstands⟩ := hsound
  have hcontinues := h.continues.trans (continues_step hstep)
  have hwritten (hreading : s'.reading = s.reading) (hout : s'.out = s.out) : s'.Tells dir :=
    ⟨hcontinues, by rw [hreading]; exact h.opening, by rw [hreading, hout]; exact h.past⟩
  cases e with
  | appends more =>
      obtain ⟨newest, _, rfl⟩ := Option.map_eq_some_iff.mp hstep
      exact hwritten rfl rfl
  | rotates name =>
      have hrotates : s.rotates name = some s' := hstep
      unfold Watch.rotates at hrotates
      split_ifs at hrotates
      cases hrotates
      exact hwritten rfl rfl
  | follows failure =>
      have hfollows : s.follows follow .all failure = some s' := hstep
      unfold Watch.follows at hfollows
      unfold Watch.Stands at hstands
      cases hcase : s.reading with
      | opening kept current =>
          have hcurrent := h.opening kept current hcase
          rw [hcase] at hstands
          obtain ⟨printed, rest, entry, later, hsplit, rfl, rfl, hout⟩ := hstands
          cases rest with
          | nil =>
              simp only [hcase, List.map_nil, Option.some.injEq] at hfollows
              have hmem : entry ∈ s.archive := by simp [hsplit]
              rcases prints_eq failure .failed _ hkept hmem (LineEnd.start _ _) with
                ⟨part, _, hprints⟩ | hprints
              · rw [hprints] at hfollows
                subst hfollows
                exact ⟨hcontinues, (fun _ _ heq => by cases heq), (fun hpast => by cases hpast)⟩
              · rw [hprints] at hfollows
                subst hfollows
                refine ⟨hcontinues, ?_, fun _ => ?_⟩
                · intro kept current heq
                  cases follow <;> cases heq
                · have haround := hkept.around_of_split hsplit
                  show (Watch.listing dir).logged <+: s.out ++ shown (entry.text.drop 0)
                  rw [hout, List.drop_zero, ← haround.printedUpTo_eq]
                  exact h.continues.prefix_printedUpTo hkept hcurrent
          | cons file rest =>
              simp only [hcase, List.map_cons, Option.some.injEq] at hfollows
              obtain ⟨part, reading, hprints, hreading⟩ := prints_cases s file.name 0 .all failure
                .failed fun _ => .opening (rest.map Entry.name) entry.name
              rw [hprints] at hfollows
              subst hfollows
              rcases hreading with rfl | ⟨_, rfl⟩
              · exact ⟨hcontinues, (fun _ _ heq => by cases heq), (fun hpast => by cases hpast)⟩
              · refine ⟨hcontinues, ?_, fun hpast => hpast.elim⟩
                rintro _ _ ⟨⟩
                exact hcurrent
      | waiting current offset =>
          -- nothing is printed here, and whatever file comes next is past the ones listed
          have hpast := h.past (by rw [hcase]; trivial)
          simp only [hcase, Option.some.injEq] at hfollows
          subst hfollows
          refine ⟨hcontinues, ?_, fun _ => hpast⟩
          intro kept current' heq
          exfalso
          revert heq
          simp only
          split
          · simp
          · split
            · simp
            · split_ifs <;> simp
      | listed current offset =>
          have hpast := h.past (by rw [hcase]; trivial)
          simp only [hcase, Option.some.injEq] at hfollows
          obtain ⟨part, reading, hprints, hreading⟩ := prints_cases s current offset .all failure
            .failed (.waiting current)
          rw [hprints] at hfollows
          subst hfollows
          refine ⟨hcontinues, ?_, fun _ => hpast.trans (List.prefix_append _ _)⟩
          rcases hreading with rfl | ⟨_, rfl⟩ <;>
            · rintro _ _ ⟨⟩
      | exited exit =>
          rw [hcase] at hfollows
          cases hfollows

/-- The last file holds the last of what was logged. -/
theorem printedUpTo_newest {newest : String} (hkept : s.Kept)
    (hnewest : (files s.dir).getLast? = some newest) : printedUpTo s.archive newest = s.logged := by
  have hlast := hkept.newest ▸ hnewest
  rcases List.eq_nil_or_concat' s.archive with hnil | ⟨earlier, last, hsome⟩
  · simp [hnil] at hlast
  · rw [hsome, List.map_append] at hlast
    obtain rfl : last.name = newest := by simpa using hlast
    rw [(hkept.around_of_split hsome).printedUpTo_eq, Watch.logged, hsome, List.flatMap_append]
    simp

/-- **A poll brings everything.** -/
theorem poll_tells {current : String} {offset : ℕ} (hsound : s.Sound) (hprinted : s.Printed)
    (hreading : s.reading = .waiting current offset)
    (hskips : skipsNothing s (.follows none) = true)
    (hpoll : (watching follow .all).run s [.follows none, .follows none] = some s') :
    s'.out = s'.logged := by
  obtain ⟨listed, hfirst, hsecond⟩ : ∃ listed, (watching follow .all).step s (.follows none) =
      some listed ∧ (watching follow .all).step listed (.follows none) = some s' := by
    simpa [System.run_cons, Option.bind_eq_some_iff] using hpoll
  obtain ⟨hsound₁, hnext⟩ := step_sound hsound hfirst
  obtain ⟨hprinted₁, _⟩ := hnext hprinted hskips
  obtain ⟨hkept, hstands⟩ := hsound
  have hstep : s.follows follow .all none = some listed := hfirst
  unfold Watch.Stands at hstands
  rw [hreading] at hstands
  obtain ⟨entry, hmem, rfl, _⟩ := hstands
  obtain ⟨newest, hnewest⟩ : ∃ newest, (files s.dir).getLast? = some newest := by
    rw [hkept.newest, ← Option.isSome_iff_exists, List.getLast?_isSome, ne_eq,
      List.map_eq_nil_iff]
    exact List.ne_nil_of_mem hmem
  obtain ⟨place, rfl⟩ : ∃ place, listed = { s with reading := .listed newest place } := by
    simp only [Watch.follows, hreading, hnewest, Option.some.injEq] at hstep
    rw [← hstep]
    by_cases hmoved : newest = entry.name
    · exact ⟨offset, by simp [hmoved]⟩
    · exact ⟨0, by simp [hmoved]⟩
  have hfound : ∃ found, s.dir.find? (fun other => other.name == newest) = some found := by
    obtain ⟨_, other, hother, hname⟩ := mem_files.mp (List.mem_of_getLast? hnewest)
    rw [← Option.isSome_iff_exists, List.find?_isSome]
    exact ⟨other, hother, by simpa using hname⟩
  obtain ⟨found, hfound⟩ := hfound
  obtain ⟨_, hread⟩ := (step_sound hsound₁ hsecond).2 hprinted₁ rfl
  have hprints : s' = { s with
      reading := .waiting newest (readFrom found.text place).2
      out := s.out ++ (readFrom found.text place).1.filter Window.all } := by
    have hsecond' : Watch.follows { s with reading := .listed newest place } follow .all none =
        some s' := hsecond
    simp only [Watch.follows, Option.some.injEq] at hsecond'
    rw [← hsecond', Watch.prints, printFrom]
    simp only [hfound, Option.map_some]
  have hout := hread (by rw [hprints]; simp) newest _ (by rw [hprints])
  rw [hout]
  have hdir : s'.dir = s.dir := by rw [hprints]
  have harchive : s'.archive = s.archive := by rw [hprints]
  rw [Watch.logged, harchive]
  exact printedUpTo_newest hkept hnewest

end tells

/-! ### What the daemon writes -/

/-- One record of the log, with what its writer knows of it. -/
inductive Note
  | decision (event : EventView) (fits : Fits event)
  | turnover (logged : VerdictLine)
  | switch (left reached : Option Upstream) (cause : SwitchCause)
  | openFiles (soft hard : UInt64)
  | openFilesFailed (failure : String)
  | directKeepalive (failure : String)
  | upstreamKeepalive (failure : String)
  | unacceptedClient (failure : String)
  | unacceptedCommand (failure : String)

namespace Note

def record : Note → Record
  | .decision event _ => Logging.decision event
  | .turnover logged => Logging.turnover logged
  | .switch left reached cause =>
      Logging.switch ⟨left.map Upstream.written, reached.map Upstream.written, cause⟩
  | .openFiles soft hard => Logging.openFiles soft hard
  | .openFilesFailed failure => Logging.openFilesFailed failure
  | .directKeepalive failure => Logging.directKeepalive failure
  | .upstreamKeepalive failure => Logging.upstreamKeepalive failure
  | .unacceptedClient failure => Logging.unacceptedClient failure
  | .unacceptedCommand failure => Logging.unacceptedCommand failure

/-- What a reader is to be told, which is nothing of what has no rendering. -/
def told (instant : ℤ) : Note → Option Logged
  | .decision event _ => some (.decision instant event)
  | .turnover logged =>
      some (.verdict instant (some logged.upstream) logged.verdictFrom logged.verdictTo
        logged.cause)
  | .switch left reached cause =>
      some (.switch instant (left.map Upstream.written) (reached.map Upstream.written) cause)
  | .openFiles _ _ | .openFilesFailed _ | .directKeepalive _ | .upstreamKeepalive _
  | .unacceptedClient _ | .unacceptedCommand _ => none

theorem nodup_record (note : Note) : (note.record.map Prod.fst).Nodup := by
  cases note <;>
    simp [record, Logging.decision, Logging.turnover, Logging.switch, Logging.openFiles,
      Logging.openFilesFailed, Logging.directKeepalive, Logging.upstreamKeepalive,
      Logging.unacceptedClient, Logging.unacceptedCommand, Logging.warned]

theorem isScalar_record (note : Note) : ∀ field ∈ present note.record, Json.IsScalar field.2 := by
  cases note with
  | decision event fits => exact isScalar_decision fits
  | turnover logged => exact isScalar_turnover logged
  | switch left reached cause => exact isScalar_switch _
  | openFiles soft hard =>
      apply isScalar_present
      have hsoft := soft.toNat_lt
      have hhard := hard.toNat_lt
      simp [record, Logging.openFiles, Json.IsScalar, hsoft, hhard]
  | openFilesFailed | directKeepalive | upstreamKeepalive | unacceptedClient
  | unacceptedCommand =>
      apply isScalar_present
      simp [record, Logging.openFilesFailed, Logging.directKeepalive, Logging.upstreamKeepalive,
        Logging.unacceptedClient, Logging.unacceptedCommand, Logging.warned, Json.IsScalar]

end Note

/-- A record, and when it is written. -/
abbrev Noted := ℤ × Note

section written

variable [Formatter] {since : Since} {line rest : Text} {entry : Entry} {noted : Noted}
  {notes : List Noted}

def lineOf (noted : Noted) : Text := Formatter.line noted.1 (present noted.2.record)

/-- The formatter writes one line, without blanks behind it. -/
structure LineByLine : Prop where
  unbroken : ∀ noted, '\n' ∉ lineOf noted
  trimmed : ∀ noted, trimEnd (lineOf noted) = lineOf noted

/-- The timestamp of a line is when it was written, as far as the formatter keeps it. -/
def Punctual (kept : ℤ → ℤ) : Prop :=
  ∀ stamp fields, (fields.map Prod.fst).Nodup → (∀ field ∈ fields, Json.IsScalar field.2) →
    ∃ members written, Formatter.value (Formatter.line stamp fields) = some (.object members) ∧
      members.lookup "timestamp" = some (.text written) ∧
      Formatter.rfc3339 written = some (kept stamp)

/-- The file holds the records, and perhaps the beginning of another one. -/
def Holds (entry : Entry) (notes : List Noted) : Prop :=
  ∃ rest, '\n' ∉ rest ∧ entry.text = (notes.flatMap fun noted => lineOf noted ++ ['\n']) ++ rest

/-- When what was read of a line was written. -/
def Logging.Logged.stamp : Logged → ℤ
  | .decision stamp _ | .verdict stamp _ _ _ _ | .switch stamp _ _ _ => stamp

theorem stamped_of_logged {told : Logged} (h : logged line = some told) :
    stamped line = some told.stamp := by
  unfold logged at h
  cases hvalue : Formatter.value line with
  | none => simp [hvalue] at h
  | some value =>
      cases hstamp : stampedValue value with
      | none => simp [hvalue, hstamp] at h
      | some stamp =>
          cases hfields : memberOf value "fields" with
          | none => simp [hvalue, hstamp, hfields] at h
          | some fields =>
              simp only [hvalue, hstamp, hfields, Option.bind_eq_bind, Option.bind_some] at h
              rw [stamped, hvalue, Option.bind_some, hstamp]
              cases hevent : (structFields eventNames fields).bind readEvent with
              | some event =>
                  rw [hevent] at h
                  cases h
                  rfl
              | none =>
                  rw [hevent] at h
                  cases hverdict : (structFields verdictNames fields).bind readVerdict with
                  | some verdict =>
                      rw [hverdict] at h
                      cases h
                      rfl
                  | none =>
                      rw [hverdict] at h
                      obtain ⟨switch, _, hswitch⟩ := Option.bind_eq_some_iff.mp h
                      cases hswitch
                      rfl

theorem stamped_note {kept : ℤ → ℤ} (h : Punctual kept) (noted : Noted) :
    stamped (lineOf noted) = some (kept noted.1) := by
  obtain ⟨members, written, hvalue, hstamp, hinstant⟩ := h noted.1 (present noted.2.record)
    (nodup_present noted.2.nodup_record) noted.2.isScalar_record
  rw [stamped, lineOf, hvalue, Option.bind_some]
  simp only [stampedValue, memberOf, hstamp, hinstant]

theorem holds_note {kept : ℤ → ℤ} (h : Punctual kept) (noted : Noted) :
    since.holds (lineOf noted) = true ↔ since.Covers (kept noted.1) := by
  cases since with
  | all => simp [Since.holds, Since.Covers]
  | since cutoff => simp [Since.holds, Since.Covers, stamped_note h]

/-- **A record is read back** as what it was written for, at some instant. -/
theorem logged_note (noted : Noted) :
    ∃ instant, logged (lineOf noted) = noted.2.told instant := by
  obtain ⟨stamp, note⟩ := noted
  obtain ⟨instant, hlogged⟩ := logged_line stamp note.nodup_record note.isScalar_record
  refine ⟨instant, hlogged.trans ?_⟩
  cases note with
  | decision event fits =>
      simp only [Note.record, readEvent_decision fits]
      rfl
  | turnover written =>
      simp only [Note.record, @readEvent_of_noHost (fieldOf (turnover written)) rfl,
        readVerdict_turnover]
      rfl
  | switch left reached cause =>
      simp only [Note.record, @readEvent_of_noHost (fieldOf (switch _)) rfl,
        @readVerdict_of_noVerdict (fieldOf (switch _)) rfl, readSwitch_switch,
        Option.map_some, named_loggedAddr]
      rfl
  | openFiles | openFilesFailed | directKeepalive | upstreamKeepalive | unacceptedClient
  | unacceptedCommand =>
      rw [readEvent_of_noHost rfl, readVerdict_of_noVerdict rfl, readSwitch_of_noCause rfl]
      rfl

/-- And that instant is the one it was written at. -/
theorem logged_punctual {kept : ℤ → ℤ} (h : Punctual kept) (noted : Noted) :
    logged (lineOf noted) = noted.2.told (kept noted.1) := by
  obtain ⟨instant, hlogged⟩ := logged_note noted
  have hsame (told : Logged) (htold : noted.2.told instant = some told) :
      told.stamp = kept noted.1 := by
    have hstamped := stamped_of_logged (hlogged.trans htold)
    rw [stamped_note h] at hstamped
    exact (Option.some.inj hstamped).symm
  rw [hlogged]
  obtain ⟨stamp, note⟩ := noted
  cases note with
  | decision | turnover | switch =>
      have hinstant : instant = kept stamp := hsame _ rfl
      rw [hinstant]
  | openFiles | openFilesFailed | directKeepalive | upstreamKeepalive | unacceptedClient
  | unacceptedCommand => rfl

omit [Formatter] in
theorem lines_of_notMem (h : '\n' ∉ rest) : lines '\n' rest = [] := by
  unfold lines
  cases hsplit : splitInclusive '\n' rest with
  | nil => rfl
  | cons piece pieces =>
      refine List.takeWhile_cons_of_neg ?_
      have hflat := flatten_splitInclusive '\n' rest
      rw [hsplit] at hflat
      intro hended
      have hmem : '\n' ∈ piece :=
        List.mem_of_getLast? (by simpa [Foundation.ended] using hended)
      exact h (hflat ▸ List.mem_flatten_of_mem (List.mem_cons_self ..) hmem)

omit [Formatter] in
theorem lines_line (h : '\n' ∉ line) (more : Text) :
    lines '\n' (line ++ '\n' :: more) = (line ++ ['\n']) :: lines '\n' more := by
  have hsplit : splitInclusive '\n' (line ++ ['\n']) = [line ++ ['\n']] := by
    induction line with
    | nil => rfl
    | cons c line ih =>
        obtain ⟨hc, hline⟩ := not_or.mp (mt List.mem_cons.mpr h)
        rw [List.cons_append, splitInclusive, if_neg (Ne.symm hc), ih hline]
  have hone : lines '\n' (line ++ ['\n']) = [line ++ ['\n']] := by
    rw [lines, hsplit]
    simp [Foundation.ended]
  have hclosed : Closed '\n' (line ++ ['\n']) := Or.inr (by simp)
  rw [show line ++ '\n' :: more = (line ++ ['\n']) ++ more by simp, lines_append hclosed, hone]
  rfl

omit [Formatter] in
theorem trimEnd_line (line : Text) : trimEnd (line ++ ['\n']) = trimEnd line := by
  simp only [trimEnd, List.reverse_append, List.reverse_singleton, List.singleton_append]
  rw [List.dropWhile_cons_of_pos (by decide)]

theorem shown_of_holds (hlines : LineByLine) (h : Holds entry notes) :
    shown entry.text = notes.map lineOf := by
  obtain ⟨rest, hrest, htext⟩ := h
  rw [htext, shown]
  clear htext
  induction notes with
  | nil => simp [lines_of_notMem hrest]
  | cons noted notes ih =>
      have hfirst := lines_line (hlines.unbroken noted)
        ((notes.flatMap fun noted => lineOf noted ++ ['\n']) ++ rest)
      rw [List.flatMap_cons, List.append_assoc, List.append_assoc, List.singleton_append, hfirst,
        List.map_cons, ih, trimEnd_line, hlines.trimmed, List.map_cons]

theorem shown_of_forall₂ (hlines : LineByLine) {archive : List Entry}
    {perFile : List (List Noted)} (h : List.Forall₂ Holds archive perFile) :
    (archive.flatMap fun entry => shown entry.text) = perFile.flatten.map lineOf := by
  induction h with
  | nil => rfl
  | cons hentry _ ih =>
      rw [List.flatMap_cons, ih, shown_of_holds hlines hentry, List.flatten_cons, List.map_append]

/-- **What `logs --since` tells.** Each record of the log is read back as what it was
written for, at the instant it was written at as far as its stamp keeps it, or as
nothing where it has no rendering; and by that instant it falls in the window. At any
point of a run whose polls skip nothing, the lines printed are a beginning of those of
the records in the window, each once and in order. What was there when the command
began is among them once it follows the log or has ended well, and a poll brings all
the rest. -/
theorem logs_tell (hlines : LineByLine) {kept : ℤ → ℤ} (hpunctual : Punctual kept)
    (dir : Directory) {follow : Follow} {es : List Event} {s : Watch}
    (hrun : (watching follow since.holds).run (.listing dir) es = some s)
    (hskips : ∀ s e s', (watching follow since.holds).Takes (.listing dir) es s e s' →
      skipsNothing s e = true) {perFile : List (List Noted)}
    (hwritten : List.Forall₂ Holds s.archive perFile) :
    (∀ noted ∈ perFile.flatten, logged (lineOf noted) = noted.2.told (kept noted.1) ∧
      (since.holds (lineOf noted) = true ↔ since.Covers (kept noted.1))) ∧
    s.out <+: (perFile.flatten.map lineOf).filter since.holds ∧
    (s.reading.Past → (Watch.listing dir).logged.filter since.holds <+: s.out) ∧
    ∀ current offset s', s.reading = .waiting current offset →
      skipsNothing s (.follows none) = true →
      (watching follow since.holds).run s [.follows none, .follows none] = some s' →
        s'.out = (perFile.flatten.map lineOf).filter since.holds := by
  have hplain : ∃ t, s.Through since.holds t ∧ t.Sound ∧ t.Printed ∧ t.Tells dir := by
    refine System.invariant_along
      (I := fun s => ∃ t, s.Through since.holds t ∧ t.Sound ∧ t.Printed ∧ t.Tells dir)
      ⟨.listing dir, ⟨rfl, rfl, rfl, rfl⟩, sound_listing dir, printed_listing dir,
        tells_listing dir⟩ ?_ hrun hskips
    rintro s e s' ⟨t, hthrough, hsound, hprinted, htells⟩ hs hstep
    obtain ⟨e', t', hstep', hthrough', hskip⟩ := through_step hthrough hstep
    obtain ⟨hsound', hnext⟩ := step_sound hsound hstep'
    exact ⟨t', hthrough', hsound', (hnext hprinted (hskip.trans hs)).1,
      tells_step hsound htells hstep'⟩
  obtain ⟨t, hthrough, hsound, hprinted, htells⟩ := hplain
  have hlogged : t.logged = perFile.flatten.map lineOf := by
    rw [Watch.logged, ← hthrough.archive]
    exact shown_of_forall₂ hlines hwritten
  refine ⟨?_, ?_, ?_, ?_⟩
  · intro noted _
    exact ⟨logged_punctual hpunctual noted, holds_note hpunctual noted⟩
  · rw [hthrough.out, ← hlogged]
    exact (begins_of_printed hsound hprinted).1.filter _
  · intro hpast
    rw [hthrough.out]
    exact (htells.past (hthrough.reading ▸ hpast)).filter _
  · intro current offset s' hreading hskip hpoll
    obtain ⟨s₁, hfirst, hsecond⟩ : ∃ s₁, (watching follow since.holds).step s (.follows none) =
        some s₁ ∧ (watching follow since.holds).step s₁ (.follows none) = some s' := by
      simpa [System.run_cons, Option.bind_eq_some_iff] using hpoll
    obtain ⟨failure, t₁, hnone, hfirst', hthrough₁⟩ := through_follows hthrough hfirst
    obtain ⟨failure', t₂, hnone', hsecond', hthrough₂⟩ := through_follows hthrough₁ hsecond
    obtain rfl : failure = none := by simpa using hnone
    obtain rfl : failure' = none := by simpa using hnone'
    have hskip' : skipsNothing t (.follows none) = true := by
      rw [← hskip, skipsNothing, skipsNothing, hthrough.reading, hthrough.dir, hthrough.archive]
    have hrun' : (watching follow .all).run t [.follows none, .follows none] = some t₂ := by
      rw [System.run_cons,
        show (watching follow .all).step t (.follows none) = some t₁ from hfirst',
        Option.bind_some, System.run_cons,
        show (watching follow .all).step t₁ (.follows none) = some t₂ from hsecond',
        Option.bind_some, System.run_nil]
    have hall := poll_tells hsound hprinted (hthrough.reading ▸ hreading) hskip' hrun'
    have hsame : t₂.logged = t.logged := by
      unfold Watch.logged
      rw [(follows_eq_some hsecond').2, (follows_eq_some hfirst').2]
    rw [hthrough₂.out, hall, hsame, hlogged]

end written

/-! ### A log to read -/

theorem notMem_scalar (value : Json.Value) : '\n' ∉ Json.scalar value := by
  cases value with
  | text text => exact Json.notMem_quoted text
  | number number => exact unbroken_toString number
  | _ => exact Json.notMem_plain _

theorem notMem_nested (value : Json.Value) : '\n' ∉ Json.nested value := by
  cases value with
  | object members =>
      refine Json.notMem_object fun field hfield => ?_
      obtain ⟨member, _, rfl⟩ := List.mem_map.mp hfield
      exact notMem_scalar _
  | _ =>
      rw [Json.nested]
      · exact notMem_scalar _
      · simp

theorem lineByLine_json : @LineByLine Formatter.json := by
  refine @LineByLine.mk Formatter.json ?_ ?_
  · intro noted
    refine Json.notMem_object fun field hfield => ?_
    obtain ⟨member, _, rfl⟩ := List.mem_map.mp hfield
    exact notMem_nested _
  · intro noted
    have hbrace (text : Text) : trimEnd (text ++ ['}']) = text ++ ['}'] := by
      simp only [trimEnd, List.reverse_append, List.reverse_singleton, List.singleton_append]
      rw [List.dropWhile_cons_of_neg (by decide)]
      simp
    exact hbrace _

def freshLog : Directory where
  entries := [⟨"nhop.log.2026-08-03", []⟩]
  distinct := by simp

theorem punctual_json : @Punctual Formatter.json Formatter.kept := by
  intro stamp fields _ hscalar
  exact ⟨Formatter.members stamp fields, _, Formatter.parse_jsonLine hscalar, rfl,
    Formatter.instantOf_clock stamp⟩

/-- The daemon starts at the epoch, and a connection falls back five seconds later. -/
def notedEarly : List Noted :=
  [(0, .openFiles 8192 10240), (5 * 10 ^ 9, .decision fellBack ⟨by decide, by decide, by decide⟩)]

def earlyLog : Text := notedEarly.flatMap fun noted => @lineOf Formatter.json noted ++ ['\n']

/-- The last three seconds are asked for. -/
theorem logs_tell_fellBack : ∃ s,
    (watching .keep (@Since.holds Formatter.json (.since (3 * 10 ^ 9)))).run (.listing freshLog)
      [.follows none, .appends earlyLog, .follows none, .follows none] = some s ∧
    (∀ noted ∈ notedEarly,
      @logged Formatter.json (@lineOf Formatter.json noted) = noted.2.told noted.1) ∧
    s.out <+: (notedEarly.map (@lineOf Formatter.json)).filter
      (@Since.holds Formatter.json (.since (3 * 10 ^ 9))) := by
  let es : List Event := [.follows none, .appends earlyLog, .follows none, .follows none]
  have hrun : ((watching .keep (@Since.holds Formatter.json (.since (3 * 10 ^ 9)))).run
      (.listing freshLog) es).map Watch.archive = some [⟨"nhop.log.2026-08-03", earlyLog⟩] := by
    decide +kernel
  have hevery : (watching .keep (@Since.holds Formatter.json (.since (3 * 10 ^ 9)))).every
      skipsNothing (.listing freshLog) es = true := by decide +kernel
  obtain ⟨s, hs, harchive⟩ := Option.map_eq_some_iff.mp hrun
  have hwritten : List.Forall₂ (@Holds Formatter.json) s.archive [notedEarly] := by
    rw [harchive]
    exact .cons ⟨[], by simp, by rw [List.append_nil]; rfl⟩ .nil
  obtain ⟨hread, hout, _⟩ := @logs_tell Formatter.json (.since (3 * 10 ^ 9)) lineByLine_json _
    punctual_json freshLog .keep es s hs (fun s e s' htakes => htakes.of_every hevery) _ hwritten
  refine ⟨s, hs, fun noted hmem => ?_, hout⟩
  have hkept : ∀ noted ∈ notedEarly, Formatter.kept noted.1 = noted.1 := by
    simp only [notedEarly, List.forall_mem_cons]
    exact ⟨by decide, by decide, List.forall_mem_nil _⟩
  rw [(hread noted hmem).1, hkept noted hmem]

end Nhop.Cli
