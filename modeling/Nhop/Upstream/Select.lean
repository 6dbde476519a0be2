import Nhop.Foundation.Leftmost
import Nhop.Upstream.Entries

/-!
Which published upstream new connections go through.

The choice reads nothing but the verdicts and the clock. It is made in one pass:
the first entry that has been up for the whole return hold ends it, and an entry
that is up without having held is remembered when it has been up longer than the
one remembered before.

Seen from above, the pass looks for the leftmost least entry: an entry that has
held ranks below every instant, an entry that is up ranks by its instant, and an
entry that is down does not rank (`select_eq_leftmost`). What displaces what is
then a comparison of ranks.
-/

namespace Nhop.Upstream

open Foundation Ipc Proxy

/-- How long a higher-ranked upstream has to stay up before it takes new
connections back. -/
def returnHold : ℕ := seconds 60

/-- Whether an upstream has been up for the whole return hold. -/
inductive Held
  | yes | no
  deriving DecidableEq, Repr

def held (changedAt now : ℤ) (hold : ℕ) : Held :=
  match durationSince now changedAt with
  | none => .no
  | some upFor => if hold ≤ upFor then .yes else .no

/-- The pass from position `index` on, remembering the entry up longest so far. -/
def selectFrom (now : ℤ) (hold : ℕ) : List Health → ℕ → Option (ℕ × ℤ) → Option ℕ
  | [], _, longest => longest.map Prod.fst
  | verdict :: rest, index, longest =>
      match verdict.state with
      | .down => selectFrom now hold rest (index + 1) longest
      | .up =>
          match held verdict.changedAt now hold with
          -- the earliest entry that has held is taken without a look at the rest
          | .yes => some index
          | .no =>
              match longest with
              | none => selectFrom now hold rest (index + 1) (some (index, verdict.changedAt))
              | some (earliest, since) =>
                  -- of two stamps that are equal the earlier entry keeps its place
                  if verdict.changedAt < since then
                    selectFrom now hold rest (index + 1) (some (index, verdict.changedAt))
                  else selectFrom now hold rest (index + 1) (some (earliest, since))

/-- The index of the entry new connections go through, absent while none is up. -/
def select (entries : List Health) (now : ℤ) (hold : ℕ) : Option ℕ :=
  selectFrom now hold entries 0 none

namespace UpstreamEntries

/-- The index of the entry new connections go through at `now`. -/
def selected (list : UpstreamEntries) (cells : Verdicts) (now : ℤ) (hold : ℕ) : Option ℕ :=
  select (list.verdicts cells) now hold

end UpstreamEntries

/-! ### The choice as a least rank -/

theorem held_eq_yes {changedAt now : ℤ} {hold : ℕ} :
    held changedAt now hold = .yes ↔ changedAt + hold ≤ now := by
  unfold held
  cases h : durationSince now changedAt with
  | none =>
      have hlater : ¬changedAt ≤ now := by
        unfold durationSince at h
        split at h <;> simp_all
      simp only [reduceCtorEq, false_iff]
      omega
  | some upFor =>
      obtain ⟨hle, hlength⟩ := durationSince_eq_some.mp h
      simp only
      split <;> simp <;> omega

/-- The entry has been up for the whole return hold. -/
def Health.Holds (verdict : Health) (now : ℤ) (hold : ℕ) : Prop :=
  verdict.state = .up ∧ held verdict.changedAt now hold = .yes

instance (verdict : Health) (now : ℤ) (hold : ℕ) : Decidable (verdict.Holds now hold) :=
  inferInstanceAs (Decidable (_ ∧ _))

/-- The rank of an entry: below every instant once it has held, its instant
before that, none while it is down. -/
def rank (now : ℤ) (hold : ℕ) (verdict : Health) : Option (WithBot ℤ) :=
  match verdict.state with
  | .down => none
  | .up =>
      match held verdict.changedAt now hold with
      | .yes => some ⊥
      | .no => some verdict.changedAt

section rank

variable {now : ℤ} {hold : ℕ} {verdict : Health} {entries : List Health} {i j : ℕ}

theorem rank_down (h : verdict.state = .down) : rank now hold verdict = none := by
  simp [rank, h]

theorem rank_held (h : verdict.Holds now hold) : rank now hold verdict = some ⊥ := by
  simp [rank, h.1, h.2]

theorem rank_up (hup : verdict.state = .up) (hheld : ¬verdict.Holds now hold) :
    rank now hold verdict = some (verdict.changedAt : WithBot ℤ) := by
  have hno : held verdict.changedAt now hold = .no := by
    cases h : held verdict.changedAt now hold with
    | yes => exact absurd ⟨hup, h⟩ hheld
    | no => rfl
  simp [rank, hup, hno]

theorem rank_isSome : (rank now hold verdict).isSome ↔ verdict.state = .up := by
  by_cases hheld : verdict.Holds now hold
  · simp [rank_held hheld, hheld.1]
  · cases h : verdict.state with
    | down => simp [rank_down h]
    | up => simp [rank_up h hheld]

/-- The pass keeps what the scan for the least rank keeps. The induction is on
the entries still to come, and the instant remembered is the rank remembered. -/
theorem selectFrom_eq (index : ℕ) (longest : Option (ℕ × ℤ)) :
    selectFrom now hold entries index longest =
      (leftmostFrom (rank now hold) entries index
        (longest.map fun best => (best.1, (best.2 : WithBot ℤ)))).map Prod.fst := by
  induction entries generalizing index longest with
  | nil => cases longest <;> rfl
  | cons verdict rest ih =>
      rw [leftmostFrom]
      by_cases hheld : verdict.Holds now hold
      · have hstop : better (longest.map fun best => (best.1, (best.2 : WithBot ℤ))) index
            (rank now hold verdict) = some (index, ⊥) := by
          rw [rank_held hheld]
          cases longest with
          | none => rfl
          | some best => simp [better]
        rw [hstop, leftmostFrom_of_bot]
        simp [selectFrom, hheld.1, hheld.2]
      · cases hstate : verdict.state with
        | down => simp [selectFrom, hstate, rank_down hstate, better, ih]
        | up =>
            have hno : held verdict.changedAt now hold = .no := by
              cases h : held verdict.changedAt now hold with
              | yes => exact absurd ⟨hstate, h⟩ hheld
              | no => rfl
            rw [rank_up hstate hheld]
            cases longest with
            | none => simp [selectFrom, hstate, hno, better, ih]
            | some best =>
                obtain ⟨earliest, since⟩ := best
                by_cases hlt : verdict.changedAt < since
                · simp [selectFrom, hstate, hno, better, ih, hlt]
                · simp [selectFrom, hstate, hno, better, ih, hlt]

/-- **The choice is the leftmost least rank.** -/
theorem select_eq_leftmost :
    select entries now hold = (leftmost (rank now hold) entries).map Prod.fst := by
  have h : selectFrom now hold entries 0 none =
      (leftmostFrom (rank now hold) entries 0 none).map Prod.fst := selectFrom_eq 0 none
  exact h

theorem select_eq_some :
    select entries now hold = some i ↔ ∃ k, IsLeftmost (rank now hold) entries i k := by
  rw [select_eq_leftmost, Option.map_eq_some_iff]
  constructor
  · rintro ⟨⟨b, k⟩, hbest, rfl⟩
    exact ⟨k, leftmost_eq_some.mp hbest⟩
  · rintro ⟨k, hleast⟩
    exact ⟨(i, k), leftmost_eq_some.mpr hleast, rfl⟩

theorem select_eq_none :
    select entries now hold = none ↔ ∀ verdict ∈ entries, verdict.state = .down := by
  rw [select_eq_leftmost, Option.map_eq_none_iff, leftmost_eq_none]
  constructor
  · intro h verdict hmem
    obtain ⟨i, hi⟩ := List.getElem?_of_mem hmem
    by_contra hup
    have hup : verdict.state = .up := by
      cases hs : verdict.state with
      | down => exact absurd hs hup
      | up => rfl
    have hranked : (rank now hold verdict).isSome := rank_isSome.mpr hup
    obtain ⟨k, hk⟩ := Option.isSome_iff_exists.mp hranked
    exact h i k ⟨verdict, hi, hk⟩
  · rintro h i k ⟨verdict, hi, hk⟩
    rw [rank_down (h verdict (List.mem_of_getElem? hi))] at hk
    cases hk

theorem select_up (h : select entries now hold = some i) :
    ∃ verdict, entries[i]? = some verdict ∧ verdict.state = .up := by
  obtain ⟨k, hleast⟩ := select_eq_some.mp h
  obtain ⟨verdict, hi, hk⟩ := hleast.candidate
  exact ⟨verdict, hi, rank_isSome.mp (by rw [hk]; rfl)⟩

end rank

/-! ### Comparing two entries -/

/-- Entry `j` goes before entry `i`: it has held and `i` has not or comes later,
or neither has held and `j` has been up longer, ties going to the list order. -/
def Precedes (now : ℤ) (hold : ℕ) (j : ℕ) (b : Health) (i : ℕ) (a : Health) : Prop :=
  (b.Holds now hold ∧ (¬a.Holds now hold ∨ j < i)) ∨
    (¬b.Holds now hold ∧ ¬a.Holds now hold ∧
      (b.changedAt < a.changedAt ∨ b.changedAt = a.changedAt ∧ j < i))

section precedes

variable {now : ℤ} {hold : ℕ} {entries : List Health} {i j : ℕ} {a b : Health}

/-- The selected entry goes before every other one that is up. -/
theorem select_precedes (h : select entries now hold = some j) (hj : entries[j]? = some b)
    (hi : entries[i]? = some a) (hup : a.state = .up) (hne : j ≠ i) :
    Precedes now hold j b i a := by
  obtain ⟨l, hleast⟩ := select_eq_some.mp h
  obtain ⟨b', hj', hl⟩ := hleast.candidate
  obtain rfl : b = b' := Option.some.inj (hj.symm.trans hj')
  have hbup : b.state = .up := rank_isSome.mp (by rw [hl]; rfl)
  by_cases hb : b.Holds now hold
  · refine Or.inl ⟨hb, ?_⟩
    by_cases ha : a.Holds now hold
    · rw [rank_held hb] at hl
      obtain rfl := Option.some.inj hl
      rcases hleast.displaced ⟨a, hi, rank_held ha⟩ hne with hlt | ⟨_, hlt⟩
      · exact absurd hlt (lt_irrefl _)
      · exact Or.inr hlt
    · exact Or.inl ha
  · rw [rank_up hbup hb] at hl
    obtain rfl := Option.some.inj hl
    by_cases ha : a.Holds now hold
    · rcases hleast.displaced ⟨a, hi, rank_held ha⟩ hne with hlt | ⟨heq, _⟩
      · exact absurd hlt not_lt_bot
      · exact absurd heq (WithBot.coe_ne_bot)
    · refine Or.inr ⟨hb, ha, ?_⟩
      rcases hleast.displaced ⟨a, hi, rank_up hup ha⟩ hne with hlt | ⟨heq, hlt⟩
      · exact Or.inl (WithBot.coe_lt_coe.mp hlt)
      · exact Or.inr ⟨WithBot.coe_injective heq, hlt⟩

theorem Health.Holds.mono {later : ℤ} (h : a.Holds now hold) (hle : now ≤ later) :
    a.Holds later hold := by
  refine ⟨h.1, held_eq_yes.mpr ?_⟩
  have := held_eq_yes.mp h.2
  omega

theorem Health.holds_iff : a.Holds now hold ↔ a.state = .up ∧ hold ≤ now - a.changedAt := by
  unfold Health.Holds
  rw [held_eq_yes]
  constructor <;> rintro ⟨hup, hle⟩ <;> exact ⟨hup, by omega⟩

theorem Precedes.stamp (h : Precedes now hold j b i a) (hup : a.state = .up) (hij : i < j) :
    b.changedAt < a.changedAt := by
  rcases h with ⟨hheld, hnot | hlt⟩ | ⟨_, _, hlt | ⟨_, hlt⟩⟩
  · have hle := (Health.holds_iff.mp hheld).2
    have hgt : ¬(hold : ℤ) ≤ now - a.changedAt := fun hle =>
      hnot (Health.holds_iff.mpr ⟨hup, hle⟩)
    omega
  · omega
  · exact hlt
  · omega

end precedes

/-! ### The three steps -/

section steps

variable {now : ℤ} {hold : ℕ} {entries : List Health} {i : ℕ}

/-- Entry `i` is the first that is up and has been, at no later instant than `now`, for
the whole return hold. -/
def FirstHeld (entries : List Health) (now : ℤ) (hold i : ℕ) : Prop :=
  (∃ a, entries[i]? = some a ∧ a.state = .up ∧ a.changedAt ≤ now ∧ hold ≤ now - a.changedAt) ∧
    ∀ j b, j < i → entries[j]? = some b → b.state = .up → b.changedAt ≤ now →
      ¬hold ≤ now - b.changedAt

/-- Entry `i` is the first of those that have been up longest, whether or not their
instants have come. -/
def LongestUp (entries : List Health) (i : ℕ) : Prop :=
  ∃ a, entries[i]? = some a ∧ a.state = .up ∧
    ∀ j b, entries[j]? = some b → b.state = .up →
      a.changedAt < b.changedAt ∨ a.changedAt = b.changedAt ∧ i ≤ j

theorem Health.holds_iff_stamp {a : Health} : a.Holds now hold ↔
    a.state = .up ∧ a.changedAt ≤ now ∧ hold ≤ now - a.changedAt := by
  rw [Health.holds_iff]
  constructor
  · rintro ⟨hup, hle⟩
    exact ⟨hup, by omega, hle⟩
  · rintro ⟨hup, _, hle⟩
    exact ⟨hup, hle⟩

theorem select_of_firstHeld (h : FirstHeld entries now hold i) :
    select entries now hold = some i := by
  obtain ⟨⟨a, hi, hheld⟩, hfirst⟩ := h
  have hrank : rank now hold a = some ⊥ := rank_held (Health.holds_iff_stamp.mpr hheld)
  refine select_eq_some.mpr ⟨⊥, ⟨a, hi, hrank⟩, ?_⟩
  rintro j l ⟨b, hj, hl⟩
  rcases (bot_le : ⊥ ≤ l).lt_or_eq with hlt | rfl
  · exact Or.inl hlt
  · refine Or.inr ⟨rfl, ?_⟩
    by_contra hji
    have hb : b.Holds now hold := by
      by_contra hnot
      have hup : b.state = .up := rank_isSome.mp (by rw [hl]; rfl)
      rw [rank_up hup hnot] at hl
      exact WithBot.coe_ne_bot (Option.some.inj hl)
    obtain ⟨hup, hle, hhold⟩ := Health.holds_iff_stamp.mp hb
    exact hfirst j b (by omega) hj hup hle hhold

theorem select_of_longestUp (hnone : ∀ b ∈ entries, ¬b.Holds now hold)
    (h : LongestUp entries i) : select entries now hold = some i := by
  obtain ⟨a, hi, hup, hlongest⟩ := h
  have hrank : ∀ b ∈ entries, b.state = .up →
      rank now hold b = some (b.changedAt : WithBot ℤ) :=
    fun b hmem hup => rank_up hup (hnone b hmem)
  refine select_eq_some.mpr ⟨a.changedAt, ⟨a, hi, hrank a (List.mem_of_getElem? hi) hup⟩, ?_⟩
  rintro j l ⟨b, hj, hl⟩
  have hbup : b.state = .up := rank_isSome.mp (by rw [hl]; rfl)
  rw [hrank b (List.mem_of_getElem? hj) hbup] at hl
  obtain rfl := Option.some.inj hl
  rcases hlongest j b hj hbup with hlt | ⟨heq, hle⟩
  · exact Or.inl (WithBot.coe_lt_coe.mpr hlt)
  · exact Or.inr ⟨by rw [heq], hle⟩

/-- What is selected is one or the other. -/
theorem steps_of_select (h : select entries now hold = some i) :
    FirstHeld entries now hold i ∨
      (∀ b ∈ entries, ¬b.Holds now hold) ∧ LongestUp entries i := by
  obtain ⟨k, hleast⟩ := select_eq_some.mp h
  obtain ⟨a, hi, hk⟩ := hleast.candidate
  have hup : a.state = .up := rank_isSome.mp (by rw [hk]; rfl)
  by_cases ha : a.Holds now hold
  · left
    refine ⟨⟨a, hi, Health.holds_iff_stamp.mp ha⟩, ?_⟩
    intro j b hji hj hbup hle hhold
    have hb : b.Holds now hold := Health.holds_iff_stamp.mpr ⟨hbup, hle, hhold⟩
    rw [rank_held ha] at hk
    obtain rfl := Option.some.inj hk
    rcases hleast.least j ⊥ ⟨b, hj, rank_held hb⟩ with hlt | ⟨_, hij⟩
    · exact lt_irrefl _ hlt
    · omega
  · right
    rw [rank_up hup ha] at hk
    obtain rfl := Option.some.inj hk
    have hnone : ∀ b ∈ entries, ¬b.Holds now hold := by
      intro b hmem hb
      obtain ⟨j, hj⟩ := List.getElem?_of_mem hmem
      rcases hleast.least j ⊥ ⟨b, hj, rank_held hb⟩ with hlt | ⟨heq, _⟩
      · exact not_lt_bot hlt
      · exact WithBot.coe_ne_bot heq
    refine ⟨hnone, a, hi, hup, ?_⟩
    intro j b hj hbup
    rcases hleast.least j _ ⟨b, hj, rank_up hbup (hnone b (List.mem_of_getElem? hj))⟩ with
      hlt | ⟨heq, hij⟩
    · exact Or.inl (WithBot.coe_lt_coe.mp hlt)
    · exact Or.inr ⟨WithBot.coe_injective heq, hij⟩

/-- **The choice is made in three steps**: the first entry up for the whole return hold;
where there is none, the one of those that are up that has been longest, ties going to
the list order; and where none is up, nothing. -/
theorem select_three_steps (entries : List Health) (now : ℤ) (hold : ℕ) :
    (∀ i, select entries now hold = some i ↔
      FirstHeld entries now hold i ∨
        (∀ j, ¬FirstHeld entries now hold j) ∧ LongestUp entries i) ∧
    (select entries now hold = none ↔ ∀ verdict ∈ entries, verdict.state ≠ .up) ∧
    ∀ i, select entries now hold = some i →
      ∃ verdict, entries[i]? = some verdict ∧ verdict.state = .up := by
  have hdown : ∀ verdict : Health, verdict.state ≠ .up ↔ verdict.state = .down := by
    intro verdict
    cases verdict.state <;> simp
  -- where an entry has held there is a first one
  have hfirst : (∀ j, ¬FirstHeld entries now hold j) → ∀ b ∈ entries, ¬b.Holds now hold := by
    intro hnone b hmem hb
    obtain ⟨j, hsel⟩ : ∃ j, select entries now hold = some j := by
      rw [← Option.ne_none_iff_exists']
      intro hsel
      have := select_eq_none.mp hsel b hmem
      rw [hb.1] at this
      cases this
    rcases steps_of_select hsel with hheld | ⟨hnot, _⟩
    · exact hnone j hheld
    · exact hnot b hmem hb
  refine ⟨fun i => ⟨fun hsel => ?_, ?_⟩, ?_, fun i => select_up⟩
  · rcases steps_of_select hsel with hheld | ⟨hnone, hlongest⟩
    · exact Or.inl hheld
    · refine Or.inr ⟨?_, hlongest⟩
      rintro j ⟨⟨a, hj, hheld⟩, _⟩
      exact hnone a (List.mem_of_getElem? hj) (Health.holds_iff_stamp.mpr hheld)
  · rintro (hheld | ⟨hnone, hlongest⟩)
    · exact select_of_firstHeld hheld
    · exact select_of_longestUp (hfirst hnone) hlongest
  · rw [select_eq_none]
    simp only [hdown]

end steps

/-! ### Who displaces the selected entry

Two choices from the same entries are compared, the second one made no earlier
than the first, with the verdict of the entry selected first unchanged between
them. -/

section displacement

variable {before after : List Health} {hold i j : ℕ} {then_ now : ℤ} {a b : Health}

theorem select_isSome_of_up (hafter : after[i]? = some a) (hup : a.state = .up) :
    ∃ j, select after now hold = some j := by
  rw [← Option.ne_none_iff_exists']
  intro hnone
  have hdown := select_eq_none.mp hnone a (List.mem_of_getElem? hafter)
  rw [hup] at hdown
  cases hdown

/-- An entry whose verdict has not changed either takes over only from behind a
higher rank and a full hold: its instant and the other's are the same as when it
lost, and time alone can only have brought it its hold. -/
theorem displaced_by_unchanged (hle : then_ ≤ now) (hsel : select before then_ hold = some i)
    (hsel' : select after now hold = some j) (hbefore : before[i]? = some a)
    (hafter : after[i]? = some a) (hbefore' : before[j]? = some b) (hafter' : after[j]? = some b)
    (hne : j ≠ i) : j < i ∧ b.Holds now hold := by
  obtain ⟨_, ha, haup⟩ := select_up hsel
  obtain rfl := Option.some.inj (ha.symm.trans hbefore)
  obtain ⟨_, hb, hbup⟩ := select_up hsel'
  obtain rfl := Option.some.inj (hb.symm.trans hafter')
  have hwon := select_precedes hsel hbefore hbefore' hbup (Ne.symm hne)
  have hlost := select_precedes hsel' hafter' hafter haup hne
  by_cases hij : i < j
  · have hlt := hlost.stamp haup hij
    rcases hwon with ⟨hheld, _⟩ | ⟨_, _, hlt' | ⟨heq, _⟩⟩
    · have haheld := hheld.mono hle
      rcases hlost with ⟨_, hnot | hji⟩ | ⟨_, hnot, _⟩
      · exact absurd haheld hnot
      · omega
      · exact absurd haheld hnot
    · omega
    · omega
  · have hji : j < i := by omega
    refine ⟨hji, ?_⟩
    have hlt := hwon.stamp hbup hji
    rcases hlost with ⟨hheld, _⟩ | ⟨_, _, hlt' | ⟨heq, _⟩⟩
    · exact hheld
    · omega
    · omega

/-- **Who may displace the selected upstream.** Something stays selected, and
another entry than the one selected before is either higher ranked and has held,
or has changed its verdict since and is stamped no later, strictly earlier when
it is lower ranked. So a lower-ranked entry stamped no earlier never takes over,
and a higher-ranked one that returned later than the selected entry takes over
only after a full hold. -/
theorem select_displaced (hle : then_ ≤ now) (hsel : select before then_ hold = some i)
    (hbefore : before[i]? = some a) (hafter : after[i]? = some a) :
    (∃ j b, select after now hold = some j ∧ after[j]? = some b ∧ b.state = .up ∧
      (j ≠ i →
        (j < i ∧ hold ≤ now - b.changedAt) ∨
          (before[j]? ≠ some b ∧ b.changedAt ≤ a.changedAt ∧
            (i < j → b.changedAt < a.changedAt)))) ∧
    (∀ j b, i < j → after[j]? = some b → a.changedAt ≤ b.changedAt →
      select after now hold ≠ some j) ∧
    (∀ j b, j < i → after[j]? = some b → a.changedAt < b.changedAt →
      select after now hold = some j → hold ≤ now - b.changedAt) := by
  obtain ⟨_, ha, haup⟩ := select_up hsel
  obtain rfl := Option.some.inj (ha.symm.trans hbefore)
  refine ⟨?_, ?_, ?_⟩
  · obtain ⟨j, hsel'⟩ : ∃ j, select after now hold = some j := select_isSome_of_up hafter haup
    obtain ⟨b, hafter', hbup⟩ := select_up hsel'
    refine ⟨j, b, hsel', hafter', hbup, fun hne => ?_⟩
    by_cases hbefore' : before[j]? = some b
    · have hheld := displaced_by_unchanged hle hsel hsel' hbefore hafter hbefore' hafter' hne
      exact Or.inl ⟨hheld.1, (Health.holds_iff.mp hheld.2).2⟩
    · have hlost := select_precedes hsel' hafter' hafter haup hne
      by_cases hij : i < j
      · have hlt := hlost.stamp haup hij
        exact Or.inr ⟨hbefore', hlt.le, fun _ => hlt⟩
      · rcases hlost with ⟨hheld, _⟩ | ⟨_, _, hlt | ⟨heq, _⟩⟩
        · exact Or.inl ⟨by omega, (Health.holds_iff.mp hheld).2⟩
        · exact Or.inr ⟨hbefore', hlt.le, fun h => absurd h hij⟩
        · exact Or.inr ⟨hbefore', heq.le, fun h => absurd h hij⟩
  · intro j b hij hafter' hstamp hsel'
    obtain ⟨_, hb, hbup⟩ := select_up hsel'
    obtain rfl := Option.some.inj (hb.symm.trans hafter')
    have hlt := (select_precedes hsel' hafter' hafter haup (by omega)).stamp haup hij
    omega
  · intro j b hji hafter' hstamp hsel'
    rcases select_precedes hsel' hafter' hafter haup (by omega) with
      ⟨hheld, _⟩ | ⟨_, _, hlt | ⟨heq, _⟩⟩
    · exact (Health.holds_iff.mp hheld).2
    · omega
    · omega

theorem select_displaced_primary :
    ∃ j b, select [⟨.up, 5⟩, ⟨.up, 0⟩] 80 60 = some j ∧
      [Health.mk .up 5, ⟨.up, 0⟩][j]? = some b ∧ b.state = .up := by
  obtain ⟨⟨j, b, hsel, hget, hup, _⟩, _⟩ := @select_displaced [⟨.up, 5⟩, ⟨.up, 0⟩]
    [⟨.up, 5⟩, ⟨.up, 0⟩] 60 1 60 80 ⟨.up, 0⟩ (by decide) (by decide) (by decide) (by decide)
  exact ⟨j, b, hsel, hget, hup⟩

/-- A higher-ranked entry can return without a hold: one stamped by a round that
started no later than the selected entry came up wins the tie, or the comparison,
at once. -/
theorem return_without_hold :
    ¬∀ (before after : List Health) (hold i j : ℕ) (then_ now : ℤ) (a b : Health),
      then_ ≤ now → select before then_ hold = some i → before[i]? = some a →
      after[i]? = some a → j < i → (before[j]?.map Health.state) = some .down →
      after[j]? = some b → b.state = .up → select after now hold = some j →
      hold ≤ now - b.changedAt := by
  intro h
  have hheld := h [⟨.down, 0⟩, ⟨.up, 9⟩] [⟨.up, 9⟩, ⟨.up, 9⟩] 60 1 0 10 11 ⟨.up, 9⟩ ⟨.up, 9⟩
    (by decide) (by decide) (by decide) (by decide) (by decide) (by decide) (by decide)
    (by decide) (by decide)
  exact absurd hheld (by decide)

end displacement

end Nhop.Upstream
