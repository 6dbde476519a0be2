import Mathlib

/-!
The files a path has named, and the exclusive locks on them.

A lock belongs to the file that was opened, the path is where the next one will be
looked for, and removing the path parts the two: whoever had the file open may go
on to lock it, while the next one to come makes another. `Sole` is what keeps them
together. As long as every claim is a lock on the file the path names, there are
no two of them.
-/

namespace Nhop.Foundation

/-- One path, and every file it has named, numbered as they were made. -/
structure Inodes (π α : Type) where
  named : Option ℕ
  made : ℕ
  contents : ℕ → α
  locked : ℕ → Option π

namespace Inodes

variable {π α : Type} {files : Inodes π α} {p q : π} {i j : ℕ}

/-- The file that opening the path leads to. -/
def target (files : Inodes π α) : ℕ := files.named.getD files.made

/-- The path is opened, and created where it is missing. -/
def opened (empty : α) (files : Inodes π α) : Inodes π α :=
  match files.named with
  | some _ => files
  | none =>
      { files with
        named := some files.made
        made := files.made + 1
        contents := Function.update files.contents files.made empty }

/-- The path is removed. -/
def unlinked (files : Inodes π α) : Inodes π α := { files with named := none }

def written (i : ℕ) (a : α) (files : Inodes π α) : Inodes π α :=
  { files with contents := Function.update files.contents i a }

def lockedBy (p : π) (i : ℕ) (files : Inodes π α) : Inodes π α :=
  { files with locked := Function.update files.locked i (some p) }

/-- Every lock of one owner is let go, as when it closes its files. -/
def released [DecidableEq π] (p : π) (files : Inodes π α) : Inodes π α :=
  { files with locked := fun i => if files.locked i = some p then none else files.locked i }

@[simp] theorem opened_named (empty : α) : (files.opened empty).named = some files.target := by
  unfold opened target
  cases hnamed : files.named with
  | some i => exact hnamed
  | none => rfl

@[simp] theorem opened_locked (empty : α) : (files.opened empty).locked = files.locked := by
  unfold opened
  cases files.named <;> rfl

theorem released_of_ne [DecidableEq π] (h : files.locked i = some q) (hne : q ≠ p) :
    (files.released p).locked i = some q := by
  show (if files.locked i = some p then none else files.locked i) = some q
  rw [h, if_neg]
  simpa using hne

/-! ### Claims on the path -/

/-- Every claim is a lock on the file the path names. -/
def Sole (files : Inodes π α) (claims : π → Option ℕ) : Prop :=
  ∀ p i, claims p = some i → files.named = some i ∧ files.locked i = some p

variable {claims claims' : π → Option ℕ}

/-- **Claims on the path exclude each other.** -/
theorem Sole.unique (h : files.Sole claims) (hp : claims p = some i) (hq : claims q = some j) :
    p = q := by
  obtain ⟨hnamed, hlocked⟩ := h p i hp
  obtain ⟨hnamed', hlocked'⟩ := h q j hq
  obtain rfl : i = j := Option.some.inj (hnamed.symm.trans hnamed')
  exact Option.some.inj (hlocked.symm.trans hlocked')

variable [DecidableEq π]

/-- What one owner does keeps the claims of the others if it keeps their files named
and locked, and what it claims itself is its lock on the path. -/
theorem Sole.update {files' : Inodes π α} {claim : Option ℕ} (h : files.Sole claims)
    (hothers : ∀ q i, q ≠ p → claims q = some i → files'.named = files.named ∧
      files'.locked i = some q)
    (hown : ∀ i, claim = some i → files'.named = some i ∧ files'.locked i = some p) :
    files'.Sole (Function.update claims p claim) := by
  intro q i hclaims
  by_cases hq : q = p
  · subst hq
    rw [Function.update_self] at hclaims
    exact hown i hclaims
  · rw [Function.update_of_ne hq] at hclaims
    obtain ⟨hnamed, hlocked⟩ := hothers q i hq hclaims
    exact ⟨hnamed.trans (h q i hclaims).1, hlocked⟩

theorem Sole.opened (empty : α) (h : files.Sole claims) :
    (files.opened empty).Sole (Function.update claims p none) := by
  refine h.update (fun q i _ hq => ?_) fun i hclaim => by cases hclaim
  obtain ⟨hnamed, hlocked⟩ := h q i hq
  unfold Inodes.opened
  rw [hnamed]
  exact ⟨hnamed, hlocked⟩

/-- The lock of the file the path names is a claim that joins the others, of which
there are none. -/
theorem Sole.lockedBy (h : files.Sole claims) (hfree : files.locked i = none)
    (hnamed : files.named = some i) :
    (files.lockedBy p i).Sole (Function.update claims p (some i)) := by
  refine h.update (fun q j _ hq => ⟨rfl, ?_⟩) fun j hclaim => ?_
  · obtain ⟨_, hlocked⟩ := h q j hq
    have hne : j ≠ i := by
      rintro rfl
      rw [hfree] at hlocked
      cases hlocked
    show Function.update files.locked i (some p) j = some q
    rw [Function.update_of_ne hne]
    exact hlocked
  · obtain rfl := Option.some.inj hclaim
    refine ⟨hnamed, ?_⟩
    show Function.update files.locked i (some p) i = some p
    rw [Function.update_self]

theorem Sole.unlinked (h : files.Sole claims) (hp : claims p = some i) :
    files.unlinked.Sole (Function.update claims p none) :=
  h.update (fun _ _ hne hq => absurd (h.unique hq hp) hne) fun i hclaim => by cases hclaim

theorem Sole.released (h : files.Sole claims) :
    (files.released p).Sole (Function.update claims p none) :=
  h.update (fun q i hne hq => ⟨rfl, released_of_ne (h q i hq).2 hne⟩)
    fun i hclaim => by cases hclaim

theorem Sole.keep {files' : Inodes π α} {claim : Option ℕ} (h : files.Sole claims)
    (hnamed : files'.named = files.named) (hlocked : files'.locked = files.locked)
    (hclaim : claim = claims p ∨ claim = none) :
    files'.Sole (Function.update claims p claim) := by
  refine h.update (fun q i _ hq => ⟨hnamed, hlocked ▸ (h q i hq).2⟩) fun i hsome => ?_
  rw [hnamed, hlocked]
  rcases hclaim with rfl | rfl
  · exact h p i hsome
  · cases hsome

end Inodes

end Nhop.Foundation
