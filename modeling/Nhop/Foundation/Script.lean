import Mathlib

/-!
Programs that read a world, change a state and may fail on the way.

A script that fails keeps the state it had reached, which is how a program that
returns early leaves behind what it did before. The world answers whatever the
program asks of its surroundings; it is fixed for a run and arbitrary otherwise,
so that a statement about every world is one about every course of events.

`Ensures` is partial correctness with one postcondition for each way to end. Its
rules follow the way scripts are built, and `settle` is the only place where the
two postconditions meet. `Agree` is about two runs at once.
-/

namespace Nhop.Foundation

/-- A program that reads a world, changes a state, and returns a value or fails. -/
def Script (ω σ ε α : Type) : Type := ω → σ → Except ε α × σ

namespace Script

variable {ω σ ε α β : Type}

protected def pure (a : α) : Script ω σ ε α := fun _ s => (.ok a, s)

protected def bind (p : Script ω σ ε α) (f : α → Script ω σ ε β) : Script ω σ ε β := fun w s =>
  match p w s with
  | (.ok a, s') => f a w s'
  | (.error e, s') => (.error e, s')

instance : Monad (Script ω σ ε) where
  pure := Script.pure
  bind := Script.bind

def fail (e : ε) : Script ω σ ε α := fun _ s => (.error e, s)

/-- Reads the world and the state. -/
def ask (f : ω → σ → α) : Script ω σ ε α := fun w s => (.ok (f w s), s)

def modify (f : σ → σ) : Script ω σ ε Unit := fun _ s => (.ok (), f s)

/-- Runs a script to its end, whichever it is. -/
def settle (p : Script ω σ ε α) : Script ω σ ε (Except ε α) := fun w s => (.ok (p w s).1, (p w s).2)

/-- Ends the way a settled script ended. -/
def ofExcept (r : Except ε α) : Script ω σ ε α := fun _ s => (r, s)

/-- A script that returns is followed by what was to be done with its value. -/
theorem bind_of_ok {p : Script ω σ ε α} {f : α → Script ω σ ε β} {w : ω} {s s' : σ} {a : α}
    (h : p w s = (.ok a, s')) : (p >>= f) w s = f a w s' := by
  show Script.bind p f w s = f a w s'
  unfold Script.bind
  rw [h]

/-- And one that fails is followed by nothing. -/
theorem bind_of_error {p : Script ω σ ε α} {f : α → Script ω σ ε β} {w : ω} {s s' : σ} {e : ε}
    (h : p w s = (.error e, s')) : (p >>= f) w s = (.error e, s') := by
  show Script.bind p f w s = (.error e, s')
  unfold Script.bind
  rw [h]

/-- Started in a state that meets `P`, the script ends with a value that meets `Q`
or a failure that meets `E`. -/
def Ensures (w : ω) (P : σ → Prop) (p : Script ω σ ε α) (Q : α → σ → Prop) (E : ε → σ → Prop) :
    Prop :=
  ∀ s, P s →
    match p w s with
    | (.ok a, s') => Q a s'
    | (.error e, s') => E e s'

section rules

variable {w : ω} {P P' : σ → Prop} {Q Q' : α → σ → Prop} {R : β → σ → Prop} {E E' : ε → σ → Prop}
  {p : Script ω σ ε α} {f : α → Script ω σ ε β}

theorem ensures_pure {a : α} (h : ∀ s, P s → Q a s) :
    Ensures w P (pure a : Script ω σ ε α) Q E := h

/-- **Sequencing.** A failure of the first script is a failure of both. -/
theorem Ensures.bind (hp : Ensures w P p Q E) (hf : ∀ a, Ensures w (Q a) (f a) R E) :
    Ensures w P (p >>= f) R E := by
  intro s hs
  have hfirst := hp s hs
  show match Script.bind p f w s with
    | (.ok b, s') => R b s'
    | (.error e, s') => E e s'
  unfold Script.bind
  rcases hrun : p w s with ⟨e | a, s'⟩
  · rw [hrun] at hfirst
    exact hfirst
  · rw [hrun] at hfirst
    exact hf a s' hfirst

theorem ensures_fail {e : ε} (h : ∀ s, P s → E e s) :
    Ensures w P (fail e : Script ω σ ε α) Q E := h

theorem ensures_ask {g : ω → σ → α} (h : ∀ s, P s → Q (g w s) s) :
    Ensures w P (ask g : Script ω σ ε α) Q E := h

theorem ensures_ofExcept {r : Except ε α} (hok : ∀ a, r = .ok a → ∀ s, P s → Q a s)
    (herror : ∀ e, r = .error e → ∀ s, P s → E e s) :
    Ensures w P (ofExcept r : Script ω σ ε α) Q E := by
  intro s hs
  cases r with
  | ok a => exact hok a rfl s hs
  | error e => exact herror e rfl s hs

/-- **Settling** a script turns its two postconditions into one of its outcome. -/
theorem Ensures.settle (h : Ensures w P p Q E) :
    Ensures w P (settle p) (fun r s => match r with
      | .ok a => Q a s
      | .error e => E e s) E' := by
  intro s hs
  have hp := h s hs
  show match (p w s).1 with
    | .ok a => Q a (p w s).2
    | .error e => E e (p w s).2
  rcases hrun : p w s with ⟨e | a, s'⟩ <;>
    · rw [hrun] at hp
      exact hp

/-- **Consequence.** -/
theorem Ensures.weaken (h : Ensures w P p Q E) (hpre : ∀ s, P' s → P s)
    (hpost : ∀ a s, Q a s → Q' a s) (hfail : ∀ e s, E e s → E' e s) : Ensures w P' p Q' E' := by
  intro s hs
  have hp := h s (hpre s hs)
  rcases hrun : p w s with ⟨e | a, s'⟩
  · rw [hrun] at hp
    exact hfail e s' hp
  · rw [hrun] at hp
    exact hpost a s' hp

theorem Ensures.pre (h : Ensures w P p Q E) (hpre : ∀ s, P' s → P s) : Ensures w P' p Q E :=
  h.weaken hpre (fun _ _ h => h) fun _ _ h => h

theorem ensures_and {A : Prop} (h : A → Ensures w P p Q E) :
    Ensures w (fun s => A ∧ P s) p Q E := fun s hs => h hs.1 s hs.2

theorem ensures_exists {ι : Type} {P : ι → σ → Prop} (h : ∀ i, Ensures w (P i) p Q E) :
    Ensures w (fun s => ∃ i, P i s) p Q E := fun s ⟨i, hs⟩ => h i s hs

end rules

/-! ### Two runs -/

/-- Two runs from related states end the same way, in related states. -/
def Agree (w w' : ω) (R : σ → σ → Prop) (p q : Script ω σ ε α) : Prop :=
  ∀ s s', R s s' → (p w s).1 = (q w' s').1 ∧ R (p w s).2 (q w' s').2

section agree

variable {w w' : ω} {R : σ → σ → Prop} {p q : Script ω σ ε α} {f g : α → Script ω σ ε β}

theorem agree_pure {a : α} : Agree w w' R (pure a : Script ω σ ε α) (pure a) :=
  fun _ _ h => ⟨rfl, h⟩

theorem agree_fail {e : ε} : Agree w w' R (fail e : Script ω σ ε α) (fail e) :=
  fun _ _ h => ⟨rfl, h⟩

theorem agree_ofExcept {r : Except ε α} : Agree w w' R (ofExcept r) (ofExcept r) :=
  fun _ _ h => ⟨rfl, h⟩

theorem agree_ask {a b : ω → σ → α} (h : ∀ s s', R s s' → a w s = b w' s') :
    Agree w w' R (ask a : Script ω σ ε α) (ask b) :=
  fun s s' hs => ⟨congrArg Except.ok (h s s' hs), hs⟩

theorem agree_modify {a b : σ → σ} (h : ∀ s s', R s s' → R (a s) (b s')) :
    Agree w w' R (modify a : Script ω σ ε Unit) (modify b) :=
  fun s s' hs => ⟨rfl, h s s' hs⟩

/-- **Sequencing** of two runs: they fail together, or go on together. -/
theorem Agree.bind (hp : Agree w w' R p q) (hf : ∀ a, Agree w w' R (f a) (g a)) :
    Agree w w' R (p >>= f) (q >>= g) := by
  intro s s' hs
  obtain ⟨hend, hrel⟩ := hp s s' hs
  show (Script.bind p f w s).1 = (Script.bind q g w' s').1 ∧
    R (Script.bind p f w s).2 (Script.bind q g w' s').2
  unfold Script.bind
  rcases hrun : p w s with ⟨r, t⟩
  rcases hrun' : q w' s' with ⟨r', t'⟩
  rw [hrun, hrun'] at hend hrel
  obtain rfl : r = r' := hend
  cases r with
  | error e => exact ⟨rfl, hrel⟩
  | ok a => exact hf a t t' hrel

theorem Agree.settle (h : Agree w w' R p q) : Agree w w' R (settle p) (settle q) :=
  fun s s' hs => ⟨congrArg Except.ok (h s s' hs).1, (h s s' hs).2⟩

end agree

end Script

end Nhop.Foundation
