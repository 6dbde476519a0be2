import Mathlib

/-!
Runs of guarded step functions.

A system is an executable step function: `step s e` is the state the event
`e` leads to, and `none` when `e` is not enabled in `s`. Everything that is
nondeterministic about a system (who acts next, what the network answers, what
the clock reads) is in the event, so a schedule is a list of events and a
concrete one can be replayed by evaluation.

The one induction a proof about runs ever needs is done here. `System.invariant`
is its plain form: a property that every step keeps. `System.invariant_along` is
for runs whose steps are only known to meet a condition,
`System.invariant_of_schedule` for properties that read what has happened
besides, and `System.Takes` is the statement that a particular step occurs
somewhere in a run, which is how a property of every step of a run is phrased.
-/

namespace Nhop.Foundation

/-- A transition system given by its guarded step function. -/
structure System (σ ε : Type*) where
  step : σ → ε → Option σ

namespace System

variable {σ ε : Type*} (S : System σ ε)

/-- Replays a schedule, stopping with `none` at the first event that is not
enabled. -/
def run (s : σ) : List ε → Option σ
  | [] => some s
  | e :: es => (S.step s e).bind fun s' => run s' es

/-- Some schedule leads from `s₀` to `s`. -/
def Reachable (s₀ s : σ) : Prop := ∃ es, S.run s₀ es = some s

/-- The schedule `es`, started in `s₀`, takes the step `e` from `s` to `s'`. -/
def Takes (s₀ : σ) (es : List ε) (s : σ) (e : ε) (s' : σ) : Prop :=
  ∃ before after, es = before ++ e :: after ∧ S.run s₀ before = some s ∧
    S.step s e = some s'

variable {S}

@[simp] theorem run_nil (s : σ) : S.run s [] = some s := rfl

@[simp] theorem run_cons (s : σ) (e : ε) (es : List ε) :
    S.run s (e :: es) = (S.step s e).bind fun s' => S.run s' es := rfl

theorem run_append (s : σ) (es es' : List ε) :
    S.run s (es ++ es') = (S.run s es).bind fun s' => S.run s' es' := by
  induction es generalizing s with
  | nil => rfl
  | cons e es ih =>
      simp only [List.cons_append, run_cons, Option.bind_assoc]
      congr 1
      funext s'
      exact ih s'

theorem run_snoc {s s' s'' : σ} {es : List ε} {e : ε} (h : S.run s es = some s')
    (hstep : S.step s' e = some s'') : S.run s (es ++ [e]) = some s'' := by
  simp [run_append, h, hstep]

theorem run_snoc_eq_some {s s'' : σ} {es : List ε} {e : ε} :
    S.run s (es ++ [e]) = some s'' ↔
      ∃ s', S.run s es = some s' ∧ S.step s' e = some s'' := by
  rw [run_append, Option.bind_eq_some_iff]
  simp

namespace Reachable

theorem refl (s : σ) : S.Reachable s s := ⟨[], rfl⟩

theorem snoc {s₀ s s' : σ} {e : ε} (h : S.Reachable s₀ s) (hstep : S.step s e = some s') :
    S.Reachable s₀ s' := by
  obtain ⟨es, hes⟩ := h
  exact ⟨es ++ [e], run_snoc hes hstep⟩

theorem append {s₀ s s' : σ} {es : List ε} (h : S.Reachable s₀ s) (hrun : S.run s es = some s') :
    S.Reachable s₀ s' := by
  obtain ⟨before, hbefore⟩ := h
  exact ⟨before ++ es, by rw [run_append, hbefore, Option.bind_some, hrun]⟩

end Reachable

theorem Takes.reachable {s₀ s s' : σ} {es : List ε} {e : ε} (h : S.Takes s₀ es s e s') :
    S.Reachable s₀ s := by
  obtain ⟨before, _, _, hrun, _⟩ := h
  exact ⟨before, hrun⟩

theorem Takes.step {s₀ s s' : σ} {es : List ε} {e : ε} (h : S.Takes s₀ es s e s') :
    S.step s e = some s' := by
  obtain ⟨_, _, _, _, hstep⟩ := h
  exact hstep

theorem Takes.mem {s₀ s s' : σ} {es : List ε} {e : ε} (h : S.Takes s₀ es s e s') : e ∈ es := by
  obtain ⟨_, _, rfl, _, _⟩ := h
  simp

theorem Takes.append {s₀ s s' : σ} {es : List ε} {e : ε} (h : S.Takes s₀ es s e s')
    (es' : List ε) : S.Takes s₀ (es ++ es') s e s' := by
  obtain ⟨before, after, rfl, hrun, hstep⟩ := h
  exact ⟨before, after ++ es', by simp, hrun, hstep⟩

/-- A step of a schedule is one of its beginning, or the last. -/
theorem Takes.of_snoc {s₀ s s' : σ} {es : List ε} {e last : ε}
    (h : S.Takes s₀ (es ++ [last]) s e s') :
    S.Takes s₀ es s e s' ∨ e = last ∧ S.run s₀ es = some s := by
  obtain ⟨before, after, hsplit, hrun, hstep⟩ := h
  rcases List.eq_nil_or_concat after with rfl | ⟨after', final, rfl⟩
  · obtain ⟨rfl, hlast⟩ := List.append_inj' hsplit rfl
    exact Or.inr ⟨(List.head_eq_of_cons_eq hlast).symm, hrun⟩
  · have hlonger : es ++ [last] = (before ++ e :: after') ++ [final] := by simpa using hsplit
    obtain ⟨rfl, _⟩ := List.append_inj' hlonger rfl
    exact Or.inl ⟨before, after', rfl, hrun, hstep⟩

theorem Takes.last {s₀ s s' : σ} {es : List ε} {e : ε} (h : S.run s₀ es = some s)
    (hstep : S.step s e = some s') : S.Takes s₀ (es ++ [e]) s e s' :=
  ⟨es, [], rfl, h, hstep⟩

/-- A step that only the end of a schedule takes is taken from where the rest of
the schedule leads. -/
theorem Takes.run_of_notMem {s₀ s s' : σ} {es : List ε} {e : ε}
    (h : S.Takes s₀ (es ++ [e]) s e s') (hnew : e ∉ es) : S.run s₀ es = some s := by
  obtain ⟨before, after, hsplit, hrun, _⟩ := h
  rcases List.eq_nil_or_concat after with rfl | ⟨after', last, rfl⟩
  · obtain ⟨rfl, _⟩ := List.append_inj' hsplit rfl
    exact hrun
  · have hlonger : es ++ [e] = (before ++ e :: after') ++ [last] := by simpa using hsplit
    obtain ⟨rfl, _⟩ := List.append_inj' hlonger rfl
    simp at hnew

variable (S) in
/-- Whether every step a schedule takes meets a condition, found out by taking it. -/
def every (cond : σ → ε → Bool) (s : σ) : List ε → Bool
  | [] => true
  | e :: es => cond s e &&
      match S.step s e with
      | none => true
      | some s' => every cond s' es

theorem Takes.of_every {cond : σ → ε → Bool} {s₀ s s' : σ} {es : List ε} {e : ε}
    (hevery : S.every cond s₀ es = true) (h : S.Takes s₀ es s e s') : cond s e = true := by
  obtain ⟨before, after, rfl, hrun, _⟩ := h
  induction before generalizing s₀ with
  | nil =>
      obtain rfl : s₀ = s := by simpa using hrun
      simp only [List.nil_append, every, Bool.and_eq_true] at hevery
      exact hevery.1
  | cons first before ih =>
      simp only [List.cons_append, every, Bool.and_eq_true] at hevery
      rw [run_cons] at hrun
      cases hfirst : S.step s₀ first with
      | none => simp [hfirst] at hrun
      | some s₁ =>
          rw [hfirst, Option.bind_some] at hrun
          simp only [hfirst] at hevery
          exact ih hevery.2 hrun

/-- **The invariant rule for properties of the schedule as well**, which count or
remember what has happened. The induction is on the schedule from its end, so
that the property is known of the state a step starts from. -/
theorem invariant_of_schedule {I : List ε → σ → Prop} {C : σ → ε → Prop} {s₀ : σ}
    (hinit : I [] s₀)
    (hstep : ∀ es s e s', I es s → C s e → S.step s e = some s' → I (es ++ [e]) s')
    {es : List ε} {s : σ} (hrun : S.run s₀ es = some s)
    (hcond : ∀ s e s', S.Takes s₀ es s e s' → C s e) : I es s := by
  induction es using List.reverseRecOn generalizing s with
  | nil =>
      obtain rfl : s₀ = s := by simpa using hrun
      exact hinit
  | append_singleton es e ih =>
      obtain ⟨s', hrun', hlast⟩ := run_snoc_eq_some.mp hrun
      have hI : I es s' := ih hrun' fun t e' t' ht => hcond t e' t' (ht.append [e])
      exact hstep es s' e s hI (hcond s' e s (Takes.last hrun' hlast)) hlast

/-- **The invariant rule for runs whose steps meet a condition.** -/
theorem invariant_along {I : σ → Prop} {C : σ → ε → Prop} {s₀ : σ} (hinit : I s₀)
    (hstep : ∀ s e s', I s → C s e → S.step s e = some s' → I s') {es : List ε} {s : σ}
    (hrun : S.run s₀ es = some s) (hcond : ∀ s e s', S.Takes s₀ es s e s' → C s e) : I s :=
  invariant_of_schedule (I := fun _ s => I s) hinit (fun _ s e s' => hstep s e s') hrun hcond

/-- An invariant of runs whose steps meet a condition on the event alone holds
before every step of such a run. -/
theorem invariant_of_takes {I : σ → Prop} {C : ε → Prop} {s₀ : σ} (hinit : I s₀)
    (hstep : ∀ s e s', I s → C e → S.step s e = some s' → I s') {es : List ε}
    (hcond : ∀ e ∈ es, C e) {s s' : σ} {e : ε} (h : S.Takes s₀ es s e s') : I s := by
  obtain ⟨before, after, rfl, hrun, _⟩ := h
  refine invariant_along (C := fun _ e => C e) hinit hstep hrun fun t e' t' ht => ?_
  exact hcond e' (List.mem_append_left _ ht.mem)

/-- **The invariant rule.** -/
theorem invariant {I : σ → Prop} {s₀ : σ} (hinit : I s₀)
    (hstep : ∀ s e s', I s → S.step s e = some s' → I s') {s : σ}
    (h : S.Reachable s₀ s) : I s := by
  obtain ⟨es, hrun⟩ := h
  exact invariant_along (C := fun _ _ => True) hinit (fun s e s' hI _ => hstep s e s' hI)
    hrun fun _ _ _ _ => trivial

end System

end Nhop.Foundation
