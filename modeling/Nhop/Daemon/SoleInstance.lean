import Nhop.Daemon.Instance

/-!
There is one daemon, as long as nobody locks a pid file that was removed.

A claim on the pid path lasts from the lock to the removal of the path, and who
holds the guard has a claim. A call that does not take the lock of a file the path
has lost keeps every claim a lock on the file the path names, and such claims
exclude each other. Only the holder of a claim removes the socket, so it is never
that of another one who holds the guard.

The lock of a lost file is what goes wrong. The process that waited with the file
open while its owner left gets the lock, the next one makes a new file and locks
that, and both are the daemon.
-/

namespace Nhop.Daemon

open Foundation

variable {s s' : Machine} {e : Event} {p q : Process}

/-! ### What a call does -/

/-- What a call does to the pid file, by what its process claims afterwards. -/
inductive FileCall (s : Machine) (e : Event) (files : Inodes Process (List UInt8)) :
    Option ℕ → Prop
  | keeps {claim : Option ℕ} : files.named = s.pidFile.named → files.locked = s.pidFile.locked →
      claim = s.claims e.actor ∨ claim = none → FileCall s e files claim
  | opens : files = s.pidFile.opened [] → FileCall s e files none
  | locks {p : Process} {file : ℕ} : e = .takes p none → s.phase p = .opened file →
      s.pidFile.locked file = none → files = s.pidFile.lockedBy p file →
      FileCall s e files (some file)
  | unlinks {file : ℕ} : s.claims e.actor = some file → files = s.pidFile.unlinked →
      FileCall s e files none
  | closes : files = s.pidFile.released e.actor → FileCall s e files none

/-- A call of a process: the others stay where they are, and a socket that was there
is left alone unless the process has a claim. -/
structure Call (s : Machine) (e : Event) (s' : Machine) : Prop where
  files : FileCall s e s'.pidFile (s'.claims e.actor)
  socket : s'.socket = s.socket ∨ s.socket = .missing ∨ ∃ file, s.claims e.actor = some file
  phase : ∀ q, q ≠ e.actor → s'.phase q = s.phase q

section call

variable {phase : Phase} {files : Inodes Process (List UInt8)} {socket : Socket}
  {failure : Option OsError} {file : ℕ} {outcome : Outcome} {done : Machine}

theorem call_enter (hfiles : FileCall s e files phase.claim)
    (hsocket : socket = s.socket ∨ s.socket = .missing ∨ ∃ file, s.claims e.actor = some file) :
    Call s e { s.enter e.actor phase with pidFile := files, socket := socket } where
  files := by
    have hclaim : (Function.update s.phase e.actor phase e.actor).claim = phase.claim := by
      rw [Function.update_self]
    show FileCall s e files (Function.update s.phase e.actor phase e.actor).claim
    rw [hclaim]
    exact hfiles
  socket := hsocket
  phase _ hne := Function.update_of_ne hne _ _

theorem call_keep (hclaim : phase.claim = s.claims e.actor ∨ phase.claim = none) :
    Call s e (s.enter e.actor phase) :=
  call_enter (.keeps rfl rfl hclaim) (Or.inl rfl)

theorem call_close : Call s e (s.close e.actor outcome) := call_enter (.closes rfl) (Or.inl rfl)

theorem call_orFail (h : Call s e done) : Call s e (s.orFail e.actor failure done) := by
  cases failure with
  | some failure => exact call_close
  | none => exact h

theorem call_orLeave (hclaims : s.claims e.actor = some file) (h : Call s e done) :
    Call s e (s.orLeave e.actor file failure done) := by
  cases failure with
  | some failure => exact call_keep (Or.inl hclaims.symm)
  | none => exact h

theorem call_proceed (h : s.proceed p failure = some s') :
    Call s (.takes p failure) s' := by
  unfold Machine.proceed at h
  have hclaims : s.claims p = (s.phase p).claim := rfl
  cases hphase : s.phase p <;> rw [hphase] at hclaims <;>
    simp only [hphase, Option.some.injEq, reduceCtorEq] at h <;> subst h
  case unstarted => exact call_orFail (call_enter (.opens rfl) (Or.inl rfl))
  case opened file =>
      split_ifs with hlock
      · exact call_enter (.locks (hlock.1 ▸ rfl) hphase hlock.2 rfl) (Or.inl rfl)
      · exact call_keep (Or.inr rfl)
  case contended => exact call_close
  case locked =>
      exact call_orFail (call_enter (.keeps rfl rfl (Or.inl hclaims.symm))
        (Or.inr (Or.inr ⟨_, hclaims⟩)))
  case cleared =>
      exact call_orFail (call_enter (.keeps rfl rfl (Or.inl hclaims.symm)) (Or.inl rfl))
  case truncated =>
      exact call_orFail (call_enter (.keeps rfl rfl (Or.inl hclaims.symm)) (Or.inl rfl))
  case acquired =>
      split_ifs with hmissing
      · exact call_orLeave hclaims (call_enter (.keeps rfl rfl (Or.inl hclaims.symm))
          (Or.inr (Or.inl hmissing)))
      · exact call_keep (Or.inl hclaims.symm)
  case bound => exact call_orLeave hclaims (call_keep (Or.inl hclaims.symm))
  case serving => exact call_orLeave hclaims (call_keep (Or.inl hclaims.symm))
  case stopping =>
      exact call_enter (.keeps rfl rfl (Or.inl hclaims.symm)) (Or.inr (Or.inr ⟨_, hclaims⟩))
  case leaving =>
      refine call_enter ?_ (Or.inl rfl)
      split_ifs
      · exact .unlinks hclaims rfl
      · exact .keeps rfl rfl (Or.inr rfl)
  case dropping => exact call_close

/-- **Every step is a call of one process**; being killed closes its files. -/
theorem call_of_step (h : instances.step s e = some s') : Call s e s' := by
  cases e with
  | takes p failure => exact call_proceed h
  | killed p =>
      have hkill : s.kill p = some s' := h
      unfold Machine.kill at hkill
      split at hkill
      · cases hkill
      · cases hkill
      · cases hkill
        exact call_close

end call

/-! ### One step -/

/-- The lock that is taken is that of the file the path still names. -/
def locksNamed (s : Machine) : Event → Bool
  | .takes p none =>
      match s.phase p with
      | .opened file => s.pidFile.locked file != none || s.pidFile.named == some file
      | _ => true
  | _ => true

theorem named_of_locksNamed {file : ℕ} (h : locksNamed s (.takes p none) = true)
    (hphase : s.phase p = .opened file) (hfree : s.pidFile.locked file = none) :
    s.pidFile.named = some file := by
  simpa [locksNamed, hphase, hfree] using h

/-- At most one process is between its successful `acquire` and the drop. -/
def Single (s : Machine) : Prop := ∀ p q, s.Holds p → s.Holds q → p = q

/-- Nobody takes away the socket of another process that holds the guard. -/
def KeepsSockets (s : Machine) (e : Event) (s' : Machine) : Prop :=
  ∀ q, q ≠ e.actor → s.Holds q → s.socket = .boundBy q → s'.socket = .boundBy q

theorem Call.claims (h : Call s e s') :
    s'.claims = Function.update s.claims e.actor (s'.claims e.actor) := by
  funext q
  by_cases hq : q = e.actor
  · subst hq
    rw [Function.update_self]
  · rw [Function.update_of_ne hq]
    exact congrArg Phase.claim (h.phase q hq)

theorem sole_step (hsole : s.pidFile.Sole s.claims) (hnamed : locksNamed s e = true)
    (h : instances.step s e = some s') : s'.pidFile.Sole s'.claims := by
  have hcall := call_of_step h
  rw [hcall.claims]
  have hfiles := hcall.files
  generalize s'.claims e.actor = claim at hfiles
  cases hfiles with
  | keeps hsame hlocked hclaim => exact hsole.keep hsame hlocked hclaim
  | opens hopened => rw [hopened]; exact hsole.opened []
  | locks htakes hphase hfree hlocked =>
      -- the file that is locked is the one the path names, so nobody claims another
      subst htakes
      rw [hlocked]
      exact hsole.lockedBy hfree (named_of_locksNamed hnamed hphase hfree)
  | unlinks hclaims hunlinked => rw [hunlinked]; exact hsole.unlinked hclaims
  | closes hreleased => rw [hreleased]; exact hsole.released

theorem single_of_sole (h : s.pidFile.Sole s.claims) : Single s := by
  intro p q hp hq
  obtain ⟨_, hclaims⟩ := Phase.claim_of_guarded hp
  obtain ⟨_, hclaims'⟩ := Phase.claim_of_guarded hq
  exact h.unique hclaims hclaims'

theorem keepsSockets_of_sole (hsole : s.pidFile.Sole s.claims)
    (h : instances.step s e = some s') : KeepsSockets s e s' := by
  intro q hne hholds hbound
  obtain ⟨_, hclaims⟩ := Phase.claim_of_guarded hholds
  -- only a process that holds the guard takes a socket away, and that is this one
  rcases (call_of_step h).socket with hsame | hmissing | ⟨_, hclaims'⟩
  · exact hsame.trans hbound
  · rw [hbound] at hmissing
    cases hmissing
  · exact absurd (hsole.unique hclaims hclaims') hne

/-! ### Every run -/

/-- Nobody runs yet, so nobody claims anything. -/
theorem sole_left (contents : Option (List UInt8)) (socket : Bool) :
    (Machine.left contents socket).pidFile.Sole (Machine.left contents socket).claims := by
  intro p i hclaims
  cases hclaims

/-- **A single instance**, in every run in which no removed pid file is locked: at
every point of it one process at most holds the guard, and no step of it removes
the socket of another process that does. -/
theorem single_instance (contents : Option (List UInt8)) (socket : Bool) (es : List Event)
    (hnamed : ∀ s e s', instances.Takes (.left contents socket) es s e s' → locksNamed s e = true) :
    (∀ before after s, es = before ++ after →
      instances.run (.left contents socket) before = some s → Single s) ∧
    ∀ s e s', instances.Takes (.left contents socket) es s e s' → KeepsSockets s e s' := by
  have hsole : ∀ before after s, es = before ++ after →
      instances.run (.left contents socket) before = some s → s.pidFile.Sole s.claims := by
    rintro before after s rfl hrun
    refine System.invariant_along (I := fun s => s.pidFile.Sole s.claims)
      (sole_left contents socket) (fun s e s' hsole hnamed h => sole_step hsole hnamed h) hrun
      fun s e s' htakes => ?_
    exact hnamed s e s' (htakes.append after)
  constructor
  · intro before after s hes hrun
    exact single_of_sole (hsole before after s hes hrun)
  · rintro s e s' ⟨before, after, rfl, hrun, hstep⟩
    exact keepsSockets_of_sole (hsole before _ s rfl hrun) hstep

/-- A process starts and comes to serve. -/
def starts (p : Process) : List Event := List.replicate 7 (.takes p none)

/-- The daemon stops and drops its guard. -/
def stops (p : Process) : List Event := List.replicate 4 (.takes p none)

/-- One daemon serves and another one is refused, then the first one stops and the
next one starts. -/
theorem single_instance_restart :
    let es := starts 0 ++ [.takes 1 none, .takes 1 none, .takes 1 none] ++
      stops 0 ++ starts 2
    (instances.run (.left none true) es).isSome = true ∧
    (∀ before after s, es = before ++ after →
      instances.run (.left none true) before = some s → Single s) ∧
    ∀ s e s', instances.Takes (.left none true) es s e s' → KeepsSockets s e s' := by
  refine ⟨by decide +kernel, single_instance none true _ fun s e s' => System.Takes.of_every ?_⟩
  decide +kernel

/-- The daemon 0 stops while 1 has its pid file open: 1 locks the file that is gone,
2 makes and locks another one, and takes the socket of 1 away. -/
theorem two_instances :
    ¬∀ (contents : Option (List UInt8)) (socket : Bool) (es : List Event),
      (∀ before after s, es = before ++ after →
        instances.run (.left contents socket) before = some s → Single s) ∧
      ∀ s e s', instances.Takes (.left contents socket) es s e s' → KeepsSockets s e s' := by
  intro h
  let before := starts 0 ++ [.takes 1 none] ++ stops 0 ++ List.replicate 6 (.takes 1 none) ++
    List.replicate 5 (.takes 2 none)
  obtain ⟨s, hs⟩ := Option.isSome_iff_exists.mp
    (show (instances.run (.left none false) before).isSome = true by decide +kernel)
  have hholds (p : Process) (hp : p = 1 ∨ p = 2) : s.Holds p := by
    have hphase : (instances.run (.left none false) before).map (fun s => (s.phase p).guarded) =
        some true := by
      rcases hp with rfl | rfl <;> decide +kernel
    rw [hs] at hphase
    exact Option.some.inj hphase
  have hone := (h none false before).1 before [] s (List.append_nil _).symm hs 1 2
    (hholds 1 (Or.inl rfl)) (hholds 2 (Or.inr rfl))
  cases hone

end Nhop.Daemon
