import Nhop.Proxy.Session

/-!
What a front end reads exactly.

A reader is exact when it takes the bytes of what it recognises and no others, and
runs out of bytes where nothing it recognises is there. Exactness is put together
the way a reader is: `Exact.bind` is the rule for a message read in parts. An exact
reader then decides what a stream begins with (`Exact.ok_iff`), and it fails
exactly on a stream that was cut off (`Exact.error_iff`).
-/

namespace Nhop.Proxy

open Foundation

/-- No read of the client fails. -/
def Steady (wire : Wire) : Prop := ∀ n, ∃ size, wire.reads n = .ok size

theorem steady_smooth (accepted : SocketAddr) : Steady (.smooth accepted) := fun _ => ⟨8192, rfl⟩

variable {α β : Type} {p : Session α} {f : α → Session β} {a : α} {b : β}
  {bytes more : List UInt8} {n : ℕ}

/-- Off a stream that begins with these bytes the reader takes them and returns the
value. -/
def Yields (p : Session α) (bytes : List UInt8) (a : α) : Prop :=
  ∀ wire, Steady wire → ∀ conn rest, conn.incoming = bytes ++ rest →
    ∃ reads, p wire conn = (.ok a, { conn with incoming := rest, reads := reads })

/-- These bytes are too few for the reader. -/
def Starves (p : Session α) (bytes : List UInt8) : Prop :=
  ∀ wire, Steady wire → ∀ conn, conn.incoming = bytes →
    ∃ reads, p wire conn = (.error (.os earlyEof), { conn with incoming := [], reads := reads })

/-! ### Readers -/

theorem yields_pure (a : α) : Yields (pure a) [] a := by
  rintro wire - conn rest rfl
  exact ⟨conn.reads, rfl⟩

theorem Yields.bind (hp : Yields p bytes a) (hf : Yields (f a) more b) :
    Yields (p >>= f) (bytes ++ more) b := by
  intro wire hsteady conn rest hincoming
  rw [List.append_assoc] at hincoming
  obtain ⟨reads, hfirst⟩ := hp wire hsteady conn _ hincoming
  obtain ⟨reads', hsecond⟩ :=
    hf wire hsteady { conn with incoming := more ++ rest, reads := reads } rest rfl
  exact ⟨reads', by rw [Script.bind_of_ok hfirst, hsecond]⟩

theorem Starves.bind (hp : Starves p bytes) : Starves (p >>= f) bytes := by
  intro wire hsteady conn hincoming
  obtain ⟨reads, hfirst⟩ := hp wire hsteady conn hincoming
  exact ⟨reads, Script.bind_of_error hfirst⟩

theorem Yields.starves (hp : Yields p bytes a) (hf : Starves (f a) more) :
    Starves (p >>= f) (bytes ++ more) := by
  intro wire hsteady conn hincoming
  obtain ⟨reads, hfirst⟩ := hp wire hsteady conn more hincoming
  obtain ⟨reads', hsecond⟩ :=
    hf wire hsteady { conn with incoming := more, reads := reads } rfl
  exact ⟨reads', by rw [Script.bind_of_ok hfirst, hsecond]⟩

theorem yields_readExact (bytes : List UInt8) : Yields (readExact bytes.length) bytes bytes := by
  intro wire hsteady conn rest hincoming
  by_cases hnone : bytes.length = 0
  · obtain rfl := List.length_eq_zero_iff.mp hnone
    obtain rfl : conn.incoming = rest := hincoming
    exact ⟨conn.reads, rfl⟩
  · obtain ⟨size, hsize⟩ := hsteady conn.reads
    have henough : ¬conn.incoming.length < bytes.length := by
      rw [hincoming, List.length_append]
      omega
    refine ⟨conn.reads + 1, ?_⟩
    simp only [readExact, if_neg hnone, hsize, if_neg henough]
    rw [hincoming, List.take_left, List.drop_left]

theorem starves_readExact (h : bytes.length < n) : Starves (readExact n) bytes := by
  rintro wire hsteady conn rfl
  obtain ⟨size, hsize⟩ := hsteady conn.reads
  refine ⟨conn.reads + 1, ?_⟩
  have hsome : n ≠ 0 := by omega
  simp only [readExact, if_neg hsome, hsize, if_pos h]

/-! ### Exact readers -/

/-- The stream ends inside a message of this shape. -/
def Truncated (shape : List UInt8 → α → Prop) (stream : List UInt8) : Prop :=
  ∃ more a, more ≠ [] ∧ shape (stream ++ more) a

/-- The reader recognises messages of this shape, and waits for the rest of one
otherwise. -/
structure Exact (p : Session α) (shape : List UInt8 → α → Prop) : Prop where
  yields : ∀ bytes a, shape bytes a → Yields p bytes a
  complete : ∀ stream, (∃ bytes rest a, stream = bytes ++ rest ∧ shape bytes a) ∨
    Starves p stream ∧ Truncated shape stream

theorem Exact.exists {shape : List UInt8 → α → Prop} (hp : Exact p shape) :
    ∃ bytes a, shape bytes a := by
  rcases hp.complete [] with ⟨bytes, _, a, _, hshape⟩ | ⟨_, more, a, _, hshape⟩
  · exact ⟨bytes, a, hshape⟩
  · exact ⟨[] ++ more, a, hshape⟩

theorem exact_pure {shape : List UInt8 → α → Prop}
    (h : ∀ bytes b, shape bytes b ↔ bytes = [] ∧ b = a) : Exact (pure a) shape where
  yields := by
    intro bytes b hshape
    obtain ⟨rfl, rfl⟩ := (h bytes b).mp hshape
    exact yields_pure b
  complete stream := .inl ⟨[], stream, a, rfl, (h [] a).mpr ⟨rfl, rfl⟩⟩

/-- **One message in parts**: what the first reader leaves of it is of the shape that
is left, once the messages all begin with what the first reader recognises. -/
theorem Exact.bind {first : List UInt8 → α → Prop} {shape : List UInt8 → β → Prop}
    (hp : Exact p first)
    (hbegins : ∀ bytes b, shape bytes b → ∃ before rest a, bytes = before ++ rest ∧ first before a)
    (hf : ∀ before a, first before a → Exact (f a) (fun bytes b => shape (before ++ bytes) b)) :
    Exact (p >>= f) shape where
  yields := by
    intro bytes b hshape
    obtain ⟨before, rest, a, rfl, hfirst⟩ := hbegins bytes b hshape
    exact (hp.yields before a hfirst).bind ((hf before a hfirst).yields rest b hshape)
  complete stream := by
    rcases hp.complete stream with
      ⟨before, rest, a, rfl, hfirst⟩ | ⟨hstarves, more, a, hmore, hfirst⟩
    · rcases (hf before a hfirst).complete rest with
        ⟨bytes, rest, b, rfl, hshape⟩ | ⟨hstarves, more, b, hmore, hshape⟩
      · exact .inl ⟨before ++ bytes, rest, b, by rw [List.append_assoc], hshape⟩
      · refine .inr ⟨(hp.yields before a hfirst).starves hstarves, more, b, hmore, ?_⟩
        rw [List.append_assoc]
        exact hshape
    · obtain ⟨bytes, b, hshape⟩ := (hf _ a hfirst).exists
      refine .inr ⟨hstarves.bind, more ++ bytes, b, List.append_ne_nil_of_left_ne_nil hmore _, ?_⟩
      rw [← List.append_assoc]
      exact hshape

theorem exact_readExact (n : ℕ) :
    Exact (readExact n) (fun bytes read => bytes.length = n ∧ read = bytes) where
  yields := by
    rintro bytes read ⟨rfl, rfl⟩
    exact yields_readExact read
  complete stream := by
    by_cases hshort : stream.length < n
    · refine .inr ⟨starves_readExact hshort, List.replicate (n - stream.length) 0, _, ?_, ?_, rfl⟩
      · rw [Ne, List.replicate_eq_nil_iff]
        omega
      · rw [List.length_append, List.length_replicate]
        omega
    · refine .inl ⟨stream.take n, stream.drop n, _, (List.take_append_drop n stream).symm, ?_, rfl⟩
      exact List.length_take_of_le (by omega)

theorem exact_readExact_bind {f : List UInt8 → Session β} {shape : List UInt8 → β → Prop} (n : ℕ)
    (hlong : ∀ bytes b, shape bytes b → n ≤ bytes.length)
    (hf : ∀ before : List UInt8, before.length = n →
      Exact (f before) (fun bytes b => shape (before ++ bytes) b)) :
    Exact (readExact n >>= f) shape := by
  refine (exact_readExact n).bind (fun bytes b hshape => ?_) ?_
  · have hlength := List.length_take_of_le (hlong bytes b hshape)
    exact ⟨bytes.take n, bytes.drop n, _, (List.take_append_drop n bytes).symm, hlength, rfl⟩
  · rintro before read ⟨hlength, rfl⟩
    exact hf read hlength

/-- A reader of so many bytes, of which something is made. -/
theorem exact_readExact_pure {shape : List UInt8 → α → Prop} (n : ℕ)
    (f : List UInt8 → α) (h : ∀ bytes a, shape bytes a ↔ bytes.length = n ∧ a = f bytes) :
    Exact (do
      let bytes ← readExact n
      pure (f bytes)) shape := by
  refine exact_readExact_bind n (fun bytes a hshape => ((h bytes a).mp hshape).1.ge)
    fun before hlength => exact_pure fun bytes a => ?_
  rw [h, List.length_append, hlength]
  constructor
  · rintro ⟨hmore, rfl⟩
    obtain rfl : bytes = [] := List.length_eq_zero_iff.mp (by omega)
    rw [List.append_nil]
    exact ⟨rfl, rfl⟩
  · rintro ⟨rfl, rfl⟩
    rw [List.append_nil]
    exact ⟨rfl, rfl⟩

/-- Of two messages that a stream begins with, neither goes on behind the other. -/
theorem Exact.unique {shape : List UInt8 → α → Prop} {bytes bytes' rest rest' : List UInt8}
    {a a' : α} (hp : Exact p shape) (h : shape bytes a) (h' : shape bytes' a')
    (hsame : bytes ++ rest = bytes' ++ rest') : bytes = bytes' ∧ rest = rest' ∧ a = a' := by
  have hsteady := steady_smooth (.v4 0 0)
  obtain ⟨reads, hrun⟩ :=
    hp.yields bytes a h _ hsteady (.accepted (bytes ++ rest)) rest rfl
  obtain ⟨reads', hrun'⟩ :=
    hp.yields bytes' a' h' _ hsteady (.accepted (bytes ++ rest)) rest' hsame
  obtain ⟨hvalue, hconn⟩ := Prod.mk.inj (hrun.symm.trans hrun')
  obtain rfl : rest = rest' := congrArg Connection.incoming hconn
  exact ⟨List.append_cancel_right hsame, rfl, Except.ok.inj hvalue⟩

theorem Exact.not_truncated {shape : List UInt8 → α → Prop} {bytes rest : List UInt8}
    (hp : Exact p shape) (h : shape bytes a) : ¬Truncated shape (bytes ++ rest) := by
  rintro ⟨more, b, hmore, hlonger⟩
  have hsame : bytes ++ (rest ++ more) = (bytes ++ rest ++ more) ++ [] := by simp
  obtain ⟨_, hnone, _⟩ := hp.unique h hlonger hsame
  exact hmore (List.append_eq_nil_iff.mp hnone).2

section decides

variable {shape : List UInt8 → α → Prop} {wire : Wire} {stream rest : List UInt8}

/-- A run of a reader that took some bytes. -/
def Reads (p : Session α) (wire : Wire) (stream : List UInt8) (a : α) (rest : List UInt8) : Prop :=
  ∃ reads, p wire (.accepted stream) = (.ok a, ⟨rest, reads, none, []⟩)

/-- **An exact reader decides what a stream begins with**, and takes just that. -/
theorem Exact.ok_iff (hp : Exact p shape) (hsteady : Steady wire) :
    Reads p wire stream a rest ↔ ∃ bytes, stream = bytes ++ rest ∧ shape bytes a := by
  constructor
  · rintro ⟨reads, hrun⟩
    rcases hp.complete stream with ⟨bytes, behind, b, rfl, hshape⟩ | ⟨hstarves, _⟩
    · obtain ⟨reads', hrun'⟩ := hp.yields bytes b hshape wire hsteady
        (.accepted (bytes ++ behind)) behind rfl
      rw [hrun'] at hrun
      obtain ⟨rfl, hconn⟩ := Prod.mk.inj hrun |>.imp (fun h => Except.ok.inj h) id
      obtain rfl : behind = rest := congrArg Connection.incoming hconn
      exact ⟨bytes, rfl, hshape⟩
    · obtain ⟨reads', hrun'⟩ := hstarves wire hsteady (.accepted stream) rfl
      rw [hrun'] at hrun
      cases (Prod.mk.inj hrun).1
  · rintro ⟨bytes, rfl, hshape⟩
    exact hp.yields bytes a hshape wire hsteady (.accepted (bytes ++ rest)) rest rfl

/-- **And it fails where the stream ends inside of it.** -/
theorem Exact.error_iff (hp : Exact p shape) (hsteady : Steady wire) :
    (p wire (.accepted stream)).1 = .error (.os earlyEof) ↔ Truncated shape stream := by
  rcases hp.complete stream with ⟨bytes, rest, a, rfl, hshape⟩ | ⟨hstarves, htruncated⟩
  · obtain ⟨reads, hrun⟩ := (hp.ok_iff hsteady).mpr ⟨bytes, rfl, hshape⟩
    rw [hrun]
    constructor
    · intro hfails
      cases hfails
    · intro htruncated
      exact absurd htruncated (hp.not_truncated hshape)
  · obtain ⟨reads, hrun⟩ := hstarves wire hsteady (.accepted stream) rfl
    rw [hrun]
    exact ⟨fun _ => htruncated, fun _ => rfl⟩

end decides

end Nhop.Proxy
