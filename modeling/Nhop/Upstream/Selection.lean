import Nhop.Upstream.Select

/-!
The log of every move of new connections between upstreams.

Routing never reads what is recorded here: it is kept so that each move is
logged once. A selection is recorded with the list it was made from, and a list
that has been replaced since records nothing. Two selections that dial the same
socket are the same selection, whatever their position and spelling.
-/

namespace Nhop.Upstream

open Foundation Ipc Proxy

/-- The selection last observed and the list it was made from. -/
structure Observed where
  list : Arc UpstreamEntries
  selected : Option ℕ
  deriving DecidableEq, Repr

/-- One move of new connections from one upstream to another, either side
possibly none. -/
structure Switch where
  left : Option UpstreamAddr
  reached : Option UpstreamAddr
  cause : SwitchCause
  deriving DecidableEq, Repr

def upstreamAt (list : UpstreamEntries) (index : Option ℕ) : Option Upstream :=
  (list.get index).map UpstreamEntry.upstream

/-- Why the selection moved within one list. -/
def switchCause (list : UpstreamEntries) (previous new : Option ℕ) (cells : Verdicts) :
    SwitchCause :=
  match previous with
  | none => .recovered
  | some previous =>
      let state :=
        match list.entries[previous]? with
        | some entry => entry.health.state cells
        | none => .down
      match state with
      | .down => .down
      | .up =>
          match new with
          | none => .down
          | some new => if new < previous then .held else .down

/-- Whether two sides of a move dial the same socket. -/
def sameSocket (left reached : Option Upstream) : Bool :=
  match left, reached with
  | some left, some reached => left.socket == reached.socket
  | none, none => true
  | some _, none | none, some _ => false

/-- Records the selection `new` made from `list`, and the move it is, if it is
one. -/
def Observed.switched (observed : Observed) (list : Arc UpstreamEntries) (new : Option ℕ)
    (cells : Verdicts) : Observed × Option Switch :=
  let recorded : Observed :=
    if list.val.publishedBefore observed.list.val then observed else ⟨list, new⟩
  if list.val.publishedBefore observed.list.val then (recorded, none)
  else
    let left := upstreamAt observed.list.val observed.selected
    let reached := upstreamAt list.val new
    if sameSocket left reached then (recorded, none)
    else
      let cause :=
        if observed.list.ptrEq list then
          switchCause list.val observed.selected new cells
        else .reload
      (recorded, some ⟨left.map Upstream.written, reached.map Upstream.written, cause⟩)

/-- The socket an index of a list dials. -/
def socketAt (list : UpstreamEntries) (index : Option ℕ) : Option SocketAddr :=
  (upstreamAt list index).map Upstream.socket

/-- The socket a written address dials. -/
def dials (written : Option UpstreamAddr) : Option SocketAddr :=
  written.bind fun addr => SocketAddr.parse (bareAddr addr)

section lemmas

variable {observed : Observed} {list : Arc UpstreamEntries} {new : Option ℕ} {cells : Verdicts}

@[simp] theorem dials_written (upstream : Option Upstream) :
    dials (upstream.map Upstream.written) = upstream.map Upstream.socket := by
  cases upstream with
  | none => rfl
  | some upstream => simp only [Option.map_some, dials, Option.bind_some, upstream.reads]

theorem sameSocket_iff {left reached : Option Upstream} :
    sameSocket left reached = true ↔ left.map Upstream.socket = reached.map Upstream.socket := by
  cases left <;> cases reached <;> simp [sameSocket]

theorem switched_stale (h : list.val.publishedBefore observed.list.val = true) :
    observed.switched list new cells = (observed, none) := by
  simp [Observed.switched, h]

theorem switched_fst (h : list.val.publishedBefore observed.list.val = false) :
    (observed.switched list new cells).1 = ⟨list, new⟩ := by
  simp only [Observed.switched, h, Bool.false_eq_true, if_false]
  split <;> rfl

theorem switched_same
    (hsame : socketAt observed.list.val observed.selected = socketAt list.val new) :
    (observed.switched list new cells).2 = none := by
  simp only [Observed.switched, sameSocket_iff.mpr hsame, if_true]
  split <;> rfl

/-- **What a move logs**: the two addresses, which dial different sockets, and a
cause. -/
theorem switched_moved (h : list.val.publishedBefore observed.list.val = false)
    (hmoved : socketAt observed.list.val observed.selected ≠ socketAt list.val new) :
    (observed.switched list new cells).2 = some
      ⟨(upstreamAt observed.list.val observed.selected).map Upstream.written,
        (upstreamAt list.val new).map Upstream.written,
        if observed.list.ptrEq list then switchCause list.val observed.selected new cells
        else .reload⟩ := by
  have hdiffer : ¬sameSocket (upstreamAt observed.list.val observed.selected)
      (upstreamAt list.val new) = true := fun hsame => hmoved (sameSocket_iff.mp hsame)
  simp only [Observed.switched, h, Bool.false_eq_true, if_false, if_neg hdiffer]

/-- On one list, two positions dial the same socket only when they are the same. -/
theorem socketAt_injective {list : UpstreamEntries} {i j : ℕ} (hi : i < list.entries.length)
    (h : socketAt list (some i) = socketAt list (some j)) : i = j := by
  obtain ⟨entry, hentry⟩ : ∃ entry, list.entries[i]? = some entry :=
    ⟨_, List.getElem?_eq_getElem hi⟩
  simp only [socketAt, upstreamAt, UpstreamEntries.get_some, hentry, Option.map_some] at h
  obtain ⟨entry', hentry', hsocket⟩ : ∃ entry', list.entries[j]? = some entry' ∧
      entry.upstream.socket = entry'.upstream.socket := by
    cases hj : list.entries[j]? with
    | none => simp [hj] at h
    | some entry' => exact ⟨entry', rfl, by simpa [hj] using h⟩
  exact UpstreamEntries.index_of_socket hentry hentry' hsocket

end lemmas

end Nhop.Upstream
