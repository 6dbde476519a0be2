import Mathlib

/-!
Shared mutable cells, and tables that hand them out by key.

`Cells` is a store of cells that are never freed: a handle is a cell's number,
allocation takes the next number, and a write changes one cell. Holding a handle
is what sharing is, and two handles share exactly when they are equal.

A table pairs keys with handles. It is replaced as a whole by another table,
which keeps the handle of a key both name and allocates one for a key the
previous table did not name (`Renews`). `Tenures` is what that gives for a whole
history of tables: a handle belongs to one key for ever, and a key has the same
handle in two tables exactly when it was in every table between them.
-/

namespace Nhop.Foundation

/-- A store of shared cells. -/
structure Cells (α : Type*) where
  next : ℕ
  read : ℕ → α

namespace Cells

variable {α : Type*} {cells : Cells α} {cell other : ℕ} {a : α}

/-- No cell has been allocated; reading one gives `a`. -/
def empty (a : α) : Cells α := ⟨0, fun _ => a⟩

/-- A new cell, and the store that holds it. -/
def alloc (cells : Cells α) (a : α) : ℕ × Cells α :=
  (cells.next, ⟨cells.next + 1, Function.update cells.read cells.next a⟩)

def write (cells : Cells α) (cell : ℕ) (a : α) : Cells α :=
  { cells with read := Function.update cells.read cell a }

@[simp] theorem next_write : (cells.write cell a).next = cells.next := rfl

@[simp] theorem read_write_self : (cells.write cell a).read cell = a := by simp [write]

theorem read_write_of_ne (h : other ≠ cell) :
    (cells.write cell a).read other = cells.read other := by
  simp [write, h]

@[simp] theorem alloc_fst : (cells.alloc a).1 = cells.next := rfl

@[simp] theorem next_alloc : (cells.alloc a).2.next = cells.next + 1 := rfl

@[simp] theorem read_alloc_self : (cells.alloc a).2.read cells.next = a := by simp [alloc]

theorem read_alloc_of_lt (h : cell < cells.next) :
    (cells.alloc a).2.read cell = cells.read cell := by
  simp [alloc, h.ne]

end Cells

/-! ### Tables of handles -/

variable {κ : Type*}

/-- The table `t'` replaces `t` when every handle from `next` on is unused. -/
structure Renews (next : ℕ) (t t' : List (κ × ℕ)) : Prop where
  keys : (t'.map Prod.fst).Nodup
  handles : (t'.map Prod.snd).Nodup
  kept : ∀ key handle handle', (key, handle) ∈ t → (key, handle') ∈ t' → handle' = handle
  fresh : ∀ key handle', key ∉ t.map Prod.fst → (key, handle') ∈ t' → next ≤ handle'

/-- A history of tables, the first one first, whose handles are all below `next`. -/
structure Tenures (next : ℕ) (tables : List (List (κ × ℕ))) : Prop where
  keys : ∀ t ∈ tables, (List.map Prod.fst t).Nodup
  handles : ∀ t ∈ tables, (List.map Prod.snd t).Nodup
  allocated : ∀ t ∈ tables, ∀ row ∈ t, row.2 < next
  /-- A handle judges one key, whichever tables it is found in. -/
  owner : ∀ t ∈ tables, ∀ t' ∈ tables, ∀ key key' handle,
    (key, handle) ∈ t → (key', handle) ∈ t' → key = key'
  /-- A key keeps its handle exactly as long as it stays. -/
  tenure : ∀ (k n : ℕ) (t t' : List (κ × ℕ)), k ≤ n → tables[k]? = some t → tables[n]? = some t' →
    ∀ key handle handle', (key, handle) ∈ t → (key, handle') ∈ t' →
      (handle = handle' ↔
        ∀ m, k ≤ m → m ≤ n → ∀ u, tables[m]? = some u → key ∈ List.map Prod.fst u)

theorem mem_keys {t : List (κ × ℕ)} {key : κ} :
    key ∈ t.map Prod.fst ↔ ∃ handle, (key, handle) ∈ t := by simp

/-- Distinct keys have one handle each. -/
theorem handle_unique {t : List (κ × ℕ)} (h : (t.map Prod.fst).Nodup) {key : κ} {i j : ℕ}
    (hi : (key, i) ∈ t) (hj : (key, j) ∈ t) : i = j := by
  have hsame : (key, i) = (key, j) := List.inj_on_of_nodup_map h hi hj rfl
  exact congrArg Prod.snd hsame

namespace Tenures

variable {next next' : ℕ} {tables : List (List (κ × ℕ))} {t t' : List (κ × ℕ)}

theorem single_nil (next : ℕ) : Tenures next [([] : List (κ × ℕ))] where
  keys := by simp
  handles := by simp
  allocated := by simp
  owner := by simp
  tenure := by
    intro k n t t' _ hk _ key handle handle' hmem
    have : t ∈ [([] : List (κ × ℕ))] := List.mem_of_getElem? hk
    obtain rfl : t = [] := by simpa using this
    simp at hmem

/-- A handle the new table holds was already held for the same key, or is unused. -/
theorem renewed (hrenews : Renews next t t') {key : κ} {handle' : ℕ}
    (hmem : (key, handle') ∈ t') : (key, handle') ∈ t ∨ key ∉ t.map Prod.fst ∧ next ≤ handle' := by
  by_cases hkey : key ∈ t.map Prod.fst
  · obtain ⟨handle, hheld⟩ := mem_keys.mp hkey
    rw [hrenews.kept key handle handle' hheld hmem]
    exact Or.inl hheld
  · exact Or.inr ⟨hkey, hrenews.fresh key handle' hkey hmem⟩

/-- **Replacing the last table keeps a history a history.** -/
theorem renew (h : Tenures next tables) (hlast : tables.getLast? = some t)
    (hrenews : Renews next t t') (hnext : next ≤ next') (hrows : ∀ row ∈ t', row.2 < next') :
    Tenures next' (tables ++ [t']) := by
  have hmem : t ∈ tables := List.mem_of_getLast? hlast
  have hlen : 0 < tables.length := List.length_pos_of_mem hmem
  have hpos : tables[tables.length - 1]? = some t := by rw [← List.getLast?_eq_getElem?, hlast]
  have howner : ∀ u ∈ tables, ∀ key key' handle,
      (key, handle) ∈ u → (key', handle) ∈ t' → key = key' := by
    intro u hu key key' handle hkey hkey'
    rcases renewed hrenews hkey' with hheld | ⟨_, hfresh⟩
    · exact h.owner u hu t hmem key key' handle hkey hheld
    · have := h.allocated u hu _ hkey
      simp only at this
      omega
  refine ⟨?_, ?_, ?_, ?_, ?_⟩
  · intro u hu
    rcases List.mem_append.mp hu with hu | hu
    · exact h.keys u hu
    · obtain rfl : u = t' := by simpa using hu
      exact hrenews.keys
  · intro u hu
    rcases List.mem_append.mp hu with hu | hu
    · exact h.handles u hu
    · obtain rfl : u = t' := by simpa using hu
      exact hrenews.handles
  · intro u hu row hrow
    rcases List.mem_append.mp hu with hu | hu
    · exact (h.allocated u hu row hrow).trans_le hnext
    · obtain rfl : u = t' := by simpa using hu
      exact hrows row hrow
  · intro u hu u' hu' key key' handle hkey hkey'
    rcases List.mem_append.mp hu with hin | hnew <;>
      rcases List.mem_append.mp hu' with hin' | hnew'
    · exact h.owner u hin u' hin' key key' handle hkey hkey'
    · obtain rfl : u' = t' := by simpa using hnew'
      exact howner u hin key key' handle hkey hkey'
    · obtain rfl : u = t' := by simpa using hnew
      exact (howner u' hin' key' key handle hkey' hkey).symm
    · obtain rfl : u = t' := by simpa using hnew
      obtain rfl : u' = u := by simpa using hnew'
      have hsame := List.inj_on_of_nodup_map hrenews.handles hkey hkey' rfl
      exact congrArg Prod.fst hsame
  · intro k n u u' hkn hk hn key handle handle' hkey hkey'
    rcases lt_or_ge n tables.length with hn' | hn'
    · rw [List.getElem?_append_left hn'] at hn
      rw [List.getElem?_append_left (hkn.trans_lt hn')] at hk
      rw [h.tenure k n u u' hkn hk hn key handle handle' hkey hkey']
      refine forall_congr' fun m => forall_congr' fun _ => forall_congr' fun hm => ?_
      rw [List.getElem?_append_left (hm.trans_lt hn')]
    · have hnlast : n = tables.length := by
        have := (List.getElem?_eq_some_iff.mp hn).1
        simp only [List.length_append, List.length_singleton] at this
        omega
      subst hnlast
      obtain rfl : t' = u' := by simpa using hn
      rcases lt_or_ge k tables.length with hk' | hk'
      · rw [List.getElem?_append_left hk'] at hk
        rcases renewed hrenews hkey' with hheld | ⟨hout, hfresh⟩
        · rw [h.tenure k (tables.length - 1) u t (by omega) hk hpos key handle handle' hkey hheld]
          constructor
          · intro hstay m hkm hm v hv
            rcases lt_or_ge m tables.length with hm' | hm'
            · rw [List.getElem?_append_left hm'] at hv
              exact hstay m hkm (by omega) v hv
            · obtain rfl : m = tables.length := by omega
              obtain rfl : t' = v := by simpa using hv
              exact mem_keys.mpr ⟨_, hkey'⟩
          · intro hstay m hkm hm v hv
            exact hstay m hkm (by omega) v (by rwa [List.getElem?_append_left (by omega)])
        · have hold := h.allocated u (List.mem_of_getElem? hk) _ hkey
          simp only at hold
          refine iff_of_false (by omega) fun hstay => hout ?_
          exact hstay (tables.length - 1) (by omega) (by omega) t
            (by rwa [List.getElem?_append_left (by omega)])
      · obtain rfl : k = tables.length := by omega
        obtain rfl : t' = u := by simpa using hk
        refine iff_of_true (handle_unique hrenews.keys hkey hkey') ?_
        intro m hkm hm v hv
        obtain rfl : m = tables.length := by omega
        obtain rfl : t' = v := by simpa using hv
        exact mem_keys.mpr ⟨_, hkey'⟩

end Tenures

end Nhop.Foundation
