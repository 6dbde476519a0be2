import Nhop.Upstream.Health

/-!
The published upstream list: every address the operator named, each judged by
its own verdict.

A list that replaces another keeps the verdict of every address both name. The
lists number themselves by how many came before, so that one read before a
reload can be told from the one that replaced it.
-/

namespace Nhop.Upstream

open Foundation Ipc Proxy

/-- One upstream as the dialer and the patrol see it. -/
structure UpstreamEntry where
  upstream : Upstream
  health : HealthHandle
  deriving DecidableEq, Repr

/-- How many lists were published before one. -/
structure Publication where
  count : ℕ
  deriving DecidableEq, Repr

/-- The largest number a publication counts to. -/
def Publication.max : ℕ := 2 ^ 64 - 1

/-- The next publication, counted in 64 bits without wrapping. -/
def Publication.saturatingNext (publication : Publication) : Publication :=
  ⟨min (publication.count + 1) Publication.max⟩

/-- Upstreams new connections are handed to, in the operator's order. -/
structure UpstreamEntries where
  entries : List UpstreamEntry
  publication : Publication
  distinct : (entries.map fun entry => entry.upstream.socket).Nodup
  deriving DecidableEq, Repr

namespace UpstreamEntries

/-- The list in force until a load publishes one. -/
def empty : UpstreamEntries := ⟨[], ⟨0⟩, List.nodup_nil⟩

instance : Inhabited UpstreamEntries := ⟨empty⟩

@[simp] theorem entries_empty : empty.entries = [] := rfl

/-- The entry for `upstream`: the handle `kept` judges its address with, or a
fresh one. -/
def adoptOne (kept : List UpstreamEntry) (upstream : Upstream) (now : ℤ) (verdicts : Verdicts) :
    UpstreamEntry × Verdicts :=
  match kept.find? fun listed => listed.upstream.socket == upstream.socket with
  | some listed => (⟨upstream, listed.health⟩, verdicts)
  | none =>
      let (health, verdicts) := HealthHandle.judging upstream.written now verdicts
      (⟨upstream, health⟩, verdicts)

/-- The entries for a list of upstreams, in order. -/
def adoptEach (kept : List UpstreamEntry) (now : ℤ) :
    List Upstream → Verdicts → List UpstreamEntry × Verdicts
  | [], verdicts => ([], verdicts)
  | upstream :: rest, verdicts =>
      let (entry, verdicts) := adoptOne kept upstream now verdicts
      let (entries, verdicts) := adoptEach kept now rest verdicts
      (entry :: entries, verdicts)

@[simp] theorem adoptOne_upstream {kept : List UpstreamEntry} {upstream : Upstream} {now : ℤ}
    {verdicts : Verdicts} : (adoptOne kept upstream now verdicts).1.upstream = upstream := by
  unfold adoptOne
  split <;> rfl

theorem adoptEach_upstreams {kept : List UpstreamEntry} {now : ℤ} {next : List Upstream}
    {verdicts : Verdicts} :
    (adoptEach kept now next verdicts).1.map UpstreamEntry.upstream = next := by
  induction next generalizing verdicts with
  | nil => rfl
  | cons upstream rest ih => simp [adoptEach, ih]

theorem adoptEach_sockets {kept : List UpstreamEntry} {now : ℤ} {next : List Upstream}
    {verdicts : Verdicts} :
    (adoptEach kept now next verdicts).1.map (fun entry => entry.upstream.socket) =
      next.map Upstream.socket := by
  calc (adoptEach kept now next verdicts).1.map (fun entry => entry.upstream.socket)
      = ((adoptEach kept now next verdicts).1.map UpstreamEntry.upstream).map Upstream.socket := by
        simp [Function.comp_def]
    _ = next.map Upstream.socket := by rw [adoptEach_upstreams]

/-- The entries for `next`, keeping the verdict of every address this list
already judges. Fresh verdicts are down since `now`. -/
def adopted (list : UpstreamEntries) (next : Upstreams) (now : ℤ) (verdicts : Verdicts) :
    UpstreamEntries × Verdicts :=
  let each := adoptEach list.entries now next.entries verdicts
  ({ entries := each.1
     publication := list.publication.saturatingNext
     distinct := by
       rw [adoptEach_sockets]
       exact next.distinct }, each.2)

/-- Whether this list was published before `other`. -/
def publishedBefore (list other : UpstreamEntries) : Bool :=
  decide (list.publication.count < other.publication.count)

/-- The entry preferred over every other. -/
def first (list : UpstreamEntries) : Option UpstreamEntry := list.entries.head?

/-- The entry at `selected`, absent when nothing is selected. -/
def get (list : UpstreamEntries) (selected : Option ℕ) : Option UpstreamEntry :=
  selected.bind fun index => list.entries[index]?

/-- The entry a `require` dial goes through: the selected one, or the first
while none is selected. -/
def required (list : UpstreamEntries) (selected : Option ℕ) : Option UpstreamEntry :=
  match list.get selected with
  | some entry => some entry
  | none => list.first

/-- The verdicts of the entries, in order. -/
def verdicts (list : UpstreamEntries) (verdicts : Verdicts) : List Health :=
  list.entries.map fun entry => entry.health.verdict verdicts

/-- The table of a list: the address and the verdict cell of every entry. -/
def rows (list : UpstreamEntries) : List (SocketAddr × ℕ) :=
  list.entries.map fun entry => (entry.upstream.socket, entry.health.cell)

section lemmas

variable {list : UpstreamEntries} {next : Upstreams} {now : ℤ} {cells : Verdicts}

@[simp] theorem publication_adopted :
    (list.adopted next now cells).1.publication = list.publication.saturatingNext := rfl

theorem upstreams_adopted :
    (list.adopted next now cells).1.entries.map UpstreamEntry.upstream = next.entries :=
  adoptEach_upstreams

/-- Adopting addresses a list names gives back its entries, and allocates
nothing. -/
theorem adoptEach_kept {kept rest : List UpstreamEntry}
    (hdistinct : (kept.map fun entry => entry.upstream.socket).Nodup) (hrest : rest ⊆ kept) :
    adoptEach kept now (rest.map UpstreamEntry.upstream) cells = (rest, cells) := by
  induction rest with
  | nil => rfl
  | cons entry rest ih =>
      obtain ⟨hentry, hrest⟩ := List.cons_subset.mp hrest
      have hfind : kept.find? (fun listed => listed.upstream.socket == entry.upstream.socket) =
          some entry := by
        obtain ⟨listed, hfind⟩ : ∃ listed, kept.find?
            (fun listed => listed.upstream.socket == entry.upstream.socket) = some listed := by
          rw [← Option.isSome_iff_exists, List.find?_isSome]
          exact ⟨entry, hentry, by simp⟩
        have hsocket : listed.upstream.socket = entry.upstream.socket := by
          simpa using List.find?_some hfind
        rw [hfind, List.inj_on_of_nodup_map hdistinct (List.mem_of_find?_eq_some hfind) hentry
          hsocket]
      simp only [List.map_cons, adoptEach, adoptOne, hfind, ih hrest]

/-- Adopting a list that is in force keeps every entry and every verdict. -/
theorem adopted_self (h : list.entries.map UpstreamEntry.upstream = next.entries) :
    (list.adopted next now cells).1.entries = list.entries ∧
      (list.adopted next now cells).2 = cells := by
  have hkept : adoptEach list.entries now (list.entries.map UpstreamEntry.upstream) cells =
      (list.entries, cells) := adoptEach_kept list.distinct (List.Subset.refl _)
  rw [h] at hkept
  simp only [adopted, hkept]
  exact ⟨trivial, trivial⟩

@[simp] theorem get_none : list.get none = none := rfl

theorem get_some {index : ℕ} : list.get (some index) = list.entries[index]? := rfl

theorem getElem?_verdicts {index : ℕ} :
    (list.verdicts cells)[index]? =
      list.entries[index]?.map fun entry => entry.health.verdict cells := by
  simp [verdicts]

/-- Two entries of one list that dial the same socket are the same entry. -/
theorem index_of_socket {i j : ℕ} {entry entry' : UpstreamEntry}
    (hi : list.entries[i]? = some entry) (hj : list.entries[j]? = some entry')
    (h : entry.upstream.socket = entry'.upstream.socket) : i = j := by
  obtain ⟨hilt, hi⟩ := List.getElem?_eq_some_iff.mp hi
  obtain ⟨hjlt, hj⟩ := List.getElem?_eq_some_iff.mp hj
  have hmap := (List.nodup_iff_injective_getElem.mp list.distinct)
  have hfin := @hmap ⟨i, by simpa using hilt⟩ ⟨j, by simpa using hjlt⟩ (by simp [hi, hj, h])
  exact congrArg Fin.val hfin

end lemmas

end UpstreamEntries

end Nhop.Upstream
