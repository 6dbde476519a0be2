import Nhop.Foundation.Runs
import Nhop.Upstream.Dial
import Nhop.Upstream.Selection

/-!
The upstreams of a running router: publications, dials, observations and the
patrol, in any order.

The parties share nothing but the verdict cells, the published list and the
recorded selection, and each of their steps is one access to one of these. A
load publishes a list. A dial holds on to the list it was handed, possibly long
after it has been replaced, and writes a verdict through an entry of it, or
records a selection made from it. The patrol takes the list in force, probes
every entry of it at once, and folds the answers in as they return: it reads the
verdict an answer is folded into, and where the answer confirms the one before,
it writes the verdict in a step of its own.

The history of published lists, the answers folded in and the verdicts turned
down since the selection was last recorded are kept beside the state; no step
reads them.
-/

namespace Nhop.Upstream

open Foundation Ipc Proxy

/-! ### The patrol -/

/-- One contradicting observation waiting for a second one to agree with it. -/
structure Pending where
  target : HealthState
  health : HealthHandle
  deriving DecidableEq, Repr

/-- The observation waiting for a handle. -/
def banked (pending : List Pending) (health : HealthHandle) : Option HealthState :=
  (pending.find? fun waiting => waiting.health.same health).map Pending.target

/-- What one observation does to the sequence pending for its entry. -/
inductive Advance
  | agreed
  | confirmed
  | opened
  deriving DecidableEq, Repr

/-- Folds one observation into the sequence pending for its entry, given the
verdict in force. -/
def advance (banked : Option HealthState) (seen settled : HealthState) : Advance :=
  match settled, seen with
  | .up, .up | .down, .down => .agreed
  | .up, .down | .down, .up => if banked = some seen then .confirmed else .opened

/-- A round under way. -/
structure Round where
  started : ℤ
  probing : List UpstreamEntry
  confirming : Option (HealthHandle × HealthState)
  next : List Pending
  deriving DecidableEq, Repr

/-- Where the patrol is in its loop. -/
inductive Stage
  | looking
  | entering (list : UpstreamEntries)
  | probing (round : Round)
  deriving DecidableEq, Repr

/-- The patrol: how many rounds it has begun, the sequences the last one left
pending, and where it is. -/
structure Patrol where
  rounds : ℕ
  pending : List Pending
  stage : Stage
  deriving DecidableEq, Repr

/-- One answer folded in: the round, the verdict it is about, what the probe saw
and the verdict in force. -/
structure Fold where
  round : ℕ
  health : HealthHandle
  seen : HealthState
  inForce : HealthState
  deriving DecidableEq, Repr

/-! ### The state -/

structure Hop where
  now : ℤ
  cells : Verdicts
  replaced : List (Arc UpstreamEntries)
  live : Arc UpstreamEntries
  observed : Observed
  patrol : Patrol
  switches : List Switch
  folds : List Fold
  downs : List HealthHandle

namespace Hop

/-- Every list ever published, the first one first. -/
def history (hop : Hop) : List (Arc UpstreamEntries) := hop.replaced ++ [hop.live]

/-- Nothing has been published, recorded or probed. -/
def start (now : ℤ) : Hop where
  now := now
  cells := Cells.empty ⟨⟨""⟩, .down, now⟩
  replaced := []
  live := ⟨1, UpstreamEntries.empty⟩
  observed := ⟨⟨0, UpstreamEntries.empty⟩, none⟩
  patrol := ⟨0, [], .looking⟩
  switches := []
  folds := []
  downs := []

/-- Swaps in a list, in a new allocation. -/
def publish (hop : Hop) (next : Upstreams) : Hop :=
  let adopted := hop.live.val.adopted next hop.now hop.cells
  { hop with
    cells := adopted.2
    replaced := hop.history
    live := ⟨hop.live.ptr + 1, adopted.1⟩ }

/-- Writes a verdict through a handle. -/
def judge (hop : Hop) (health : HealthHandle) (state : HealthState) (cause : VerdictCause)
    (stamp : ℤ) : Hop :=
  { hop with
    cells := (health.setAt state cause stamp hop.cells).1
    downs :=
      if health.state hop.cells = .up ∧ state = .down then health :: hop.downs else hop.downs }

/-- Records a selection, logging the move it is. -/
def record (hop : Hop) (list : Arc UpstreamEntries) (selected : Option ℕ) : Hop :=
  let switched := hop.observed.switched list selected hop.cells
  { hop with
    observed := switched.1
    switches := hop.switches ++ switched.2.toList
    downs := if list.val.publishedBefore hop.observed.list.val then hop.downs else [] }

/-- Folds the answer of one probe in. -/
def fold (hop : Hop) (round : Round) (index : ℕ) (entry : UpstreamEntry) (seen : HealthState) :
    Hop :=
  let settled := entry.health.state hop.cells
  let round := { round with probing := round.probing.eraseIdx index }
  { hop with
    folds := hop.folds ++ [⟨hop.patrol.rounds, entry.health, seen, settled⟩]
    patrol.stage := .probing
      (match advance (banked hop.patrol.pending entry.health) seen settled with
      | .agreed => round
      | .confirmed => { round with confirming := some (entry.health, seen) }
      | .opened => { round with next := round.next ++ [⟨seen, entry.health⟩] }) }

end Hop

/-! ### The steps -/

inductive HopEvent
  /-- The clock reads `now` from here on. -/
  | clock (now : ℤ)
  /-- A load publishes a list. -/
  | publish (next : Upstreams)
  /-- A dial through an entry of a list it was handed judges that entry. -/
  | dialled (list index : ℕ) (state : HealthState)
  /-- A selection made from a list handed out earlier is recorded. -/
  | observe (list : ℕ) (selected : Option ℕ)
  /-- The selection is made from the list in force and recorded, at once. -/
  | look
  /-- The patrol takes the list in force. -/
  | wake
  /-- The patrol sends the probes of a round out. -/
  | send
  /-- A probe returns with an answer, which is folded in. -/
  | answered (index : ℕ) (answer : SocksAnswer)
  /-- A probe is lost. -/
  | lost (index : ℕ)
  /-- The patrol writes the verdict two answers agree on. -/
  | confirm
  /-- The round ends. -/
  | close

namespace Hop

def step (hold : ℕ) (hop : Hop) : HopEvent → Option Hop
  | .clock now => some { hop with now := now }
  | .publish next => some (hop.publish next)
  | .dialled list index state => do
      let list ← hop.history[list]?
      let entry ← list.val.entries[index]?
      some (hop.judge entry.health state .dial hop.now)
  -- whoever made the selection may have held its list for as long as it likes
  | .observe list selected => do
      let list ← hop.history[list]?
      some (hop.record list selected)
  | .look => some (hop.record hop.live (hop.live.val.selected hop.cells hop.now hold))
  | .wake =>
      match hop.patrol.stage with
      | .looking =>
          match hop.live.val.first with
          -- with nothing to probe, what waited for a second answer is dropped
          | none => some { hop with patrol.pending := [] }
          | some _ => some { hop with patrol.stage := .entering hop.live.val }
      | _ => none
  | .send =>
      match hop.patrol.stage with
      | .entering list =>
          some { hop with
            patrol.rounds := hop.patrol.rounds + 1
            patrol.stage := .probing ⟨hop.now, list.entries, none, []⟩ }
      | _ => none
  | .answered index answer =>
      match hop.patrol.stage with
      | .probing round =>
          -- the verdict two answers agree on is written before the next answer is folded in
          if round.confirming.isNone then
            round.probing[index]?.map fun entry => hop.fold round index entry (probe answer)
          else none
      | _ => none
  | .lost index =>
      match hop.patrol.stage with
      | .probing round =>
          if round.confirming.isNone ∧ index < round.probing.length then
            some { hop with
              patrol.stage := .probing { round with probing := round.probing.eraseIdx index } }
          else none
      | _ => none
  | .confirm =>
      match hop.patrol.stage with
      | .probing round =>
          round.confirming.map fun (health, seen) =>
            { hop.judge health seen .probe round.started with
              patrol.stage := .probing { round with confirming := none } }
      | _ => none
  | .close =>
      match hop.patrol.stage with
      | .probing round =>
          if round.probing = [] ∧ round.confirming.isNone then
            some { hop with patrol.pending := round.next, patrol.stage := .looking }
          else none
      | _ => none

/-- The system the parties make up, for a return hold. -/
def system (hold : ℕ) : System Hop HopEvent := ⟨step hold⟩

/-! ### What each step does -/

/-- The steps, by what they change. -/
inductive Steps (hold : ℕ) (hop : Hop) : HopEvent → Hop → Prop
  | clock (now : ℤ) : Steps hold hop (.clock now) { hop with now := now }
  | publish (next : Upstreams) : Steps hold hop (.publish next) (hop.publish next)
  | dialled (k index : ℕ) (state : HealthState) (list : Arc UpstreamEntries)
      (entry : UpstreamEntry) (hlist : hop.history[k]? = some list)
      (hentry : list.val.entries[index]? = some entry) :
      Steps hold hop (.dialled k index state) (hop.judge entry.health state .dial hop.now)
  | observe (k : ℕ) (selected : Option ℕ) (list : Arc UpstreamEntries)
      (hlist : hop.history[k]? = some list) :
      Steps hold hop (.observe k selected) (hop.record list selected)
  | look : Steps hold hop .look
      (hop.record hop.live (hop.live.val.selected hop.cells hop.now hold))
  | idle (hstage : hop.patrol.stage = .looking) (hempty : hop.live.val.entries = []) :
      Steps hold hop .wake { hop with patrol.pending := [] }
  | wake (hstage : hop.patrol.stage = .looking) :
      Steps hold hop .wake { hop with patrol.stage := .entering hop.live.val }
  | send (list : UpstreamEntries) (hstage : hop.patrol.stage = .entering list) :
      Steps hold hop .send { hop with
        patrol.rounds := hop.patrol.rounds + 1
        patrol.stage := .probing ⟨hop.now, list.entries, none, []⟩ }
  | answered (index : ℕ) (answer : SocksAnswer) (round : Round) (entry : UpstreamEntry)
      (hstage : hop.patrol.stage = .probing round) (hquiet : round.confirming = none)
      (hentry : round.probing[index]? = some entry) :
      Steps hold hop (.answered index answer) (hop.fold round index entry (probe answer))
  | lost (index : ℕ) (round : Round) (hstage : hop.patrol.stage = .probing round)
      (hquiet : round.confirming = none) :
      Steps hold hop (.lost index) { hop with
        patrol.stage := .probing { round with probing := round.probing.eraseIdx index } }
  | confirm (round : Round) (health : HealthHandle) (seen : HealthState)
      (hstage : hop.patrol.stage = .probing round)
      (hconfirming : round.confirming = some (health, seen)) :
      Steps hold hop .confirm { hop.judge health seen .probe round.started with
        patrol.stage := .probing { round with confirming := none } }
  | close (round : Round) (hstage : hop.patrol.stage = .probing round)
      (hquiet : round.confirming = none) :
      Steps hold hop .close { hop with patrol.pending := round.next, patrol.stage := .looking }

/-- Every enabled event does one of these things. -/
theorem steps_of_step {hold : ℕ} {hop hop' : Hop} {event : HopEvent}
    (h : (system hold).step hop event = some hop') : Steps hold hop event hop' := by
  change step hold hop event = some hop' at h
  cases event with
  | clock now =>
      obtain rfl := Option.some.inj h
      exact .clock now
  | publish next =>
      obtain rfl := Option.some.inj h
      exact .publish next
  | dialled k index state =>
      obtain ⟨list, hlist, h⟩ := Option.bind_eq_some_iff.mp h
      obtain ⟨entry, hentry, h⟩ := Option.bind_eq_some_iff.mp h
      obtain rfl := Option.some.inj h
      exact .dialled k index state list entry hlist hentry
  | observe k selected =>
      obtain ⟨list, hlist, h⟩ := Option.bind_eq_some_iff.mp h
      obtain rfl := Option.some.inj h
      exact .observe k selected list hlist
  | look =>
      obtain rfl := Option.some.inj h
      exact .look
  | wake =>
      simp only [step] at h
      split at h
      · next hstage =>
          split at h
          · next hfirst =>
              obtain rfl := Option.some.inj h
              exact .idle hstage (List.head?_eq_none_iff.mp hfirst)
          · obtain rfl := Option.some.inj h
            exact .wake hstage
      · cases h
  | send =>
      simp only [step] at h
      split at h
      · next list hstage =>
          obtain rfl := Option.some.inj h
          exact .send list hstage
      · cases h
  | answered index answer =>
      simp only [step] at h
      split at h
      · next round hstage =>
          split at h
          · next hquiet =>
              obtain ⟨entry, hentry, rfl⟩ := Option.map_eq_some_iff.mp h
              exact .answered index answer round entry hstage (by simpa using hquiet) hentry
          · cases h
      · cases h
  | lost index =>
      simp only [step] at h
      split at h
      · next round hstage =>
          split at h
          · next hquiet =>
              obtain rfl := Option.some.inj h
              exact .lost index round hstage (by simpa using hquiet.1)
          · cases h
      · cases h
  | confirm =>
      simp only [step] at h
      split at h
      · next round hstage =>
          obtain ⟨⟨health, seen⟩, hconfirming, rfl⟩ := Option.map_eq_some_iff.mp h
          exact .confirm round health seen hstage hconfirming
      · cases h
  | close =>
      simp only [step] at h
      split at h
      · next round hstage =>
          split at h
          · next hquiet =>
              obtain rfl := Option.some.inj h
              exact .close round hstage (by simpa using hquiet.2)
          · cases h
      · cases h

/-- What a write through a handle leaves of a verdict. -/
theorem verdict_judge {hop : Hop} {health other : HealthHandle} {state : HealthState}
    {cause : VerdictCause} {stamp : ℤ} :
    other.verdict (hop.judge health state cause stamp).cells =
      if other = health then (health.verdict hop.cells).after state stamp
      else other.verdict hop.cells := by
  simp only [judge, HealthHandle.setAt_fst]
  exact HealthHandle.verdict_settle

end Hop

end Nhop.Upstream
