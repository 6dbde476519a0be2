import Nhop.Foundation.Copying
import Nhop.Proxy.Http.Serve

/-!
The two directions of a forwarded request, call by call.

Once the head is sent, the rest of the body is copied to the origin and the answer to
the client, side by side, and the two are joined: the first failure of either ends
both. So an answer reaches the client whole exactly as long as the upload does not
fail before the answer was written (`answer_reaches_iff`). An origin that answers and
stops reading makes it fail.

What the serving front end records of it is what the two copies come to
(`copy_of_forwarding`).
-/

namespace Nhop.Proxy.Http

open Foundation

/-- How many bytes a copy holds between a read and a write. -/
def copyBuffer : ℕ := 8192

/-! ### One direction -/

inductive Stage
  | copying
  /-- The copy ended, and the stream is flushed or shut down. -/
  | closing
  | done
  deriving DecidableEq, Repr

/-- One direction: a copy, and what is done once it ended. -/
structure Block where
  copying : Copying UInt8
  stage : Stage
  ended : stage ≠ .copying → copying.finished = true
  deriving DecidableEq

/-- One call of a direction that succeeds. -/
inductive BlockMove
  | copies (move : CopyMove)
  | flushes
  | closes
  deriving DecidableEq, Repr

namespace Block

def of (source : List UInt8) : Block := ⟨.of source, .copying, by simp⟩

def step (block : Block) : BlockMove → Option Block
  | .copies move =>
      if h : block.stage = .copying then
        (block.copying.step copyBuffer move).map fun copying =>
          ⟨copying, block.stage, fun hother => absurd h hother⟩
      else none
  | .flushes =>
      if h : block.stage = .copying ∧ block.copying.finished = true then
        some ⟨block.copying, .closing, fun _ => h.2⟩
      else none
  | .closes =>
      if h : block.stage = .closing then
        some ⟨block.copying, .done, fun _ => block.ended (by rw [h]; decide)⟩
      else none

variable {block block' : Block} {move : BlockMove}

theorem whole_step (hstep : block.step move = some block') :
    block'.copying.whole = block.copying.whole := by
  cases move with
  | copies move =>
      rw [step] at hstep
      split_ifs at hstep
      obtain ⟨copying, hcopying, rfl⟩ := Option.map_eq_some_iff.mp hstep
      exact Copying.whole_step hcopying
  | flushes =>
      rw [step] at hstep
      split_ifs at hstep
      cases hstep
      rfl
  | closes =>
      rw [step] at hstep
      split_ifs at hstep
      cases hstep
      rfl

theorem sink_of_stage (h : block.stage ≠ .copying) : block.copying.sink = block.copying.whole :=
  Copying.sink_of_finished (block.ended h)

end Block

/-! ### Both directions -/

inductive Side
  | sending | answering
  deriving DecidableEq, Repr

/-- A forwarded request: the writes that come before the two directions, the
directions, and how they ended once they have. -/
structure Forwarding where
  opening : List (List UInt8)
  sending : Block
  answering : Block
  outcome : Option (Except OsError Unit)

/-- One call, or the end of the join. -/
inductive ForwardingMove
  | opens
  | openingFails (failure : OsError)
  | moves (side : Side) (move : BlockMove)
  | fails (side : Side) (failure : OsError)
  | returns
  deriving DecidableEq, Repr

namespace Forwarding

/-- The origin is sent the head and what came behind it, the last call being a flush;
`body` is what the client sends of the rest, `answer` all that the origin does. -/
def begun (head behind body answer : List UInt8) : Forwarding :=
  ⟨[head, behind, []], .of body, .of answer, none⟩

def block (s : Forwarding) : Side → Block
  | .sending => s.sending
  | .answering => s.answering

def setBlock (s : Forwarding) (block : Block) : Side → Forwarding
  | .sending => { s with sending := block }
  | .answering => { s with answering := block }

/-- What was written to the client. -/
def written (s : Forwarding) : List UInt8 := s.answering.copying.sink

/-- A call, which is made as long as nothing has ended the request. The first failure
ends it, whatever the other direction has left to do. -/
def step (s : Forwarding) (move : ForwardingMove) : Option Forwarding :=
  match s.outcome with
  | some _ => none
  | none =>
      match move with
      | .opens =>
          match s.opening with
          | [] => none
          | _ :: opening => some { s with opening := opening }
      | .openingFails failure =>
          if s.opening = [] then none else some { s with outcome := some (.error failure) }
      | .moves side move =>
          if s.opening = [] then ((s.block side).step move).map fun block => s.setBlock block side
          else none
      | .fails side failure =>
          if s.opening = [] ∧ (s.block side).stage ≠ .done then
            some { s with outcome := some (.error failure) }
          else none
      | .returns =>
          if s.opening = [] ∧ s.sending.stage = .done ∧ s.answering.stage = .done then
            some { s with outcome := some (.ok ()) }
          else none

end Forwarding

/-- A forwarded request under every order of its calls. -/
def forwarding : System Forwarding ForwardingMove := ⟨Forwarding.step⟩

/-- The origin is not sent what the client sends. -/
def ForwardingMove.uploadFails : ForwardingMove → Bool
  | .openingFails _ => true
  | .fails .sending _ => true
  | _ => false

/-- The client is not sent what the origin sends. -/
def ForwardingMove.answerFails : ForwardingMove → Bool
  | .fails .answering _ => true
  | _ => false

/-- What is on the way of the answer to the client, and is neither a failure nor part of
the upload behind the head. -/
def ForwardingMove.carriesAnswer : ForwardingMove → Bool
  | .opens => true
  | .moves .answering _ => true
  | _ => false

/-- Every byte of the answer reaches the client: it did once the request has ended, and
until then nothing but calls that carry it are missing. -/
def AnswerReaches (answer : List UInt8) (s : Forwarding) : Prop :=
  (s.outcome ≠ none → s.written = answer) ∧
    (s.outcome = none → ∃ more s', (∀ move ∈ more, move.carriesAnswer = true) ∧
      forwarding.run s more = some s' ∧ s'.written = answer)

/-! ### Steps -/

section step

variable {s s' : Forwarding} {move : ForwardingMove} {answer : List UInt8}

/-- What a call can come to. -/
theorem step_cases (hstep : forwarding.step s move = some s') : s.outcome = none ∧
    ((∃ first opening, move = .opens ∧ s.opening = first :: opening ∧
        s' = { s with opening := opening }) ∨
      (∃ failure, move = .openingFails failure ∧
        s' = { s with outcome := some (.error failure) }) ∨
      (∃ side call block, move = .moves side call ∧ s.opening = [] ∧
        (s.block side).step call = some block ∧ s' = s.setBlock block side) ∨
      (∃ side failure, move = .fails side failure ∧
        s' = { s with outcome := some (.error failure) }) ∨
      move = .returns ∧ s.opening = [] ∧ s.sending.stage = .done ∧ s.answering.stage = .done ∧
        s' = { s with outcome := some (.ok ()) }) := by
  change Forwarding.step s move = some s' at hstep
  unfold Forwarding.step at hstep
  cases houtcome : s.outcome with
  | some outcome =>
      rw [houtcome] at hstep
      cases hstep
  | none =>
      rw [houtcome] at hstep
      refine ⟨rfl, ?_⟩
      cases move with
      | opens =>
          cases hopening : s.opening with
          | nil =>
              simp only [hopening] at hstep
              cases hstep
          | cons first opening =>
              simp only [hopening, Option.some.injEq] at hstep
              exact .inl ⟨first, opening, rfl, rfl, hstep.symm⟩
      | openingFails failure =>
          simp only at hstep
          split_ifs at hstep
          exact .inr (.inl ⟨failure, rfl, (Option.some.inj hstep).symm⟩)
      | moves side call =>
          simp only at hstep
          split_ifs at hstep with hopening
          obtain ⟨block, hblock, rfl⟩ := Option.map_eq_some_iff.mp hstep
          exact .inr (.inr (.inl ⟨side, call, block, rfl, hopening, hblock, rfl⟩))
      | fails side failure =>
          simp only at hstep
          split_ifs at hstep
          exact .inr (.inr (.inr (.inl ⟨side, failure, rfl, (Option.some.inj hstep).symm⟩)))
      | returns =>
          simp only at hstep
          split_ifs at hstep with hdone
          obtain ⟨hopening, hsending, hanswering⟩ := hdone
          exact .inr (.inr (.inr (.inr ⟨rfl, hopening, hsending, hanswering,
            (Option.some.inj hstep).symm⟩)))

theorem step_moves {side : Side} {call : BlockMove} {block : Block} (hgoing : s.outcome = none)
    (hopening : s.opening = []) (hblock : (s.block side).step call = some block) :
    forwarding.step s (.moves side call) = some (s.setBlock block side) := by
  show Forwarding.step s (.moves side call) = some (s.setBlock block side)
  simp only [Forwarding.step, hgoing, if_pos hopening, hblock, Option.map_some]

theorem step_whole (hstep : forwarding.step s move = some s') :
    s'.sending.copying.whole = s.sending.copying.whole ∧
      s'.answering.copying.whole = s.answering.copying.whole := by
  obtain ⟨_, h⟩ := step_cases hstep
  rcases h with ⟨_, _, _, _, rfl⟩ | ⟨_, _, rfl⟩ | ⟨side, call, block, _, _, hblock, rfl⟩ |
    ⟨_, _, _, rfl⟩ | ⟨_, _, _, _, rfl⟩
  · exact ⟨rfl, rfl⟩
  · exact ⟨rfl, rfl⟩
  · have hwhole := Block.whole_step hblock
    cases side with
    | sending => exact ⟨hwhole, rfl⟩
    | answering => exact ⟨rfl, hwhole⟩
  · exact ⟨rfl, rfl⟩
  · exact ⟨rfl, rfl⟩

theorem step_of_uploadFails (hstep : forwarding.step s move = some s')
    (hfails : move.uploadFails = true) : s'.outcome ≠ none ∧ s'.written = s.written := by
  obtain ⟨_, h⟩ := step_cases hstep
  rcases h with ⟨_, _, rfl, _, rfl⟩ | ⟨_, rfl, rfl⟩ | ⟨_, _, _, rfl, _, _, rfl⟩ |
    ⟨_, _, rfl, rfl⟩ | ⟨rfl, _, _, _, rfl⟩
  · cases hfails
  · exact ⟨by simp, rfl⟩
  · cases hfails
  · exact ⟨by simp, rfl⟩
  · cases hfails

theorem run_of_outcome {moves : List ForwardingMove} (h : s.outcome ≠ none)
    (hrun : forwarding.run s moves = some s') : s' = s := by
  cases moves with
  | nil => exact (Option.some.inj hrun).symm
  | cons move moves =>
      obtain ⟨s₁, hstep, _⟩ := Option.bind_eq_some_iff.mp hrun
      exact absurd (step_cases hstep).1 h

end step

/-! ### The answer -/

section answer

variable {s s' : Forwarding} {move : ForwardingMove} {moves : List ForwardingMove}
  {answer : List UInt8}

/-- What holds as long as the upload does not fail too early. -/
structure Carried (answer : List UInt8) (s : Forwarding) : Prop where
  whole : s.answering.copying.whole = answer
  written : s.outcome ≠ none → s.written = answer

theorem Carried.step (h : Carried answer s) (hstep : forwarding.step s move = some s')
    (hanswers : move.answerFails = false)
    (huploads : move.uploadFails = true → s.written = answer) :
    Carried answer s' where
  whole := (step_whole hstep).2.trans h.whole
  written := by
    intro hended
    obtain ⟨hgoing, hcases⟩ := step_cases hstep
    rcases hcases with ⟨_, _, _, _, rfl⟩ | ⟨_, rfl, rfl⟩ | ⟨side, _, _, _, _, _, rfl⟩ |
      ⟨side, _, rfl, rfl⟩ | ⟨_, _, _, hdone, rfl⟩
    · exact absurd hgoing hended
    · exact huploads rfl
    · cases side with
      | sending => exact absurd hgoing hended
      | answering => exact absurd hgoing hended
    · cases side with
      | sending => exact huploads rfl
      | answering => cases hanswers
    · have hstage : s.answering.stage ≠ .copying := by
        rw [hdone]
        decide
      exact (Block.sink_of_stage hstage).trans h.whole

theorem run_opens (h : s.outcome = none) : ∃ more s', (∀ move ∈ more, move.carriesAnswer = true) ∧
    forwarding.run s more = some s' ∧ s'.opening = [] ∧ s'.outcome = none ∧
      s'.answering = s.answering := by
  obtain ⟨opening, sending, answering, outcome⟩ := s
  obtain rfl : outcome = none := h
  induction opening with
  | nil => exact ⟨[], _, by simp, rfl, rfl, rfl, rfl⟩
  | cons first opening ih =>
      obtain ⟨more, s', hcarries, hrun, hopening, hgoing, hanswering⟩ := ih
      refine ⟨.opens :: more, s', ?_, hrun, hopening, hgoing, hanswering⟩
      intro move hmem
      rcases List.mem_cons.mp hmem with rfl | hmem
      · rfl
      · exact hcarries move hmem

/-- What the copy of the answer can do by itself it can do next to the upload. -/
theorem run_copies {calls : List CopyMove} {copying : Copying UInt8} (hgoing : s.outcome = none)
    (hopening : s.opening = []) (hstage : s.answering.stage = .copying)
    (hrun : (Copying.calls copyBuffer).run s.answering.copying calls = some copying) :
    ∃ s', forwarding.run s (calls.map fun call => .moves .answering (.copies call)) = some s' ∧
      s'.written = copying.sink := by
  induction calls generalizing s with
  | nil =>
      obtain rfl : s.answering.copying = copying := Option.some.inj hrun
      exact ⟨s, rfl, rfl⟩
  | cons call calls ih =>
      obtain ⟨next, hcall, hrest⟩ := Option.bind_eq_some_iff.mp hrun
      have hblock : s.answering.step (.copies call) =
          some ⟨next, s.answering.stage, fun hother => absurd hstage hother⟩ := by
        have hcall' : s.answering.copying.step copyBuffer call = some next := hcall
        rw [Block.step, dif_pos hstage, hcall']
        rfl
      have hstep : forwarding.step s (.moves .answering (.copies call)) = some { s with
          answering := ⟨next, s.answering.stage, fun hother => absurd hstage hother⟩ } :=
        step_moves hgoing hopening hblock
      obtain ⟨s', hrun', hwritten⟩ := ih (s := { s with
        answering := ⟨next, s.answering.stage, fun hother => absurd hstage hother⟩ })
        hgoing hopening hstage hrest
      refine ⟨s', ?_, hwritten⟩
      rw [List.map_cons, System.run_cons, hstep, Option.bind_some, hrun']

/-- As long as the request has not ended, the answer can be carried to its end. -/
theorem exists_written (hgoing : s.outcome = none) :
    ∃ more s', (∀ move ∈ more, move.carriesAnswer = true) ∧ forwarding.run s more = some s' ∧
      s'.written = s.answering.copying.whole := by
  obtain ⟨opens, opened, hcarries, hrun, hopening, hgoing', hanswering⟩ := run_opens hgoing
  by_cases hstage : opened.answering.stage = .copying
  · obtain ⟨calls, copying, hcalls, hsink⟩ :=
      Copying.completes (by decide : 0 < copyBuffer) opened.answering.copying
    obtain ⟨s', hrun', hwritten⟩ := run_copies hgoing' hopening hstage hcalls
    refine ⟨opens ++ calls.map fun call => .moves .answering (.copies call), s', ?_, ?_, ?_⟩
    · intro move hmem
      rcases List.mem_append.mp hmem with hmem | hmem
      · exact hcarries move hmem
      · obtain ⟨call, _, rfl⟩ := List.mem_map.mp hmem
        rfl
    · rw [System.run_append, hrun, Option.bind_some, hrun']
    · rw [hwritten, hsink, hanswering]
  · refine ⟨opens, opened, hcarries, hrun, ?_⟩
    rw [← hanswering]
    exact Block.sink_of_stage hstage

/-- **A failed upload truncates the answer if it fails too early**, and nothing else does.
Over every interleaving in which the origin answers and closes and the client reads on,
every byte of the answer reaches the client exactly when the upload does not fail before
all of them are written. -/
theorem answer_reaches_iff {head behind body : List UInt8}
    (hrun : forwarding.run (.begun head behind body answer) moves = some s)
    (hanswers : ∀ move ∈ moves, move.answerFails = false) :
    AnswerReaches answer s ↔
      ∀ t move t', forwarding.Takes (.begun head behind body answer) moves t move t' →
        move.uploadFails = true → t.written = answer := by
  have hwhole : s.answering.copying.whole = answer :=
    System.invariant (I := fun s => s.answering.copying.whole = answer) rfl
      (fun _ _ _ h hstep => (step_whole hstep).2.trans h) ⟨moves, hrun⟩
  constructor
  · rintro hreaches t move t' ⟨before, after, rfl, hbefore, hstep⟩ hfails
    obtain ⟨hended, hkept⟩ := step_of_uploadFails hstep hfails
    have hrest : forwarding.run t' after = some s := by
      rw [System.run_append, hbefore, Option.bind_some, System.run_cons, hstep,
        Option.bind_some] at hrun
      exact hrun
    obtain rfl := run_of_outcome hended hrest
    rw [← hkept]
    exact hreaches.1 hended
  · intro huploads
    refine ⟨?_, fun hgoing => ?_⟩
    · have hcarried : Carried answer s := by
        refine System.invariant_along (C := fun t move =>
          move.answerFails = false ∧ (move.uploadFails = true → t.written = answer))
          ⟨rfl, fun hended => absurd rfl hended⟩
          (fun t move t' h hcond hstep => h.step hstep hcond.1 hcond.2) hrun ?_
        intro t move t' htakes
        exact ⟨hanswers move htakes.mem, huploads t move t' htakes⟩
      exact hcarried.written
    · rw [← hwhole]
      exact exists_written hgoing

end answer

/-! ### An upload that fails late, and one that fails early -/

/-- The head of a request, what the client sends of its body, and the answer. -/
def uploading : Forwarding := .begun [0x50] [] [1, 2, 3] [0x34, 0x31, 0x33]

def brokenPipe : OsError := ⟨"Broken pipe (os error 32)"⟩

/-- The origin stops reading once its answer was written to the client. -/
def stopsLate : List ForwardingMove :=
  [.opens, .opens, .opens, .moves .sending (.copies (.reads 2)),
    .moves .answering (.copies (.reads 3)), .moves .answering (.copies (.writes 3)),
    .moves .sending (.copies (.writes 1)), .fails .sending brokenPipe]

/-- It stops reading while some of its answer is on the way. -/
def stopsEarly : List ForwardingMove :=
  [.opens, .opens, .opens, .moves .sending (.copies (.reads 2)),
    .moves .answering (.copies (.reads 3)), .moves .answering (.copies (.writes 1)),
    .fails .sending brokenPipe]

theorem answer_reaches_late : ∃ s, forwarding.run uploading stopsLate = some s ∧
    AnswerReaches [0x34, 0x31, 0x33] s := by
  refine ⟨_, rfl, (@answer_reaches_iff _ stopsLate _ [0x50] [] [1, 2, 3] rfl (by decide)).mpr ?_⟩
  intro t move t' htakes hfails
  have hlate : forwarding.every (fun t move =>
      !move.uploadFails || decide (t.written = [0x34, 0x31, 0x33])) uploading
        stopsLate = true := rfl
  have hcond := htakes.of_every hlate
  simpa [hfails] using hcond

/-- The origin answers and closes, the client reads on, and the upload that fails keeps
two bytes of the answer from it. -/
theorem answer_truncated : ∃ s, forwarding.run uploading stopsEarly = some s ∧
    (∀ move ∈ stopsEarly, move.answerFails = false) ∧ s.outcome ≠ none ∧
      s.written = [0x34] ∧ ¬AnswerReaches [0x34, 0x31, 0x33] s := by
  refine ⟨_, rfl, by decide, by decide, rfl, fun hreaches => ?_⟩
  have hwritten := hreaches.1 (by decide)
  revert hwritten
  decide

/-! ### The record of it -/

section record

variable {s s' : Forwarding} {move : ForwardingMove} {moves : List ForwardingMove}
  {head behind body answer : List UInt8} {outcome : Except OsError Unit}

/-- A request that was forwarded without a failure was forwarded whole. -/
theorem sending_sink_of_ok (hrun : forwarding.run (.begun head behind body answer) moves = some s)
    (hok : s.outcome = some (.ok ())) : s.sending.copying.sink = body := by
  have hinv : s.sending.copying.whole = body ∧
      (s.outcome = some (.ok ()) → s.sending.stage = .done) := by
    refine System.invariant (I := fun s => s.sending.copying.whole = body ∧
      (s.outcome = some (.ok ()) → s.sending.stage = .done)) ⟨rfl, fun h => by cases h⟩ ?_
      ⟨moves, hrun⟩
    intro s move s' h hstep
    refine ⟨(step_whole hstep).1.trans h.1, fun hended => ?_⟩
    obtain ⟨hgoing, hcases⟩ := step_cases hstep
    rcases hcases with ⟨_, _, _, _, rfl⟩ | ⟨_, _, rfl⟩ | ⟨side, _, _, _, _, _, rfl⟩ |
      ⟨_, _, _, rfl⟩ | ⟨_, _, hdone, _, rfl⟩
    · rw [hgoing] at hended
      cases hended
    · cases hended
    · cases side with
      | sending =>
          have hnone : some (Except.ok ()) = none := hended.symm.trans hgoing
          cases hnone
      | answering =>
          have hnone : some (Except.ok ()) = none := hended.symm.trans hgoing
          cases hnone
    · cases hended
    · exact hdone
  have hstage : s.sending.stage ≠ .copying := by
    rw [hinv.2 hok]
    decide
  exact (Block.sink_of_stage hstage).trans hinv.1

/-- The failure a forwarded request ended with. -/
def lossOf : Except OsError Unit → Option OsError
  | .ok () => none
  | .error failure => some failure

/-- Of a client that sends what the upload is a copy of, the one transfer that the front
end records has the bytes that the two directions wrote, and their outcome. -/
theorem copy_of_forwarding {limit : ℕ} {conn : Connection} (wire : Wire)
    (hrun : forwarding.run (.begun head behind (conn.incoming.take limit) answer) moves = some s)
    (houtcome : s.outcome = some outcome) :
    copy limit { wire with
        passes := fun _ => ⟨s.sending.copying.sink.length, lossOf outcome⟩
        answered := s.written } conn =
      (outcome.mapError Failure.os,
        { conn with trace := conn.trace ++ [.relayed s.sending.copying.sink s.written] }) := by
  have hwhole : s.sending.copying.whole = conn.incoming.take limit :=
    System.invariant (I := fun s => s.sending.copying.whole = conn.incoming.take limit) rfl
      (fun _ _ _ h hstep => (step_whole hstep).1.trans h) ⟨moves, hrun⟩
  cases outcome with
  | ok done =>
      have hall := sending_sink_of_ok hrun houtcome
      show ((Except.ok () : Except Failure Unit), { conn with
        trace := conn.trace ++ [Action.relayed (conn.incoming.take limit) s.written] }) = _
      rw [hall]
      rfl
  | error failure =>
      have htaken : (conn.incoming.take limit).take s.sending.copying.sink.length =
          s.sending.copying.sink := by
        rw [← hwhole]
        exact (List.prefix_iff_eq_take.mp (Copying.sink_prefix_whole _)).symm
      show ((Except.error (Failure.os failure) : Except Failure Unit), { conn with
        trace := conn.trace ++ [Action.relayed ((conn.incoming.take limit).take
          s.sending.copying.sink.length) s.written] }) = _
      rw [htaken]
      rfl

end record

end Nhop.Proxy.Http
