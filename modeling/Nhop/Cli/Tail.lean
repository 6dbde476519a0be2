import Nhop.Cli.Logging
import Nhop.Foundation.Utf8
import Nhop.Proxy.Subscribers

/-!
`nhop tail`, from the fan-out of the daemon to what is printed.

A task of the daemon takes one event after the other out of its subscriber's queue and
writes it as a line, in pieces of whatever length, and the command puts the lines
together again out of whatever pieces it reads. Other subscribers come, go and read
meanwhile, and connections go on ending. What is printed is what was delivered to the
queue, in order, and the deliveries with what they report as missed are what was
published since the command subscribed (`tail_follows`).
-/

namespace Nhop.Cli.Tail

open Foundation Ipc Proxy

/-- What a line of the stream says. -/
inductive Published
  | event (event : EventView)
  | other (response : Response)
  deriving DecidableEq, Repr

/-- The writer of events, without the line break behind them, and the reader of lines. -/
class Codec where
  write : EventView → List UInt8
  read : String → Except String Published

/-- What the command makes of the bytes of a line. -/
inductive Told
  /-- They are no text. -/
  | garbled
  | blank
  | published (published : Published)
  | malformed (failure : String)
  deriving DecidableEq, Repr

/-- The stream of one subscriber. -/
structure Tailing where
  events : EventTx
  /-- The number of its queue. -/
  reader : ℕ
  /-- Whether the task of the daemon runs. -/
  serving : Bool
  /-- What is left to write of a line. -/
  writing : List UInt8
  /-- What was written and not read. -/
  wire : List UInt8
  /-- What was read and not looked at. -/
  held : List UInt8
  out : List EventView
  exit : Option Exit

/-- What happens to the stream, and around it. -/
inductive Event
  /-- What connections and other subscribers do. -/
  | calls (call : FanOutCall)
  /-- The task takes an event out of the queue. -/
  | takes
  /-- It gets some bytes of the line written. -/
  | writes (count : ℕ)
  /-- It ends, since it shuts down, is hung up on or cannot write. -/
  | stops
  /-- The command reads some bytes. -/
  | reads (count : ℕ)
  /-- It looks at a line. -/
  | prints
  /-- It reads that the daemon has hung up. -/
  | ends
  /-- A read of it fails; with a reset once the daemon is gone. -/
  | fails (reset : Bool)
  deriving DecidableEq, Repr

def lineBreak : UInt8 := byteOf '\n'

/-- Whether the call is one that only the subscriber makes. -/
def isBy (reader : ℕ) : FanOutCall → Bool
  | .subscribe | .publish _ => false
  | .tryRecv other | .hangUp other => decide (other = reader)

section tailing

variable [Codec]

/-- An event as it is written. -/
def lineOf (event : EventView) : List UInt8 := Codec.write event ++ [lineBreak]

def told (bytes : List UInt8) : Told :=
  match utf8Text bytes with
  | none => .garbled
  | some text =>
      let line := trim (String.ofList text)
      if line = "" then .blank
      else
        match Codec.read line with
        | .ok published => .published published
        | .error failure => .malformed failure

namespace Tailing

variable (s : Tailing)

/-- The queue of the stream. -/
def queue : EventQueue := s.events.queues s.reader

/-- Prints what a line says, or exits. -/
def hears : Told → Tailing
  | .garbled => { s with exit := some (.ofUnreachable (.io ⟨"invalid data"⟩)) }
  | .blank => s
  | .published (.event event) => { s with out := s.out ++ [event] }
  | .published (.other response) => { s with exit := some (render response) }
  | .malformed failure => { s with exit := some (.ofUnreachable (.malformed failure)) }

/-- A subscriber has asked for the stream. -/
def opened (events : EventTx) : Tailing where
  events := events.subscribe
  reader := events.opened
  serving := true
  writing := []
  wire := []
  held := []
  out := []
  exit := none

def step : Event → Option Tailing
  | .calls call =>
      if isBy s.reader call then none
      else (fanOut.step s.events call).map fun events => { s with events := events }
  | .takes =>
      if s.serving ∧ s.writing = [] then
        match s.queue.waiting with
        | [] => none
        | event :: _ =>
            (s.events.tryRecv s.reader).map fun events =>
              { s with events := events, writing := lineOf event }
      else none
  | .writes count =>
      if s.serving ∧ 0 < count ∧ count ≤ s.writing.length then
        some { s with
          wire := s.wire ++ s.writing.take count
          writing := s.writing.drop count }
      else none
  | .stops =>
      if s.serving then
        (s.events.hangUp s.reader).map fun events =>
          { s with events := events, serving := false, writing := [] }
      else none
  | .reads count =>
      if s.exit = none ∧ 0 < count ∧ count ≤ s.wire.length then
        some { s with held := s.held ++ s.wire.take count, wire := s.wire.drop count }
      else none
  | .prints =>
      if s.exit = none ∧ lineBreak ∈ s.held then
        let line := upTo lineBreak s.held
        some ({ s with held := s.held.drop line.length }.hears (told line))
      else none
  | .ends =>
      if s.exit = none ∧ s.serving = false ∧ s.wire = [] ∧ lineBreak ∉ s.held then
        if s.held = [] then some { s with exit := some .success }
        else some ({ s with held := [] }.hears (told s.held))
      else none
  | .fails reset =>
      if s.exit = none ∧ (reset = true → s.serving = false) then
        some { s with exit := some (if reset then .success else .ofUnreachable (.io ⟨"read"⟩)) }
      else none

end Tailing

/-- The stream of a subscriber and everything around it. -/
def tailing : System Tailing Event := ⟨Tailing.step⟩

end tailing

/-- The call of the fan-out that an event of the stream is. -/
def callOf (reader : ℕ) : Event → Option FanOutCall
  | .calls call => some call
  | .takes => some (.tryRecv reader)
  | .stops => some (.hangUp reader)
  | .writes _ | .reads _ | .prints | .ends | .fails _ => none

/-- What the task and the command do by themselves. -/
def isOwn : Event → Bool
  | .takes | .writes _ | .reads _ | .prints => true
  | .calls _ | .stops | .ends | .fails _ => false

/-! ### The queue of the stream -/

section queue

variable {part : Part} {reader : ℕ} {call : FanOutCall}

/-- What is not done by the reader of a queue adds to it at most, and removes its
subscriber only when the queue is closed. -/
theorem after_others (hopened : reader < part.opened) (hcall : isBy reader call = false) :
    (part.after reader call).queue.taken = part.queue.taken ∧
      (part.after reader call).queue.closed = part.queue.closed ∧
      part.queue.delivered <+: (part.after reader call).queue.delivered ∧
      part.opened ≤ (part.after reader call).opened ∧
      (part.queue.closed = false → part.subscriber ≠ none →
        (part.after reader call).subscriber ≠ none) := by
  have hheld (hopen : part.queue.closed = false) (hsome : part.subscriber ≠ none) :
      (part.after reader call).subscriber ≠ none := by
    intro hgone
    rw [(Part.removed hsome hgone).2] at hopen
    cases hopen
  cases call with
  | subscribe =>
      have hsame : part.after reader .subscribe = { part with opened := part.opened + 1 } :=
        if_neg (by omega)
      rw [hsame] at hheld ⊢
      exact ⟨rfl, rfl, List.prefix_rfl, Nat.le_succ _, hheld⟩
  | publish event =>
      refine ⟨?_, ?_, ?_, ?_, hheld⟩
      all_goals
        obtain ⟨opened, queue, subscriber⟩ := part
        cases subscriber with
        | none => simp [Part.after, Part.publish]
        | some subscriber =>
            simp only [Part.after, Part.publish]
            rcases offer_cases subscriber queue event with ⟨_, h⟩ | ⟨_, h⟩ | ⟨_, h⟩ <;> simp [h]
  | tryRecv other =>
      have hne : other ≠ reader := by simpa [isBy] using hcall
      have hsame : part.after reader (.tryRecv other) = part := if_neg hne
      rw [hsame] at hheld ⊢
      exact ⟨rfl, rfl, List.prefix_rfl, le_rfl, hheld⟩
  | hangUp other =>
      have hne : other ≠ reader := by simpa [isBy] using hcall
      have hsame : part.after reader (.hangUp other) = part := if_neg hne
      rw [hsame] at hheld ⊢
      exact ⟨rfl, rfl, List.prefix_rfl, le_rfl, hheld⟩

end queue

section stream

variable [Codec] {s s' : Tailing} {e : Event} {before : List FanOutCall} {events : EventTx}
  {es : List Event}

omit [Codec] in
theorem hears_frame (s : Tailing) (heard : Told) :
    (s.hears heard).events = s.events ∧ (s.hears heard).reader = s.reader ∧
      (s.hears heard).serving = s.serving ∧ (s.hears heard).writing = s.writing ∧
      (s.hears heard).wire = s.wire ∧ (s.hears heard).held = s.held := by
  rcases heard with _ | _ | (_ | _) | _ <;> exact ⟨rfl, rfl, rfl, rfl, rfl, rfl⟩

/-- **What a step does to the fan-out.** -/
theorem events_step (h : tailing.step s e = some s') :
    s'.reader = s.reader ∧ (callOf s.reader e = none → s'.events = s.events) ∧
      (∀ call, callOf s.reader e = some call → fanOut.step s.events call = some s'.events) ∧
      (s'.serving = true → s.serving = true ∧ e ≠ .stops) := by
  have hcalls {call : FanOutCall} {after : EventTx}
      (hafter : fanOut.step s.events call = some after) (other : FanOutCall)
      (hother : some call = some other) : fanOut.step s.events other = some after :=
    Option.some.inj hother ▸ hafter
  have hquiet {events : EventTx} (other : FanOutCall) (hother : (none : Option FanOutCall) =
      some other) : fanOut.step s.events other = some events := by
    cases hother
  cases e with
  | calls call =>
      simp only [tailing, Tailing.step] at h
      split_ifs at h with hby
      obtain ⟨after, hafter, rfl⟩ := Option.map_eq_some_iff.mp h
      exact ⟨rfl, by simp [callOf], hcalls hafter, fun hserving => ⟨hserving, by simp⟩⟩
  | takes =>
      simp only [tailing, Tailing.step] at h
      split_ifs at h with hready
      cases hwaiting : s.queue.waiting with
      | nil => simp [hwaiting] at h
      | cons event rest =>
          rw [hwaiting] at h
          obtain ⟨after, hafter, rfl⟩ := Option.map_eq_some_iff.mp h
          exact ⟨rfl, by simp [callOf], hcalls hafter, fun hserving => ⟨hserving, by simp⟩⟩
  | writes count =>
      simp only [tailing, Tailing.step] at h
      split_ifs at h
      cases h
      exact ⟨rfl, fun _ => rfl, hquiet, fun hserving => ⟨hserving, by simp⟩⟩
  | stops =>
      simp only [tailing, Tailing.step] at h
      split_ifs at h
      obtain ⟨after, hafter, rfl⟩ := Option.map_eq_some_iff.mp h
      exact ⟨rfl, by simp [callOf], hcalls hafter, fun hserving => by cases hserving⟩
  | reads count =>
      simp only [tailing, Tailing.step] at h
      split_ifs at h
      cases h
      exact ⟨rfl, fun _ => rfl, hquiet, fun hserving => ⟨hserving, by simp⟩⟩
  | prints =>
      simp only [tailing, Tailing.step] at h
      split_ifs at h
      cases h
      obtain ⟨hevents, hreader, hserving, _⟩ := hears_frame
        { s with held := s.held.drop (upTo lineBreak s.held).length } (told (upTo lineBreak s.held))
      exact ⟨hreader, fun _ => hevents, hquiet, fun h => ⟨hserving ▸ h, by simp⟩⟩
  | ends =>
      simp only [tailing, Tailing.step] at h
      split_ifs at h
      · cases h
        exact ⟨rfl, fun _ => rfl, hquiet, fun hserving => ⟨hserving, by simp⟩⟩
      · cases h
        obtain ⟨hevents, hreader, hserving, _⟩ := hears_frame { s with held := [] } (told s.held)
        exact ⟨hreader, fun _ => hevents, hquiet, fun h => ⟨hserving ▸ h, by simp⟩⟩
  | fails reset =>
      simp only [tailing, Tailing.step] at h
      split_ifs at h <;>
        · cases h
          exact ⟨rfl, fun _ => rfl, hquiet, fun hserving => ⟨hserving, by simp⟩⟩

/-- The calls of the fan-out that a run of the stream comes to. -/
def callsOf (before : List FanOutCall) (reader : ℕ) (es : List Event) : List FanOutCall :=
  before ++ .subscribe :: es.filterMap (callOf reader)

omit [Codec] in
theorem callsOf_append (before : List FanOutCall) (reader : ℕ) (es : List Event) (e : Event) :
    callsOf before reader (es ++ [e]) =
      callsOf before reader es ++ (callOf reader e).toList := by
  cases hcall : callOf reader e <;> simp [callsOf, hcall]

/-- What holds of the queue of a stream. While the task serves, it is subscribed. -/
structure Tailing.Subscribed (s : Tailing) : Prop where
  opened : s.reader < s.events.opened
  numbered : s.events.Numbered
  taken : s.queue.taken ≤ s.queue.delivered.length
  served : s.serving = true →
    s.queue.closed = false ∧ (s.events.part s.reader).subscriber ≠ none

/-- What a step does to the queue of the stream: an event is taken out of it, or it is
closed, or others add to it. -/
theorem queue_step (hs : s.Subscribed) (h : tailing.step s e = some s') :
    (e = .takes ∧ s.queue.waiting ≠ [] ∧ s'.queue = s.queue.tryRecv ∨
      e = .stops ∧ s'.queue = s.queue.hangUp ∨
      (∃ call, e = .calls call) ∧ s'.queue.taken = s.queue.taken ∧
        s'.queue.closed = s.queue.closed ∧ s.queue.delivered <+: s'.queue.delivered ∨
      callOf s.reader e = none ∧ s'.queue = s.queue) ∧ s'.Subscribed := by
  obtain ⟨hreader, hsame, hcall, hserving⟩ := events_step h
  have hpart (call : FanOutCall) (hof : callOf s.reader e = some call) :
      s'.events.part s.reader = (s.events.part s.reader).after s.reader call :=
    EventTx.part_step hs.numbered (hcall call hof) s.reader
  have hqueue : s'.queue = (s'.events.part s.reader).queue := by
    rw [Tailing.queue, hreader]
    rfl
  have hkept (hnone : callOf s.reader e = none) :
      callOf s.reader e = none ∧ s'.queue = s.queue := by
    refine ⟨hnone, ?_⟩
    rw [Tailing.queue, hreader, hsame hnone]
    rfl
  have hnumbered : s'.events.Numbered := by
    cases hof : callOf s.reader e with
    | none => exact hsame hof ▸ hs.numbered
    | some call => exact hs.numbered.step (hcall call hof)
  have hsubscribed (hnone : callOf s.reader e = none) : s'.Subscribed := by
    obtain ⟨_, hq⟩ := hkept hnone
    refine ⟨by rw [hreader, hsame hnone]; exact hs.opened, hnumbered, by rw [hq]; exact hs.taken,
      ?_⟩
    intro hserved
    rw [hq, hreader, hsame hnone]
    exact hs.served (hserving hserved).1
  cases e with
  | calls call =>
      have hby : isBy s.reader call = false := by
        simp only [tailing, Tailing.step] at h
        split_ifs at h with hby
        simpa using hby
      have hlater : s.reader < (s.events.part s.reader).opened := hs.opened
      obtain ⟨htaken, hclosed, hdelivered, hopened, hheld⟩ := after_others hlater hby
      rw [← hpart call rfl] at htaken hclosed hdelivered hopened hheld
      rw [← hqueue] at htaken hclosed hdelivered
      refine ⟨Or.inr (Or.inr (Or.inl ⟨⟨call, rfl⟩, htaken, hclosed, hdelivered⟩)), ?_,
        hnumbered, ?_, ?_⟩
      · rw [hreader]
        exact hs.opened.trans_le hopened
      · rw [htaken]
        exact hs.taken.trans hdelivered.length_le
      · intro hserved
        obtain ⟨hopen, hsome⟩ := hs.served (hserving hserved).1
        rw [hclosed, hreader]
        exact ⟨hopen, hheld hopen hsome⟩
  | takes =>
      have hwaiting : s.queue.waiting ≠ [] := by
        intro hnil
        simp [tailing, Tailing.step, hnil] at h
      have hown := hpart (.tryRecv s.reader) rfl
      rw [Part.after, if_pos rfl] at hown
      have hq : s'.queue = s.queue.tryRecv := by
        rw [hqueue, hown]
        rfl
      have hrecv : s.queue.tryRecv = { s.queue with taken := s.queue.taken + 1 } := if_neg hwaiting
      refine ⟨Or.inl ⟨rfl, hwaiting, hq⟩, ?_, hnumbered, ?_, ?_⟩
      · have hopened : s'.events.opened = s.events.opened := congrArg Part.opened hown
        rw [hreader, hopened]
        exact hs.opened
      · rw [hq, hrecv]
        show s.queue.taken + 1 ≤ s.queue.delivered.length
        have hlength : 0 < s.queue.waiting.length := List.length_pos_of_ne_nil hwaiting
        rw [EventQueue.waiting, List.length_drop] at hlength
        omega
      · intro hserved
        obtain ⟨hopen, hsome⟩ := hs.served (hserving hserved).1
        rw [hq, hrecv, hreader, hown]
        exact ⟨hopen, hsome⟩
  | stops =>
      have hown := hpart (.hangUp s.reader) rfl
      rw [Part.after, if_pos rfl] at hown
      have hq : s'.queue = s.queue.hangUp := by
        rw [hqueue, hown]
        rfl
      refine ⟨Or.inr (Or.inl ⟨rfl, hq⟩), ?_, hnumbered, by rw [hq]; exact hs.taken, ?_⟩
      · have hopened : s'.events.opened = s.events.opened := congrArg Part.opened hown
        rw [hreader, hopened]
        exact hs.opened
      · intro hserved
        exact absurd rfl (hserving hserved).2
  | writes count => exact ⟨Or.inr (Or.inr (Or.inr (hkept rfl))), hsubscribed rfl⟩
  | reads count => exact ⟨Or.inr (Or.inr (Or.inr (hkept rfl))), hsubscribed rfl⟩
  | prints => exact ⟨Or.inr (Or.inr (Or.inr (hkept rfl))), hsubscribed rfl⟩
  | ends => exact ⟨Or.inr (Or.inr (Or.inr (hkept rfl))), hsubscribed rfl⟩
  | fails reset => exact ⟨Or.inr (Or.inr (Or.inr (hkept rfl))), hsubscribed rfl⟩

/-! ### Lines in pieces -/

/-- The line of the event is one line, is read as that event, and no piece of it is
read as anything else. -/
structure Legible (event : EventView) : Prop where
  oneLine : lineBreak ∉ Codec.write event
  reads : told (lineOf event) = .published (.event event)
  cut : ∀ part, part <+: Codec.write event → ∀ published, told part = .published published →
    published = .event event

/-- The events the task has taken. -/
def Tailing.handed (s : Tailing) : List EventView := s.queue.delivered.take s.queue.taken

/-- The bytes on their way are the lines of the events that were taken and not printed,
up to where the task ended. -/
structure Tailing.Framed (s : Tailing) : Prop where
  out : s.out <+: s.handed
  onTheWay : s.exit = none → ∃ rest cut, s.handed = s.out ++ rest ∧
    s.held ++ s.wire ++ s.writing ++ cut = rest.flatMap lineOf ∧ (s.serving = true → cut = [])
  silent : s.serving = false → s.writing = []

omit [Codec] in
theorem upTo_of_prefix {held more : List UInt8} (h : lineBreak ∈ held) :
    upTo lineBreak (held ++ more) = upTo lineBreak held := by
  induction held with
  | nil => cases h
  | cons byte held ih =>
      rw [List.cons_append, upTo_cons, upTo_cons]
      split_ifs with hbyte
      · rfl
      · rw [ih ((List.mem_cons.mp h).resolve_left fun heq => hbyte heq.symm)]

theorem upTo_lineOf {event : EventView} (h : lineBreak ∉ Codec.write event) (more : List UInt8) :
    upTo lineBreak (lineOf event ++ more) = lineOf event := by
  rw [lineOf, List.append_assoc, upTo_append_of_notMem h, List.singleton_append, upTo_cons,
    if_pos rfl]

/-- What is told of the first line is the first event on its way. -/
theorem held_first {held more : List UInt8} {rest : List EventView}
    (hsplit : held ++ more = rest.flatMap lineOf) (hmem : lineBreak ∈ held)
    (hlegible : ∀ event ∈ rest, Legible event) :
    ∃ event later, rest = event :: later ∧ upTo lineBreak held = lineOf event ∧
      held.drop (upTo lineBreak held).length ++ more = later.flatMap lineOf := by
  cases rest with
  | nil =>
      rw [List.flatMap_nil, List.append_eq_nil_iff] at hsplit
      rw [hsplit.1] at hmem
      cases hmem
  | cons event later =>
      have hlegibleEvent := hlegible event (List.mem_cons_self ..)
      have hfirst : upTo lineBreak held = lineOf event := by
        rw [← upTo_of_prefix hmem, hsplit, List.flatMap_cons,
          upTo_lineOf hlegibleEvent.oneLine]
      refine ⟨event, later, rfl, hfirst, ?_⟩
      have hheld := List.prefix_iff_eq_append.mp (upTo_begins lineBreak held)
      rw [hfirst] at hheld ⊢
      rw [← hheld, List.append_assoc, List.flatMap_cons] at hsplit
      exact List.append_cancel_left hsplit

theorem held_piece {held cut : List UInt8} {rest : List EventView}
    (hsplit : held ++ cut = rest.flatMap lineOf) (hmem : lineBreak ∉ held) (hsome : held ≠ []) :
    ∃ event later, rest = event :: later ∧ held <+: Codec.write event := by
  cases rest with
  | nil => exact absurd (List.append_eq_nil_iff.mp hsplit).1 hsome
  | cons event later =>
      refine ⟨event, later, rfl, ?_⟩
      have hbegins : held <+: Codec.write event ++ lineBreak :: later.flatMap lineOf := by
        refine ⟨cut, ?_⟩
        rw [hsplit, List.flatMap_cons, lineOf, List.append_assoc]
        rfl
      rcases List.prefix_or_prefix_of_prefix hbegins (List.prefix_append _ _) with hshort | hlong
      · exact hshort
      · obtain ⟨more, rfl⟩ := hlong
        cases more with
        | nil => simp
        | cons byte more =>
            exfalso
            have hrest := (List.prefix_append_right_inj _).mp hbegins
            obtain rfl := (List.cons_prefix_cons.mp hrest).1
            simp at hmem

theorem handed_step (hs : s.Subscribed) (h : tailing.step s e = some s') :
    (e ≠ .takes → s'.handed = s.handed) ∧ s.queue.delivered <+: s'.queue.delivered ∧
      (isOwn e = true → s'.queue.delivered = s.queue.delivered) := by
  obtain ⟨hqueue, _⟩ := queue_step hs h
  rcases hqueue with ⟨rfl, hwaiting, hq⟩ | ⟨rfl, hq⟩ | ⟨⟨call, rfl⟩, htaken, _, hdelivered⟩ |
    ⟨hnone, hq⟩
  · have hrecv : s.queue.tryRecv = { s.queue with taken := s.queue.taken + 1 } := if_neg hwaiting
    rw [hq, hrecv]
    exact ⟨fun hne => absurd rfl hne, List.prefix_rfl, fun _ => rfl⟩
  · refine ⟨fun _ => ?_, ?_, fun hown => by cases hown⟩
    · rw [Tailing.handed, hq]
      rfl
    · rw [hq]
      exact List.prefix_rfl
  · refine ⟨fun _ => ?_, hdelivered, fun hown => by cases hown⟩
    obtain ⟨more, hmore⟩ := hdelivered
    rw [Tailing.handed, htaken, ← hmore, List.take_append_of_le_length hs.taken]
    rfl
  · refine ⟨fun _ => ?_, ?_, fun _ => by rw [hq]⟩
    · rw [Tailing.handed, hq]
      rfl
    · rw [hq]

/-- An event that is taken is written next. -/
theorem handed_takes (hs : s.Subscribed) (h : tailing.step s .takes = some s') :
    ∃ event, s'.handed = s.handed ++ [event] ∧ s.queue.waiting = event :: s'.queue.waiting ∧
      s' = { s with events := s'.events, writing := lineOf event } ∧ s.writing = [] ∧
      s.serving = true := by
  obtain ⟨hqueue, _⟩ := queue_step hs h
  obtain ⟨hwaiting, hq⟩ : s.queue.waiting ≠ [] ∧ s'.queue = s.queue.tryRecv := by
    rcases hqueue with ⟨_, hwaiting, hq⟩ | ⟨hne, _⟩ | ⟨⟨call, hne⟩, _⟩ | ⟨hnone, _⟩
    · exact ⟨hwaiting, hq⟩
    · cases hne
    · cases hne
    · cases hnone
  simp only [tailing, Tailing.step] at h
  split_ifs at h with hready
  cases hhead : s.queue.waiting with
  | nil => exact absurd hhead hwaiting
  | cons event later =>
      rw [hhead] at h
      obtain ⟨after, _, rfl⟩ := Option.map_eq_some_iff.mp h
      have hrecv : s.queue.tryRecv = { s.queue with taken := s.queue.taken + 1 } := if_neg hwaiting
      have hdrop : s.queue.delivered.drop s.queue.taken = event :: later := hhead
      refine ⟨event, ?_, ?_, rfl, hready.2, hready.1⟩
      · rw [Tailing.handed, hq, hrecv]
        show s.queue.delivered.take (s.queue.taken + 1) = s.handed ++ [event]
        rw [List.take_add_one, ← List.head?_drop, hdrop]
        rfl
      · rw [hq, hrecv]
        show event :: later = event :: s.queue.delivered.drop (s.queue.taken + 1)
        rw [← List.tail_drop, hdrop, List.tail_cons]

theorem prints_step (hframed : s.Framed) (hlegible : ∀ event ∈ s.handed, Legible event)
    (h : tailing.step s .prints = some s') :
    ∃ event later cut, s.handed = s.out ++ event :: later ∧
      s' = { s with
        held := s.held.drop (upTo lineBreak s.held).length
        out := s.out ++ [event] } ∧
      s'.held ++ s.wire ++ s.writing ++ cut = later.flatMap lineOf ∧
      (s.serving = true → cut = []) := by
  simp only [tailing, Tailing.step] at h
  split_ifs at h with hready
  obtain ⟨rest, cut, hhanded, hway, hcut⟩ := hframed.onTheWay hready.1
  have hrest : ∀ event ∈ rest, Legible event := fun event hmem =>
    hlegible event (hhanded ▸ List.mem_append_right _ hmem)
  rw [List.append_assoc, List.append_assoc] at hway
  obtain ⟨event, later, rfl, hfirst, hbehind⟩ := held_first hway hready.2 hrest
  have htold := (hrest event (List.mem_cons_self ..)).reads
  rw [← hfirst] at htold
  simp only [htold, Tailing.hears, Option.some.injEq] at h
  subst h
  exact ⟨event, later, cut, hhanded, rfl, by simpa using hbehind, hcut⟩

/-- What is left of a line when the task has ended is the next event, or is not printed. -/
theorem framed_hears {event : EventView} {later : List EventView} {heard : Told}
    (hrest : s.handed = s.out ++ event :: later) (hdone : s.serving = false)
    (hwriting : s.writing = []) (hwire : s.wire = []) (hheld : s.held = [])
    (hcut : ∀ published, heard = .published published → published = .event event) :
    (s.hears heard).Framed := by
  have hbytes (more : List EventView) :
      s.held ++ s.wire ++ s.writing ++ more.flatMap lineOf = more.flatMap lineOf := by
    rw [hheld, hwire, hwriting]
    rfl
  have hserving {cut : List UInt8} (h : s.serving = true) : cut = [] := by
    rw [hdone] at h
    cases h
  cases heard with
  | garbled => exact ⟨⟨_, hrest.symm⟩, (fun h => by cases h), fun _ => hwriting⟩
  | blank => exact ⟨⟨_, hrest.symm⟩, fun _ => ⟨_, _, hrest, hbytes _, hserving⟩, fun _ => hwriting⟩
  | published published =>
      obtain rfl := hcut published rfl
      have hnext : s.handed = (s.out ++ [event]) ++ later := by
        rw [hrest, List.append_assoc, List.singleton_append]
      exact ⟨⟨_, hnext.symm⟩, fun _ => ⟨_, _, hnext, hbytes _, hserving⟩, fun _ => hwriting⟩
  | malformed failure => exact ⟨⟨_, hrest.symm⟩, (fun h => by cases h), fun _ => hwriting⟩

theorem framed_step (hs : s.Subscribed) (hframed : s.Framed)
    (hlegible : ∀ event ∈ s.handed, Legible event) (h : tailing.step s e = some s') :
    s'.Framed := by
  have hsame := (handed_step hs h).1
  cases e with
  | calls call =>
      have hhanded := hsame (by simp)
      simp only [tailing, Tailing.step] at h
      split_ifs at h
      obtain ⟨after, _, rfl⟩ := Option.map_eq_some_iff.mp h
      refine ⟨?_, ?_, hframed.silent⟩
      · rw [hhanded]
        exact hframed.out
      · intro hexit
        rw [hhanded]
        exact hframed.onTheWay hexit
  | takes =>
      obtain ⟨event, hhanded, _, heq, hsilent, hserving⟩ := handed_takes hs h
      refine ⟨?_, ?_, ?_⟩
      · rw [hhanded, heq]
        exact hframed.out.trans (List.prefix_append _ _)
      · rw [hhanded, heq]
        intro hexit
        obtain ⟨rest, cut, hrest, hway, hcut⟩ := hframed.onTheWay hexit
        -- a task that serves has cut nothing, so its event goes behind all that is on the way
        obtain rfl := hcut hserving
        refine ⟨rest ++ [event], [], by rw [hrest, List.append_assoc], ?_, fun _ => rfl⟩
        rw [hsilent, List.append_nil, List.append_nil] at hway
        simp [hway]
      · rw [heq]
        intro hdone
        rw [hserving] at hdone
        cases hdone
  | writes count =>
      have hhanded := hsame (by simp)
      simp only [tailing, Tailing.step] at h
      split_ifs at h with hready
      cases h
      refine ⟨by rw [hhanded]; exact hframed.out, ?_, ?_⟩
      · rw [hhanded]
        intro hexit
        obtain ⟨rest, cut, hrest, hway, hcut⟩ := hframed.onTheWay hexit
        refine ⟨rest, cut, hrest, ?_, hcut⟩
        rw [← hway]
        conv_rhs => rw [← List.take_append_drop count s.writing]
        simp only [List.append_assoc]
      · intro hdone
        rw [show s.serving = true from hready.1] at hdone
        cases hdone
  | stops =>
      have hhanded := hsame (by simp)
      simp only [tailing, Tailing.step] at h
      split_ifs at h with hserving
      obtain ⟨after, _, rfl⟩ := Option.map_eq_some_iff.mp h
      refine ⟨by rw [hhanded]; exact hframed.out, ?_, fun _ => rfl⟩
      rw [hhanded]
      intro hexit
      obtain ⟨rest, cut, hrest, hway, _⟩ := hframed.onTheWay hexit
      -- what the task had left to write is what is missing of the last line
      refine ⟨rest, s.writing ++ cut, hrest, ?_, fun hdone => by cases hdone⟩
      rw [← hway]
      simp only [List.append_assoc, List.nil_append]
  | reads count =>
      have hhanded := hsame (by simp)
      simp only [tailing, Tailing.step] at h
      split_ifs at h with hready
      cases h
      refine ⟨by rw [hhanded]; exact hframed.out, ?_, hframed.silent⟩
      rw [hhanded]
      intro hexit
      obtain ⟨rest, cut, hrest, hway, hcut⟩ := hframed.onTheWay hexit
      refine ⟨rest, cut, hrest, ?_, hcut⟩
      rw [← hway]
      conv_rhs => rw [← List.take_append_drop count s.wire]
      simp only [List.append_assoc]
  | prints =>
      have hhanded := hsame (by simp)
      obtain ⟨event, later, cut, hrest, heq, hway, hcut⟩ := prints_step hframed hlegible h
      refine ⟨?_, ?_, by rw [heq]; exact hframed.silent⟩
      · rw [hhanded, heq, hrest]
        exact ⟨later, by simp⟩
      · intro _
        refine ⟨later, cut, ?_, ?_, by rw [heq]; exact hcut⟩
        · rw [hhanded, heq, hrest]
          simp
        · rw [heq] at hway ⊢
          exact hway
  | ends =>
      have hhanded := hsame (by simp)
      simp only [tailing, Tailing.step] at h
      split_ifs at h with hready hnil
      · cases h
        exact ⟨by rw [hhanded]; exact hframed.out, (fun hexit => by cases hexit), hframed.silent⟩
      · cases h
        obtain ⟨hexit, hdone, hwire, hbreak⟩ := hready
        obtain ⟨rest, cut, hrest, hway, _⟩ := hframed.onTheWay hexit
        rw [hwire, hframed.silent hdone, List.append_nil, List.append_nil] at hway
        obtain ⟨event, later, rfl, hpiece⟩ := held_piece hway hbreak hnil
        have hevent := hlegible event (hrest ▸ by simp)
        -- what is held begins one line, and is an event only where it is all of it
        exact framed_hears (s := { s with held := [] }) hrest hdone (hframed.silent hdone) hwire rfl
          fun published htold => hevent.cut s.held hpiece published htold
  | fails reset =>
      have hhanded := hsame (by simp)
      simp only [tailing, Tailing.step] at h
      split_ifs at h <;>
        · cases h
          exact ⟨by rw [hhanded]; exact hframed.out, (fun hexit => by cases hexit), hframed.silent⟩

/-- The command exits when a read fails, and else only once the task has ended. -/
theorem exit_step (hs : s.Subscribed) (hframed : s.Framed)
    (hlegible : ∀ event ∈ s.handed, Legible event) (h : tailing.step s e = some s')
    (hexit : s'.exit ≠ none) : s.exit ≠ none ∨ e = .fails false ∨ s'.serving = false := by
  cases e with
  | calls call =>
      simp only [tailing, Tailing.step] at h
      split_ifs at h
      obtain ⟨after, _, rfl⟩ := Option.map_eq_some_iff.mp h
      exact Or.inl hexit
  | takes =>
      obtain ⟨_, _, _, heq, _⟩ := handed_takes hs h
      rw [heq] at hexit
      exact Or.inl hexit
  | writes count =>
      simp only [tailing, Tailing.step] at h
      split_ifs at h
      cases h
      exact Or.inl hexit
  | stops =>
      simp only [tailing, Tailing.step] at h
      split_ifs at h
      obtain ⟨after, _, rfl⟩ := Option.map_eq_some_iff.mp h
      exact Or.inl hexit
  | reads count =>
      simp only [tailing, Tailing.step] at h
      split_ifs at h
      cases h
      exact Or.inl hexit
  | prints =>
      obtain ⟨_, _, _, _, heq, _⟩ := prints_step hframed hlegible h
      rw [heq] at hexit
      exact Or.inl hexit
  | ends =>
      simp only [tailing, Tailing.step] at h
      split_ifs at h with hready hnil
      · cases h
        exact Or.inr (Or.inr hready.2.1)
      · cases h
        obtain ⟨_, _, hserving, _⟩ := hears_frame { s with held := [] } (told s.held)
        exact Or.inr (Or.inr (hserving.trans hready.2.1))
  | fails reset =>
      simp only [tailing, Tailing.step] at h
      split_ifs at h with hready hreset
      -- a reset is for a task that has ended with bytes it never wrote
      · cases h
        exact Or.inr (Or.inr (hready.2 hreset))
      · rw [Bool.not_eq_true] at hreset
        rw [hreset]
        exact Or.inr (Or.inl rfl)

/-! ### Nothing gets stuck -/

theorem own_step (hs : s.Subscribed) (hframed : s.Framed)
    (hlegible : ∀ event ∈ s.handed, Legible event) (hown : isOwn e = true)
    (h : tailing.step s e = some s') : s'.serving = s.serving ∧ s'.exit = s.exit := by
  cases e with
  | takes =>
      obtain ⟨_, _, _, heq, _⟩ := handed_takes hs h
      rw [heq]
      exact ⟨rfl, rfl⟩
  | writes count =>
      simp only [tailing, Tailing.step] at h
      split_ifs at h
      cases h
      exact ⟨rfl, rfl⟩
  | reads count =>
      simp only [tailing, Tailing.step] at h
      split_ifs at h
      cases h
      exact ⟨rfl, rfl⟩
  | prints =>
      obtain ⟨_, _, _, _, heq, _⟩ := prints_step hframed hlegible h
      rw [heq]
      exact ⟨rfl, rfl⟩
  | calls call => cases hown
  | stops => cases hown
  | ends => cases hown
  | fails reset => cases hown

/-- What is left to do for the task and the command: a byte is written, read and looked
at, once its event is taken. -/
def Tailing.work (s : Tailing) : ℕ :=
  (s.queue.waiting.map fun event => 1 + 3 * (lineOf event).length).sum + 3 * s.writing.length +
    2 * s.wire.length + s.held.length

theorem work_lt (hs : s.Subscribed) (hframed : s.Framed)
    (hlegible : ∀ event ∈ s.handed, Legible event) (hown : isOwn e = true)
    (h : tailing.step s e = some s') : s'.work < s.work := by
  obtain ⟨hqueue, _⟩ := queue_step hs h
  have hkept (hne : callOf s.reader e = none) : s'.queue.waiting = s.queue.waiting := by
    rcases hqueue with ⟨rfl, _⟩ | ⟨rfl, _⟩ | ⟨⟨call, rfl⟩, _⟩ | ⟨_, hq⟩
    · cases hne
    · cases hne
    · cases hne
    · rw [hq]
  cases e with
  | takes =>
      obtain ⟨event, _, hwaiting, heq, hsilent, _⟩ := handed_takes hs h
      have hway : s'.writing = lineOf event ∧ s'.wire = s.wire ∧ s'.held = s.held := by
        rw [heq]
        exact ⟨rfl, rfl, rfl⟩
      unfold Tailing.work
      rw [hwaiting, hsilent, hway.1, hway.2.1, hway.2.2]
      simp only [List.map_cons, List.sum_cons, List.length_nil]
      omega
  | writes count =>
      have hwaiting := hkept rfl
      simp only [tailing, Tailing.step] at h
      split_ifs at h with hready
      cases h
      unfold Tailing.work
      rw [hwaiting]
      simp only [List.length_append, List.length_take, List.length_drop]
      omega
  | reads count =>
      have hwaiting := hkept rfl
      simp only [tailing, Tailing.step] at h
      split_ifs at h with hready
      cases h
      unfold Tailing.work
      rw [hwaiting]
      simp only [List.length_append, List.length_take, List.length_drop]
      omega
  | prints =>
      have hwaiting := hkept rfl
      have hready : lineBreak ∈ s.held := by
        simp only [tailing, Tailing.step] at h
        split_ifs at h with hready
        exact hready.2
      obtain ⟨_, _, _, _, heq, _⟩ := prints_step hframed hlegible h
      have hsome : upTo lineBreak s.held ≠ [] := upTo_ne_nil (List.ne_nil_of_mem hready)
      have hlength := List.length_pos_of_ne_nil hsome
      have hle := (upTo_begins lineBreak s.held).length_le
      unfold Tailing.work
      rw [hwaiting, heq]
      simp only [List.length_drop]
      omega
  | calls call => cases hown
  | stops => cases hown
  | ends => cases hown
  | fails reset => cases hown

/-- When neither can go on, everything delivered is printed. -/
theorem out_of_stuck (hs : s.Subscribed) (hframed : s.Framed) (hserving : s.serving = true)
    (hexit : s.exit = none)
    (hstuck : ∀ e, isOwn e = true → tailing.step s e = none) : s.out = s.queue.delivered := by
  have hwriting : s.writing = [] := by
    by_contra hsome
    have hstep := hstuck (.writes s.writing.length) rfl
    have hlength := List.length_pos_of_ne_nil hsome
    simp [tailing, Tailing.step, hserving, hlength] at hstep
  have hwire : s.wire = [] := by
    by_contra hsome
    have hstep := hstuck (.reads s.wire.length) rfl
    have hlength := List.length_pos_of_ne_nil hsome
    simp [tailing, Tailing.step, hexit, hlength] at hstep
  have hbreak : lineBreak ∉ s.held := by
    intro hmem
    have hstep := hstuck .prints rfl
    simp [tailing, Tailing.step, hexit, hmem] at hstep
  have hwaiting : s.queue.waiting = [] := by
    cases hcase : s.queue.waiting with
    | nil => rfl
    | cons event later =>
        have hstep := hstuck .takes rfl
        obtain ⟨hopen, _⟩ := hs.served hserving
        have hreader : s.events.hasReader s.reader = true := by
          have hopen' : (s.events.queues s.reader).closed = false := hopen
          simp [EventTx.hasReader, hs.opened, hopen']
        simp [tailing, Tailing.step, hserving, hwriting, hcase, EventTx.tryRecv, hreader] at hstep
  obtain ⟨rest, cut, hrest, hway, hcut⟩ := hframed.onTheWay hexit
  rw [hcut hserving, hwire, hwriting, List.append_nil, List.append_nil, List.append_nil] at hway
  have hnil : rest = [] := by
    cases rest with
    | nil => rfl
    | cons event later =>
        refine absurd ?_ hbreak
        rw [hway]
        simp [lineOf]
  have hall : s.handed = s.queue.delivered :=
    List.take_of_length_le (List.drop_eq_nil_iff.mp hwaiting)
  rw [← hall, hrest, hnil, List.append_nil]

/-! ### Following -/

omit [Codec] in
theorem subscribed_opened (hbefore : fanOut.run .empty before = some events) :
    (Tailing.opened events).Subscribed ∧ (Tailing.opened events).queue = .channel := by
  have hnumbered := (EventTx.part_run hbefore).1
  have hstep : fanOut.step events .subscribe = some events.subscribe := rfl
  have hpart := EventTx.part_step hnumbered hstep events.opened
  rw [Part.after, EventTx.part_opened, if_pos rfl] at hpart
  have hqueue : (Tailing.opened events).queue = .channel := congrArg Part.queue hpart
  refine ⟨⟨?_, hnumbered.step hstep, ?_, fun _ => ⟨?_, ?_⟩⟩, hqueue⟩
  · exact Nat.lt_succ_self events.opened
  · rw [hqueue]
    exact Nat.le_refl 0
  · rw [hqueue]
    rfl
  · show (events.subscribe.part events.opened).subscriber ≠ none
    rw [hpart]
    simp

/-- What holds at every point of a stream, as long as what is delivered is legible. -/
theorem stream_run (hbefore : fanOut.run .empty before = some events)
    (hrun : tailing.run (.opened events) es = some s) :
    s.Subscribed ∧ fanOut.run .empty (callsOf before s.reader es) = some s.events ∧
      ((∀ event ∈ s.queue.delivered, Legible event) → s.Framed ∧
        (s.exit ≠ none → s.serving = false ∨ .fails false ∈ es)) := by
  obtain ⟨hopened, hchannel⟩ := subscribed_opened hbefore
  refine System.invariant_of_schedule (C := fun _ _ => True)
    (I := fun es s => s.Subscribed ∧ fanOut.run .empty (callsOf before s.reader es) =
      some s.events ∧ ((∀ event ∈ s.queue.delivered, Legible event) → s.Framed ∧
        (s.exit ≠ none → s.serving = false ∨ .fails false ∈ es)))
    ⟨hopened, System.run_snoc hbefore rfl, fun _ => ?_⟩ ?_ hrun fun _ _ _ _ => trivial
  · refine ⟨⟨List.nil_prefix, fun _ => ⟨[], [], ?_, rfl, fun _ => rfl⟩, fun _ => rfl⟩,
      fun hexit => absurd rfl hexit⟩
    rw [Tailing.handed, hchannel]
    rfl
  · rintro es s e s' ⟨hs, hcalls, hframed⟩ _ hstep
    obtain ⟨hreader, hsame, hcall, hserved⟩ := events_step hstep
    obtain ⟨_, hgrows, _⟩ := handed_step hs hstep
    refine ⟨(queue_step hs hstep).2, ?_, fun hlegible => ?_⟩
    · rw [hreader, callsOf_append]
      cases hof : callOf s.reader e with
      | none => rw [Option.toList_none, List.append_nil, hsame hof, hcalls]
      | some call => exact System.run_snoc hcalls (hcall call hof)
    · have hbefore' : ∀ event ∈ s.queue.delivered, Legible event := fun event hmem =>
        hlegible event (hgrows.subset hmem)
      have hhanded : ∀ event ∈ s.handed, Legible event := fun event hmem =>
        hbefore' event (List.mem_of_mem_take hmem)
      obtain ⟨hway, hleft⟩ := hframed hbefore'
      have hstopped (hdone : s.serving = false) : s'.serving = false := by
        rw [← Bool.not_eq_true] at hdone ⊢
        exact fun hserving => hdone (hserved hserving).1
      refine ⟨framed_step hs hway hhanded hstep, fun hexit => ?_⟩
      rcases exit_step hs hway hhanded hstep hexit with hbefore | rfl | hdone
      · exact (hleft hbefore).imp hstopped (List.mem_append_left _)
      · exact Or.inr (by simp)
      · exact Or.inl hdone

theorem own_run {own : List Event} (hs : s.Subscribed) (hframed : s.Framed)
    (hlegible : ∀ event ∈ s.queue.delivered, Legible event)
    (hown : ∀ e ∈ own, isOwn e = true) (hrun : tailing.run s own = some s') :
    s'.Subscribed ∧ s'.Framed ∧ s'.queue.delivered = s.queue.delivered ∧
      s'.serving = s.serving ∧ s'.exit = s.exit ∧ own.length + s'.work ≤ s.work := by
  induction own generalizing s with
  | nil =>
      obtain rfl : s = s' := by simpa using hrun
      exact ⟨hs, hframed, rfl, rfl, rfl, by simp⟩
  | cons e own ih =>
      obtain ⟨mid, hstep, hrest⟩ := Option.bind_eq_some_iff.mp hrun
      obtain ⟨hfirst, hlater⟩ := List.forall_mem_cons.mp hown
      have hhanded : ∀ event ∈ s.handed, Legible event := fun event hmem =>
        hlegible event (List.mem_of_mem_take hmem)
      have hdelivered := (handed_step hs hstep).2.2 hfirst
      obtain ⟨hserving, hexit⟩ := own_step hs hframed hhanded hfirst hstep
      have hless := work_lt hs hframed hhanded hfirst hstep
      obtain ⟨hs', hframed', hdelivered', hserving', hexit', hwork⟩ :=
        ih (queue_step hs hstep).2 (framed_step hs hframed hhanded hstep)
          (by rw [hdelivered]; exact hlegible) hlater hrest
      refine ⟨hs', hframed', hdelivered'.trans hdelivered, hserving'.trans hserving,
        hexit'.trans hexit, ?_⟩
      rw [List.length_cons]
      omega

/-- **What `tail` prints.** As long as the task serves, what was published since the
command subscribed is what was delivered to its queue, in order and with reports of what
was missed. What is printed is a beginning of what was delivered, however the lines are
cut on their way; the command exits when a read fails or the daemon is gone, and not
before. Left to themselves, the task and the command come to an end after so many steps,
and then all of it is printed. -/
theorem tail_follows (hbefore : fanOut.run .empty before = some events)
    (hrun : tailing.run (.opened events) es = some s)
    (hlegible : ∀ event ∈ s.queue.delivered, Legible event) :
    (s.serving = true → ∃ gots pending dropped, Accounts droppedLimit offered gots pending
      (publishedSince s.reader (callsOf before s.reader es)) s.queue.delivered dropped) ∧
    s.out <+: s.queue.delivered ∧
    (s.exit ≠ none → s.serving = false ∨ .fails false ∈ es) ∧
    (s.serving = true → s.exit = none → ∀ own s', (∀ e ∈ own, isOwn e = true) →
      tailing.run s own = some s' → own.length ≤ s.work ∧
        ((∀ e, isOwn e = true → tailing.step s' e = none) → s'.out = s.queue.delivered)) := by
  obtain ⟨hs, hcalls, hframed⟩ := stream_run hbefore hrun
  obtain ⟨hframed, hleft⟩ := hframed hlegible
  refine ⟨?_, hframed.out.trans (List.take_prefix _ _), hleft, ?_⟩
  · intro hserving
    have hsound := Part.Sound.alone s.reader (callsOf before s.reader es)
    rw [← (EventTx.part_run hcalls).2 s.reader] at hsound
    obtain ⟨subscriber, hsubscriber⟩ := Option.ne_none_iff_exists'.mp (hs.served hserving).2
    obtain ⟨gots, pending, haccounts⟩ := hsound.accounts subscriber hsubscriber
    exact ⟨gots, pending, subscriber.dropped, haccounts⟩
  · intro hserving hexit own s' hown hown'
    obtain ⟨hs', hframed', hdelivered, hserving', hexit', hwork⟩ :=
      own_run hs hframed hlegible hown hown'
    refine ⟨by omega, fun hstuck => ?_⟩
    rw [← hdelivered]
    exact out_of_stuck hs' hframed' (hserving'.trans hserving) (hexit'.trans hexit) hstuck

end stream

/-! ### A stream to run the model with -/

/-- An event as an object of its fields. One that is absent is null, apart from the
upstream that carried the connection, which is left out. -/
def jsonOf (event : EventView) : List Char :=
  let fields := (Logging.decision event).filter fun field => field.1 ≠ "via" ∨ field.2.isSome
  Json.object [("resp", Json.quoted "event"),
    ("data", Json.object (fields.map fun field => (field.1, Json.scalar (field.2.getD .null))))]

/-- Writes any event, and reads one. -/
@[reducible] def Codec.json : Codec where
  write event := utf8Bytes (jsonOf event)
  read text :=
    if text.toList = jsonOf wentDirect then .ok (.event wentDirect)
    else .error "expected an event"

theorem trim_jsonOf (event : EventView) :
    trim (String.ofList (jsonOf event ++ ['\n'])) = String.ofList (jsonOf event) := by
  obtain ⟨fields, hfields⟩ : ∃ fields, jsonOf event = '{' :: fields ++ ['}'] := ⟨_, rfl⟩
  have hopen : isWhitespace '{' = false := by decide
  have hclose : isWhitespace '}' = false := by decide
  have hbreak : isWhitespace '\n' = true := by decide
  simp [trim, hfields, hopen, hclose, hbreak]

theorem legible_wentDirect : @Legible Codec.json wentDirect := by
  have hline : @lineOf Codec.json wentDirect = utf8Bytes (jsonOf wentDirect ++ ['\n']) := by
    rw [utf8Bytes_append]
    rfl
  have honly {text : String} {published : Published}
      (hread : @Codec.read Codec.json text = .ok published) : published = .event wentDirect := by
    have hcases : (if text.toList = jsonOf wentDirect then
        (.ok (.event wentDirect) : Except String Published)
        else .error "expected an event") = .ok published := hread
    split_ifs at hcases
    exact (Except.ok.inj hcases).symm
  refine @Legible.mk Codec.json wentDirect (by decide +kernel) ?_ ?_
  · have hsome : String.ofList (jsonOf wentDirect) ≠ "" := by
      simp [← String.toList_inj, jsonOf, Json.object]
    rw [hline]
    unfold told
    rw [utf8Text_utf8Bytes]
    have hread : @Codec.read Codec.json (String.ofList (jsonOf wentDirect)) =
        .ok (.event wentDirect) := if_pos String.toList_ofList
    simp only [trim_jsonOf, hsome, if_false, hread]
  · intro part _ published htold
    unfold told at htold
    cases htext : utf8Text part with
    | none => simp [htext] at htold
    | some text =>
        simp only [htext] at htold
        split_ifs at htold
        cases hread : @Codec.read Codec.json (trim (String.ofList text)) with
        | error failure => simp only [hread, reduceCtorEq] at htold
        | ok read =>
            simp only [hread, Told.published.injEq] at htold
            rw [← htold]
            exact honly hread

/-- A line of which some was written, and some of that read. -/
def inPieces : List Event :=
  [.calls (.publish wentDirect), .takes, .writes 10, .reads 4]

/-- An event that is cut on its way is printed. -/
theorem tail_follows_inPieces : ∃ s, (@tailing Codec.json).run (.opened .empty) inPieces = some s ∧
    ∀ own s', (∀ e ∈ own, isOwn e = true) → (@tailing Codec.json).run s own = some s' →
      (∀ e, isOwn e = true → (@tailing Codec.json).step s' e = none) → s'.out = [wentDirect] := by
  have hrun : ((@tailing Codec.json).run (.opened .empty) inPieces).map
      (fun s => (s.serving, s.exit, s.queue.delivered)) = some (true, none, [wentDirect]) := by
    decide +kernel
  obtain ⟨s, hs, hend⟩ := Option.map_eq_some_iff.mp hrun
  simp only [Prod.mk.injEq] at hend
  obtain ⟨hserving, hexit, hdelivered⟩ := hend
  have hlegible : ∀ event ∈ s.queue.delivered, @Legible Codec.json event := by
    rw [hdelivered]
    intro event hmem
    obtain rfl := List.mem_singleton.mp hmem
    exact legible_wentDirect
  refine ⟨s, hs, fun own s' hown hown' hstuck => ?_⟩
  obtain ⟨_, _, _, hprints⟩ := @tail_follows Codec.json s [] .empty inPieces rfl hs hlegible
  rw [(hprints hserving hexit own s' hown hown').2 hstuck, hdelivered]

end Nhop.Cli.Tail
