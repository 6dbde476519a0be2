import Nhop.Foundation.Accounts
import Nhop.Foundation.Runs
import Nhop.Ipc.Command

/-!
The subscribers of the decision stream, each on a queue of its own.

Publishing never waits: a subscriber whose queue is full misses the event, and the
next event that fits into its queue says how many it missed. A subscriber that hung
up is found out at the next publish. What each subscriber is told adds up to what
was published, whatever it and the others do (`eventTx_accounted`).
-/

namespace Nhop.Proxy

open Foundation Ipc

/-- Number of events one subscriber may fall behind by before its events are dropped. -/
def subscriberCapacity : ℕ := 256

/-- The greatest number of missed events that is counted. -/
def droppedLimit : ℕ := 2 ^ 64 - 1

/-! ### Queues -/

/-- A bounded queue with one reader: what was ever put into it, how much of that was
taken out, and whether the reader is gone. -/
structure EventQueue where
  delivered : List EventView
  taken : ℕ
  closed : Bool
  deriving DecidableEq, Repr

inductive TrySendError
  | full | closed
  deriving DecidableEq, Repr

namespace EventQueue

def channel : EventQueue := ⟨[], 0, false⟩

/-- What waits to be read. -/
def waiting (queue : EventQueue) : List EventView := queue.delivered.drop queue.taken

def trySend (queue : EventQueue) (event : EventView) : Except TrySendError EventQueue :=
  if queue.closed then .error .closed
  else if subscriberCapacity ≤ queue.waiting.length then .error .full
  else .ok { queue with delivered := queue.delivered ++ [event] }

/-- Takes out the event that waits the longest, if one does. -/
def tryRecv (queue : EventQueue) : EventQueue :=
  if queue.waiting = [] then queue else { queue with taken := queue.taken + 1 }

/-- The reader drops the queue. -/
def hangUp (queue : EventQueue) : EventQueue := { queue with closed := true }

end EventQueue

/-! ### Subscribers -/

/-- One reader of the decision stream: the queue its events go to, and how many it
has missed. -/
structure Subscriber where
  events : ℕ
  dropped : ℕ
  deriving DecidableEq, Repr

/-- Whether a subscriber is still listening once an event has been offered to it. -/
inductive Delivery
  | kept | gone
  deriving DecidableEq, Repr

/-- The event with the number of missed ones in its failure. -/
def reporting (event : EventView) (dropped : ℕ) : EventView :=
  { event with
    error := some (match event.error with
      | some error => "dropped " ++ toString dropped ++ ": " ++ error
      | none => "dropped " ++ toString dropped) }

/-- The event that is offered to a subscriber that missed some. -/
def offered (dropped : ℕ) (event : EventView) : EventView :=
  match dropped with
  | 0 => event
  | dropped => reporting event dropped

/-- An event is offered to a subscriber, whose queue it is put into. -/
def Subscriber.offer (subscriber : Subscriber) (queue : EventQueue) (event : EventView) :
    Delivery × Subscriber × EventQueue :=
  match queue.trySend (offered subscriber.dropped event) with
  | .ok queue => (.kept, { subscriber with dropped := 0 }, queue)
  | .error .full =>
      (.kept, { subscriber with dropped := min (subscriber.dropped + 1) droppedLimit }, queue)
  | .error .closed => (.gone, subscriber, queue)

/-- Offers an event to one subscriber after the other and retains those that listen. -/
def retain (event : EventView) :
    List Subscriber → (ℕ → EventQueue) → List Subscriber × (ℕ → EventQueue)
  | [], queues => ([], queues)
  | subscriber :: subscribers, queues =>
      let (delivery, left, queue) := subscriber.offer (queues subscriber.events) event
      let (subscribers, queues) :=
        retain event subscribers (Function.update queues subscriber.events queue)
      match delivery with
      | .kept => (left :: subscribers, queues)
      | .gone => (subscribers, queues)

/-- The fan-out of the decision events: its subscribers, and the queues that were
ever subscribed for, in that order. -/
structure EventTx where
  subscribers : List Subscriber
  queues : ℕ → EventQueue
  opened : ℕ

namespace EventTx

def empty : EventTx := ⟨[], fun _ => .channel, 0⟩

def subscribe (s : EventTx) : EventTx where
  subscribers := s.subscribers ++ [⟨s.opened, 0⟩]
  queues := Function.update s.queues s.opened .channel
  opened := s.opened + 1

def publish (s : EventTx) (event : EventView) : EventTx :=
  { s with
    subscribers := (retain event s.subscribers s.queues).1
    queues := (retain event s.subscribers s.queues).2 }

/-- Whether the queue is open, so that its reader can use it. -/
def hasReader (s : EventTx) (reader : ℕ) : Bool :=
  decide (reader < s.opened) && !(s.queues reader).closed

def tryRecv (s : EventTx) (reader : ℕ) : Option EventTx :=
  if s.hasReader reader then
    some { s with queues := Function.update s.queues reader (s.queues reader).tryRecv }
  else none

def hangUp (s : EventTx) (reader : ℕ) : Option EventTx :=
  if s.hasReader reader then
    some { s with queues := Function.update s.queues reader (s.queues reader).hangUp }
  else none

/-- Whether the subscriber is retained. -/
def Holds (s : EventTx) (reader : ℕ) : Prop :=
  ∃ subscriber ∈ s.subscribers, subscriber.events = reader

end EventTx

/-- What is done to the fan-out, and by which reader. -/
inductive FanOutCall
  | subscribe
  | publish (event : EventView)
  | tryRecv (reader : ℕ)
  | hangUp (reader : ℕ)
  deriving DecidableEq, Repr

namespace FanOutCall

def step (s : EventTx) : FanOutCall → Option EventTx
  | .subscribe => some s.subscribe
  | .publish event => some (s.publish event)
  | .tryRecv reader => s.tryRecv reader
  | .hangUp reader => s.hangUp reader

/-- Whether the call is one by the reader, or concerns every reader. -/
def concerns (reader : ℕ) : FanOutCall → Bool
  | .subscribe => true
  | .publish _ => true
  | .tryRecv other => decide (other = reader)
  | .hangUp other => decide (other = reader)

def event? : FanOutCall → Option EventView
  | .publish event => some event
  | _ => none

end FanOutCall

/-- The fan-out under every order of calls. -/
def fanOut : System EventTx FanOutCall := ⟨FanOutCall.step⟩

/-- The events that were published since the subscription with the given number. -/
def publishedSince : ℕ → List FanOutCall → List EventView
  | _, [] => []
  | 0, .subscribe :: calls => calls.filterMap FanOutCall.event?
  | reader + 1, .subscribe :: calls => publishedSince reader calls
  | reader, _ :: calls => publishedSince reader calls

/-! ### Each subscriber by itself -/

section offer

variable {subscriber : Subscriber} {queue : EventQueue} {event : EventView}

theorem offer_closed (h : queue.closed = true) :
    subscriber.offer queue event = (.gone, subscriber, queue) := by
  simp [Subscriber.offer, EventQueue.trySend, h]

theorem offer_full (hopen : queue.closed = false)
    (hfull : subscriberCapacity ≤ queue.waiting.length) :
    subscriber.offer queue event =
      (.kept, { subscriber with dropped := min (subscriber.dropped + 1) droppedLimit },
        queue) := by
  simp [Subscriber.offer, EventQueue.trySend, hopen, hfull]

theorem offer_fits (hopen : queue.closed = false)
    (hfits : ¬subscriberCapacity ≤ queue.waiting.length) :
    subscriber.offer queue event =
      (.kept, { subscriber with dropped := 0 },
        { queue with delivered := queue.delivered ++ [offered subscriber.dropped event] }) := by
  simp [Subscriber.offer, EventQueue.trySend, hopen, hfits]

/-- What an offer can come to. -/
theorem offer_cases (subscriber : Subscriber) (queue : EventQueue) (event : EventView) :
    queue.closed = true ∧ subscriber.offer queue event = (.gone, subscriber, queue) ∨
      queue.closed = false ∧ subscriber.offer queue event =
        (.kept, { subscriber with dropped := min (subscriber.dropped + 1) droppedLimit },
          queue) ∨
      queue.closed = false ∧ subscriber.offer queue event =
        (.kept, { subscriber with dropped := 0 },
          { queue with delivered := queue.delivered ++ [offered subscriber.dropped event] }) := by
  rcases Bool.eq_false_or_eq_true queue.closed with hclosed | hopen
  · exact .inl ⟨hclosed, offer_closed hclosed⟩
  · by_cases hfull : subscriberCapacity ≤ queue.waiting.length
    · exact .inr (.inl ⟨hopen, offer_full hopen hfull⟩)
    · exact .inr (.inr ⟨hopen, offer_fits hopen hfull⟩)

/-- The subscriber an offer leaves, if it is retained. -/
def Subscriber.retained (subscriber : Subscriber) (queue : EventQueue) (event : EventView) :
    Option Subscriber :=
  match (subscriber.offer queue event).1 with
  | .kept => some (subscriber.offer queue event).2.1
  | .gone => none

@[simp] theorem offer_events (subscriber : Subscriber) (queue : EventQueue) (event : EventView) :
    (subscriber.offer queue event).2.1.events = subscriber.events := by
  rcases offer_cases subscriber queue event with ⟨_, h⟩ | ⟨_, h⟩ | ⟨_, h⟩ <;> rw [h]

theorem retained_events {left : Subscriber} (h : subscriber.retained queue event = some left) :
    left.events = subscriber.events := by
  unfold Subscriber.retained at h
  split at h
  · cases h
    exact offer_events ..
  · cases h

end offer

section retain

variable {event : EventView} {subscribers : List Subscriber} {queues : ℕ → EventQueue}
  {reader : ℕ}

theorem retain_cons (subscriber : Subscriber) :
    retain event (subscriber :: subscribers) queues =
      ((subscriber.retained (queues subscriber.events) event).toList ++
          (retain event subscribers (Function.update queues subscriber.events
            (subscriber.offer (queues subscriber.events) event).2.2)).1,
        (retain event subscribers (Function.update queues subscriber.events
          (subscriber.offer (queues subscriber.events) event).2.2)).2) := by
  simp only [retain, Subscriber.retained]
  cases (subscriber.offer (queues subscriber.events) event).1 <;> rfl

theorem retain_sublist :
    ((retain event subscribers queues).1.map Subscriber.events).Sublist
      (subscribers.map Subscriber.events) := by
  induction subscribers generalizing queues with
  | nil => exact List.Sublist.slnil
  | cons subscriber subscribers ih =>
      rw [retain_cons, List.map_append, List.map_cons, ← List.singleton_append]
      refine List.Sublist.append ?_ ih
      cases hleft : subscriber.retained (queues subscriber.events) event with
      | none => exact List.nil_sublist _
      | some left =>
          rw [Option.toList_some, List.map_singleton, retained_events hleft]

/-- The subscriber with the given queue. -/
def findSubscriber (subscribers : List Subscriber) (reader : ℕ) : Option Subscriber :=
  subscribers.find? fun subscriber => subscriber.events = reader

theorem findSubscriber_eq_none :
    findSubscriber subscribers reader = none ↔ reader ∉ subscribers.map Subscriber.events := by
  simp [findSubscriber]

theorem findSubscriber_append (more : List Subscriber) :
    findSubscriber (subscribers ++ more) reader =
      (findSubscriber subscribers reader).or (findSubscriber more reader) :=
  List.find?_append

theorem findSubscriber_events {subscriber : Subscriber}
    (h : findSubscriber subscribers reader = some subscriber) : subscriber.events = reader := by
  simpa using List.find?_some h

theorem findSubscriber_cons_self (subscriber : Subscriber) :
    findSubscriber (subscriber :: subscribers) subscriber.events = some subscriber := by
  simp [findSubscriber]

theorem findSubscriber_cons_of_ne {subscriber : Subscriber} (h : subscriber.events ≠ reader) :
    findSubscriber (subscriber :: subscribers) reader = findSubscriber subscribers reader := by
  simp [findSubscriber, h]

theorem findSubscriber_toList_of_ne {left : Option Subscriber}
    (h : ∀ subscriber, left = some subscriber → subscriber.events ≠ reader) :
    findSubscriber left.toList reader = none := by
  cases left with
  | none => rfl
  | some subscriber => simpa [findSubscriber] using h subscriber rfl

/-- A queue that no subscriber sends to is left alone. -/
theorem retain_queues_of_notMem (hnew : reader ∉ subscribers.map Subscriber.events) :
    (retain event subscribers queues).2 reader = queues reader := by
  induction subscribers generalizing queues with
  | nil => rfl
  | cons subscriber subscribers ih =>
      rw [List.map_cons, List.mem_cons, not_or] at hnew
      rw [retain_cons, ih hnew.2, Function.update_of_ne hnew.1]

/-- **Offers do not meet**: each subscriber is offered the event as if it were the
only one. -/
theorem retain_spec (event : EventView) (queues : ℕ → EventQueue)
    (hnodup : (subscribers.map Subscriber.events).Nodup) (reader : ℕ) :
    findSubscriber (retain event subscribers queues).1 reader =
        (findSubscriber subscribers reader).bind
          (fun subscriber => subscriber.retained (queues reader) event) ∧
      (retain event subscribers queues).2 reader =
        match findSubscriber subscribers reader with
        | none => queues reader
        | some subscriber => (subscriber.offer (queues reader) event).2.2 := by
  induction subscribers generalizing queues with
  | nil => exact ⟨rfl, rfl⟩
  | cons subscriber subscribers ih =>
      rw [List.map_cons, List.nodup_cons] at hnodup
      obtain ⟨hnew, hrest⟩ := hnodup
      rw [retain_cons]
      by_cases hsame : subscriber.events = reader
      · subst hsame
        rw [findSubscriber_cons_self, Option.bind_some, findSubscriber_append]
        refine ⟨?_, ?_⟩
        · have hothers : findSubscriber (retain event subscribers (Function.update queues
              subscriber.events (subscriber.offer (queues subscriber.events) event).2.2)).1
              subscriber.events = none :=
            findSubscriber_eq_none.mpr fun hmem => hnew (retain_sublist.subset hmem)
          rw [hothers, Option.or_none]
          cases hleft : subscriber.retained (queues subscriber.events) event with
          | none => rfl
          | some left =>
              rw [← retained_events hleft]
              exact findSubscriber_cons_self left
        -- no other subscriber has this queue, so it stays as the offer left it
        · rw [retain_queues_of_notMem hnew, Function.update_self]
      · have hqueue : Function.update queues subscriber.events
            (subscriber.offer (queues subscriber.events) event).2.2 reader = queues reader :=
          Function.update_of_ne (Ne.symm hsame) ..
        have hleft : findSubscriber
            (subscriber.retained (queues subscriber.events) event).toList reader = none :=
          findSubscriber_toList_of_ne fun left h => by rw [retained_events h]; exact hsame
        obtain ⟨hfind, hqueues⟩ := ih (Function.update queues subscriber.events
          (subscriber.offer (queues subscriber.events) event).2.2) hrest
        rw [hqueue] at hfind hqueues
        rw [findSubscriber_cons_of_ne hsame, findSubscriber_append, hleft, Option.none_or]
        exact ⟨hfind, hqueues⟩

end retain

/-! ### One subscription -/

/-- What there is to one subscription: how many were made, its queue, and its
subscriber while it is retained. -/
structure Part where
  opened : ℕ
  queue : EventQueue
  subscriber : Option Subscriber
  deriving DecidableEq

def EventTx.part (s : EventTx) (reader : ℕ) : Part :=
  ⟨s.opened, s.queues reader, findSubscriber s.subscribers reader⟩

namespace Part

def begun : Part := ⟨0, .channel, none⟩

def publish (part : Part) (event : EventView) : Part :=
  match part.subscriber with
  | none => part
  | some subscriber =>
      { part with
        queue := (subscriber.offer part.queue event).2.2
        subscriber := subscriber.retained part.queue event }

/-- What a call does to the subscription with the given number. -/
def after (reader : ℕ) (part : Part) : FanOutCall → Part
  | .subscribe =>
      if part.opened = reader then ⟨part.opened + 1, .channel, some ⟨reader, 0⟩⟩
      else { part with opened := part.opened + 1 }
  | .publish event => part.publish event
  | .tryRecv other => if other = reader then { part with queue := part.queue.tryRecv } else part
  | .hangUp other => if other = reader then { part with queue := part.queue.hangUp } else part

/-- The subscription after a sequence of calls. -/
def alone (reader : ℕ) (calls : List FanOutCall) : Part := calls.foldl (after reader) begun

theorem after_of_not_concerns {reader : ℕ} {call : FanOutCall} (part : Part)
    (h : ¬call.concerns reader = true) : part.after reader call = part := by
  cases call with
  | subscribe => exact absurd rfl h
  | publish event => exact absurd rfl h
  | tryRecv other =>
      have hother : ¬other = reader := by simpa [FanOutCall.concerns] using h
      exact if_neg hother
  | hangUp other =>
      have hother : ¬other = reader := by simpa [FanOutCall.concerns] using h
      exact if_neg hother

/-- What the other readers do is nothing to a subscription. -/
theorem alone_filter (reader : ℕ) (calls : List FanOutCall) :
    alone reader (calls.filter (FanOutCall.concerns reader)) = alone reader calls := by
  rw [alone, alone, List.foldl_filter]
  congr 1
  funext part call
  split_ifs with h
  · rfl
  · rw [after_of_not_concerns part h]

theorem alone_append (reader : ℕ) (calls : List FanOutCall) (call : FanOutCall) :
    alone reader (calls ++ [call]) = (alone reader calls).after reader call := by
  rw [alone, List.foldl_append]
  rfl

end Part

/-! ### The fan-out, subscription by subscription -/

namespace EventTx

/-- The subscribers send to queues of their own, which were opened. -/
structure Numbered (s : EventTx) : Prop where
  nodup : (s.subscribers.map Subscriber.events).Nodup
  opened : ∀ reader ∈ s.subscribers.map Subscriber.events, reader < s.opened

variable {s s' : EventTx} {call : FanOutCall} {reader : ℕ}

@[simp] theorem part_opened (s : EventTx) (reader : ℕ) : (s.part reader).opened = s.opened := rfl

theorem tryRecv_eq_some (h : s.tryRecv reader = some s') :
    s' = { s with queues := Function.update s.queues reader (s.queues reader).tryRecv } := by
  unfold tryRecv at h
  split_ifs at h
  cases h
  rfl

theorem hangUp_eq_some (h : s.hangUp reader = some s') :
    s' = { s with queues := Function.update s.queues reader (s.queues reader).hangUp } := by
  unfold hangUp at h
  split_ifs at h
  cases h
  rfl

theorem Numbered.empty : Numbered .empty := ⟨List.nodup_nil, by simp [EventTx.empty]⟩

theorem Numbered.step (hs : Numbered s) (hstep : fanOut.step s call = some s') :
    Numbered s' := by
  obtain ⟨hnodup, hopened⟩ := hs
  cases call with
  | subscribe =>
      cases hstep
      have hnew : s.opened ∉ s.subscribers.map Subscriber.events := fun hmem =>
        Nat.lt_irrefl _ (hopened _ hmem)
      refine ⟨?_, fun other hmem => ?_⟩
      · show ((s.subscribers ++ [Subscriber.mk s.opened 0]).map Subscriber.events).Nodup
        rw [List.map_append, List.nodup_append']
        refine ⟨hnodup, List.nodup_singleton _, ?_⟩
        rw [List.map_singleton, List.disjoint_singleton]
        exact hnew
      · have hmem' : other ∈ s.subscribers.map Subscriber.events ∨ other = s.opened := by
          simpa [EventTx.subscribe] using hmem
        show other < s.opened + 1
        rcases hmem' with hold | rfl
        · exact Nat.lt_succ_of_lt (hopened other hold)
        · exact Nat.lt_succ_self _
  | publish event =>
      cases hstep
      exact ⟨hnodup.sublist retain_sublist,
        fun other hmem => hopened other (retain_sublist.subset hmem)⟩
  | tryRecv other =>
      rw [tryRecv_eq_some hstep]
      exact ⟨hnodup, hopened⟩
  | hangUp other =>
      rw [hangUp_eq_some hstep]
      exact ⟨hnodup, hopened⟩

theorem part_update {queue : EventQueue} (other : ℕ) :
    ({ s with queues := Function.update s.queues other queue } : EventTx).part reader =
      if other = reader then { s.part reader with queue := queue } else s.part reader := by
  split_ifs with h
  · subst h
    simp [part]
  · have hqueue : Function.update s.queues other queue reader = s.queues reader :=
      Function.update_of_ne (Ne.symm h) ..
    simp [part, hqueue]

/-- **A subscription is by itself**: a call does to it what it does where there is no
other one. -/
theorem part_step (hs : Numbered s) (hstep : fanOut.step s call = some s') (reader : ℕ) :
    s'.part reader = (s.part reader).after reader call := by
  cases call with
  | subscribe =>
      cases hstep
      show Part.mk (s.opened + 1) (Function.update s.queues s.opened .channel reader)
        (findSubscriber (s.subscribers ++ [⟨s.opened, 0⟩]) reader) = _
      rw [findSubscriber_append, Part.after]
      by_cases hsame : s.opened = reader
      · subst hsame
        have hnone : findSubscriber s.subscribers s.opened = none :=
          findSubscriber_eq_none.mpr fun hmem => Nat.lt_irrefl _ (hs.opened _ hmem)
        rw [hnone, Option.none_or, Function.update_self, part_opened, if_pos rfl]
        simp [findSubscriber]
      · rw [Function.update_of_ne (Ne.symm hsame), part_opened, if_neg hsame,
          findSubscriber_cons_of_ne hsame]
        simp [part, findSubscriber]
  | publish event =>
      cases hstep
      obtain ⟨hfind, hqueue⟩ := retain_spec event s.queues hs.nodup reader
      show Part.mk s.opened ((retain event s.subscribers s.queues).2 reader)
        (findSubscriber (retain event s.subscribers s.queues).1 reader) =
          (s.part reader).publish event
      rw [hfind, hqueue, Part.publish, part]
      cases findSubscriber s.subscribers reader <;> rfl
  | tryRecv other =>
      rw [tryRecv_eq_some hstep, part_update, Part.after]
      split_ifs with h
      · rw [h]
        rfl
      · rfl
  | hangUp other =>
      rw [hangUp_eq_some hstep, part_update, Part.after]
      split_ifs with h
      · rw [h]
        rfl
      · rfl

theorem part_run {calls : List FanOutCall} (hrun : fanOut.run .empty calls = some s) :
    Numbered s ∧ ∀ reader, s.part reader = Part.alone reader calls := by
  refine System.invariant_of_schedule
    (I := fun calls s => Numbered s ∧ ∀ reader, s.part reader = Part.alone reader calls)
    (C := fun _ _ => True) ⟨.empty, fun _ => rfl⟩ ?_ hrun fun _ _ _ _ => trivial
  intro calls s call s' hs _ hstep
  refine ⟨hs.1.step hstep, fun reader => ?_⟩
  rw [part_step hs.1 hstep, hs.2, Part.alone_append]

theorem Numbered.part_of_mem (hs : Numbered s) {subscriber : Subscriber}
    (hmem : subscriber ∈ s.subscribers) :
    (s.part subscriber.events).subscriber = some subscriber := by
  have hown : (s.part subscriber.events).subscriber ≠ none := fun hnone =>
    findSubscriber_eq_none.mp hnone (List.mem_map_of_mem hmem)
  obtain ⟨found, hfound⟩ := Option.ne_none_iff_exists'.mp hown
  have hsame : found = subscriber := List.inj_on_of_nodup_map hs.nodup
    (List.mem_of_find?_eq_some hfound) hmem (findSubscriber_events hfound)
  rw [hfound, hsame]

theorem holds_iff : s.Holds reader ↔ (s.part reader).subscriber ≠ none := by
  rw [Ne, part, findSubscriber_eq_none, not_not, List.mem_map]
  rfl

end EventTx

/-! ### What was published since -/

section publishedSince

variable {reader : ℕ} {calls : List FanOutCall}

/-- How many subscriptions a sequence of calls makes. -/
def subscriptions (calls : List FanOutCall) : ℕ := calls.count .subscribe

theorem subscriptions_append (calls : List FanOutCall) (call : FanOutCall) :
    subscriptions (calls ++ [call]) =
      subscriptions calls + if call = .subscribe then 1 else 0 := by
  by_cases h : call = .subscribe <;> simp [subscriptions, h]

theorem publishedSince_cons_of_ne {call : FanOutCall} (h : call ≠ .subscribe) :
    publishedSince reader (call :: calls) = publishedSince reader calls := by
  cases call with
  | subscribe => exact absurd rfl h
  | publish event => cases reader <;> rfl
  | tryRecv other => cases reader <;> rfl
  | hangUp other => cases reader <;> rfl

theorem publishedSince_append (h : reader < subscriptions calls) (call : FanOutCall) :
    publishedSince reader (calls ++ [call]) =
      publishedSince reader calls ++ call.event?.toList := by
  induction calls generalizing reader with
  | nil => simp [subscriptions] at h
  | cons first calls ih =>
      by_cases hfirst : first = .subscribe
      · subst hfirst
        cases reader with
        | zero =>
            show (calls ++ [call]).filterMap FanOutCall.event? =
              calls.filterMap FanOutCall.event? ++ call.event?.toList
            rw [List.filterMap_append]
            cases hevent : call.event? <;> simp [hevent]
        | succ reader =>
            refine ih ?_
            have hcount : subscriptions (.subscribe :: calls) = subscriptions calls + 1 := by
              simp [subscriptions]
            omega
      · rw [List.cons_append, publishedSince_cons_of_ne hfirst, publishedSince_cons_of_ne hfirst]
        refine ih ?_
        have hcount : subscriptions (first :: calls) = subscriptions calls := by
          simp [subscriptions, hfirst]
        omega

theorem publishedSince_subscribe (h : subscriptions calls = reader) :
    publishedSince reader (calls ++ [.subscribe]) = [] := by
  induction calls generalizing reader with
  | nil =>
      subst h
      rfl
  | cons first calls ih =>
      by_cases hfirst : first = .subscribe
      · subst hfirst
        have hcount : subscriptions (.subscribe :: calls) = subscriptions calls + 1 := by
          simp [subscriptions]
        rw [hcount] at h
        subst h
        exact ih rfl
      · rw [List.cons_append, publishedSince_cons_of_ne hfirst]
        refine ih ?_
        rw [← h]
        simp [subscriptions, hfirst]

end publishedSince

/-! ### Conservation -/

/-- What holds of a subscription after a sequence of calls. -/
structure Part.Sound (reader : ℕ) (calls : List FanOutCall) (part : Part) : Prop where
  opened : part.opened = subscriptions calls
  subscribed : ∀ subscriber, part.subscriber = some subscriber → reader < subscriptions calls
  closed : part.queue.closed = true → .hangUp reader ∈ calls
  accounts : ∀ subscriber, part.subscriber = some subscriber → ∃ gots pending,
    Accounts droppedLimit offered gots pending (publishedSince reader calls)
      part.queue.delivered subscriber.dropped

namespace Part.Sound

variable {reader : ℕ} {calls : List FanOutCall} {part : Part}

theorem begun (reader : ℕ) : Sound reader [] .begun where
  opened := rfl
  subscribed := by simp [Part.begun]
  closed := by simp [Part.begun, EventQueue.channel]
  accounts := by simp [Part.begun]

/-- What reads or hangs up leaves the accounts as they are. -/
theorem used (h : Sound reader calls part) {call : FanOutCall} {queue : EventQueue}
    (hcall : call ≠ .subscribe) (hsilent : call.event? = none)
    (hdelivered : queue.delivered = part.queue.delivered)
    (hclosed : queue.closed = true → part.queue.closed = true ∨ call = .hangUp reader) :
    Sound reader (calls ++ [call]) { part with queue := queue } where
  opened := by
    rw [subscriptions_append, if_neg hcall]
    exact h.opened
  subscribed := by
    intro subscriber hsome
    rw [subscriptions_append, if_neg hcall]
    exact h.subscribed subscriber hsome
  closed := by
    intro hnow
    rcases hclosed hnow with hbefore | rfl
    · exact List.mem_append_left _ (h.closed hbefore)
    · simp
  accounts := by
    intro subscriber hsome
    obtain ⟨gots, pending, haccounts⟩ := h.accounts subscriber hsome
    refine ⟨gots, pending, ?_⟩
    rw [publishedSince_append (h.subscribed subscriber hsome), hsilent]
    simpa [hdelivered] using haccounts

theorem subscribe (h : Sound reader calls part) :
    Sound reader (calls ++ [.subscribe]) (part.after reader .subscribe) := by
  have hcount : subscriptions (calls ++ [.subscribe]) = subscriptions calls + 1 := by
    rw [subscriptions_append, if_pos rfl]
  rw [Part.after]
  split_ifs with hown
  · rw [h.opened] at hown
    refine ⟨?_, ?_, ?_, ?_⟩
    · rw [hcount, ← h.opened]
    · intro subscriber _
      omega
    · intro hclosed
      cases hclosed
    · rintro subscriber ⟨⟩
      rw [publishedSince_subscribe hown]
      exact ⟨[], [], .nil⟩
  · refine ⟨?_, ?_, ?_, ?_⟩
    · rw [hcount, ← h.opened]
    · intro subscriber hsome
      have hbefore := h.subscribed subscriber hsome
      omega
    · intro hclosed
      exact List.mem_append_left _ (h.closed hclosed)
    · intro subscriber hsome
      rw [publishedSince_append (h.subscribed subscriber hsome)]
      simpa [FanOutCall.event?] using h.accounts subscriber hsome

theorem publish (h : Sound reader calls part) (event : EventView) :
    Sound reader (calls ++ [.publish event]) (part.publish event) := by
  have hcount : subscriptions (calls ++ [.publish event]) = subscriptions calls := by
    rw [subscriptions_append, if_neg (by simp), Nat.add_zero]
  obtain ⟨opened, queue, subscriber⟩ := part
  cases subscriber with
  | none => exact ⟨h.opened.trans hcount.symm, by simp [Part.publish],
      fun hclosed => List.mem_append_left _ (h.closed hclosed), by simp [Part.publish]⟩
  | some subscriber =>
      have hbegun : reader < subscriptions calls := h.subscribed subscriber rfl
      obtain ⟨gots, pending, haccounts⟩ := h.accounts subscriber rfl
      have hsince : publishedSince reader (calls ++ [.publish event]) =
          publishedSince reader calls ++ [event] := publishedSince_append hbegun _
      have hopened : opened = subscriptions (calls ++ [.publish event]) :=
        h.opened.trans hcount.symm
      have hmem : queue.closed = true → .hangUp reader ∈ calls ++ [.publish event] :=
        fun hclosed => List.mem_append_left _ (h.closed hclosed)
      unfold Part.publish Subscriber.retained
      rcases offer_cases subscriber queue event with ⟨hq, hoffer⟩ | ⟨hq, hoffer⟩ | ⟨hq, hoffer⟩
      · simp only [hoffer]
        exact ⟨hopened, by simp, hmem, by simp⟩
      · simp only [hoffer]
        refine ⟨hopened, fun _ _ => hcount ▸ hbegun, hmem, ?_⟩
        rintro left ⟨⟩
        rw [hsince]
        exact ⟨gots, pending ++ [event], haccounts.miss event⟩
      · simp only [hoffer]
        refine ⟨hopened, fun _ _ => hcount ▸ hbegun, hmem, ?_⟩
        rintro left ⟨⟩
        rw [hsince]
        exact ⟨gots ++ [⟨pending, event⟩], [], haccounts.reach event⟩

theorem after (h : Sound reader calls part) (call : FanOutCall) :
    Sound reader (calls ++ [call]) (part.after reader call) := by
  cases call with
  | subscribe => exact h.subscribe
  | publish event => exact h.publish event
  | tryRecv other =>
      have hkept : part.queue.tryRecv.delivered = part.queue.delivered ∧
          part.queue.tryRecv.closed = part.queue.closed := by
        unfold EventQueue.tryRecv
        split_ifs <;> exact ⟨rfl, rfl⟩
      rw [Part.after]
      split_ifs
      · exact h.used (by simp) rfl hkept.1 fun hclosed => .inl (hkept.2 ▸ hclosed)
      · exact h.used (by simp) rfl rfl .inl
  | hangUp other =>
      rw [Part.after]
      split_ifs with hown
      · exact h.used (by simp) rfl rfl fun _ => .inr (by rw [hown])
      · exact h.used (by simp) rfl rfl .inl

/-- **A subscription is sound after every sequence of calls.** -/
theorem alone (reader : ℕ) (calls : List FanOutCall) :
    Sound reader calls (Part.alone reader calls) := by
  induction calls using List.reverseRecOn with
  | nil => exact begun reader
  | append_singleton calls call ih =>
      rw [Part.alone_append]
      exact ih.after call

end Part.Sound

/-- Only a publish removes a subscriber, and only one whose reader is gone. -/
theorem Part.removed {part : Part} {reader : ℕ} {call : FanOutCall}
    (hheld : part.subscriber ≠ none) (hgone : (part.after reader call).subscriber = none) :
    (∃ event, call = .publish event) ∧ part.queue.closed = true := by
  cases call with
  | subscribe =>
      rw [Part.after] at hgone
      split_ifs at hgone
      exact absurd hgone hheld
  | publish event =>
      refine ⟨⟨event, rfl⟩, ?_⟩
      obtain ⟨opened, queue, subscriber⟩ := part
      cases subscriber with
      | none => exact absurd rfl hheld
      | some subscriber =>
          simp only [Part.after, Part.publish, Subscriber.retained] at hgone
          -- a full queue keeps its subscriber, who misses the event
          rcases offer_cases subscriber queue event with ⟨hq, hoffer⟩ | ⟨_, hoffer⟩ | ⟨_, hoffer⟩
          · exact hq
          · rw [hoffer] at hgone
            cases hgone
          · rw [hoffer] at hgone
            cases hgone
  | tryRecv other =>
      rw [Part.after] at hgone
      split_ifs at hgone
      all_goals exact absurd hgone hheld
  | hangUp other =>
      rw [Part.after] at hgone
      split_ifs at hgone
      all_goals exact absurd hgone hheld

/-! ### A subscriber that never reads -/

section filled

variable {event : EventView} {n m dropped : ℕ}

/-- One subscriber, who reads nothing: the events in its queue and how many it missed. -/
def filled (event : EventView) (n dropped : ℕ) : EventTx where
  subscribers := [⟨0, dropped⟩]
  queues := Function.update (fun _ => .channel) 0 ⟨List.replicate n event, 0, false⟩
  opened := 1

theorem filled_publish_of_lt (h : n < subscriberCapacity) :
    (filled event n 0).publish event = filled event (n + 1) 0 := by
  have hoffer : (Subscriber.mk 0 0).offer ⟨List.replicate n event, 0, false⟩ event =
      (.kept, ⟨0, 0⟩, ⟨List.replicate (n + 1) event, 0, false⟩) := by
    rw [offer_fits rfl (by simpa [EventQueue.waiting] using h), List.replicate_succ']
    rfl
  simp [EventTx.publish, retain, filled, hoffer]

theorem filled_publish_of_full :
    (filled event subscriberCapacity dropped).publish event =
      filled event subscriberCapacity (min (dropped + 1) droppedLimit) := by
  have hoffer : (Subscriber.mk 0 dropped).offer
      ⟨List.replicate subscriberCapacity event, 0, false⟩ event =
        (.kept, ⟨0, min (dropped + 1) droppedLimit⟩,
          ⟨List.replicate subscriberCapacity event, 0, false⟩) :=
    offer_full rfl (by simp [EventQueue.waiting])
  simp [EventTx.publish, retain, filled, hoffer]

theorem run_filling (event : EventView) (h : n + m ≤ subscriberCapacity) :
    fanOut.run (filled event n 0) (List.replicate m (.publish event)) =
      some (filled event (n + m) 0) := by
  induction m generalizing n with
  | zero => rfl
  | succ m ih =>
      have hstep : fanOut.step (filled event n 0) (.publish event) =
          some (filled event (n + 1) 0) :=
        congrArg some (filled_publish_of_lt (by omega))
      rw [List.replicate_succ, System.run_cons, hstep, Option.bind_some, ih (by omega)]
      congr 2
      omega

theorem run_missing (event : EventView) (h : dropped ≤ droppedLimit) :
    fanOut.run (filled event subscriberCapacity dropped) (List.replicate m (.publish event)) =
      some (filled event subscriberCapacity (min (dropped + m) droppedLimit)) := by
  induction m generalizing dropped with
  | zero =>
      rw [Nat.add_zero, min_eq_left h]
      rfl
  | succ m ih =>
      have hstep : fanOut.step (filled event subscriberCapacity dropped) (.publish event) =
          some (filled event subscriberCapacity (min (dropped + 1) droppedLimit)) :=
        congrArg some filled_publish_of_full
      rw [List.replicate_succ, System.run_cons, hstep, Option.bind_some, ih (min_le_right _ _)]
      congr 2
      omega

theorem run_filled (event : EventView) (m : ℕ) :
    fanOut.run .empty
        (.subscribe :: List.replicate (subscriberCapacity + m) (.publish event)) =
      some (filled event subscriberCapacity (min m droppedLimit)) := by
  have hsubscribe : fanOut.step .empty .subscribe = some (filled event 0 0) := rfl
  have hfill := run_filling event (n := 0) (m := subscriberCapacity) (by simp)
  rw [Nat.zero_add] at hfill
  have hmiss := run_missing event (m := m) (Nat.zero_le droppedLimit)
  rw [Nat.zero_add] at hmiss
  rw [System.run_cons, hsubscribe, Option.bind_some, List.replicate_add, System.run_append,
    hfill, Option.bind_some, hmiss]

end filled

/-! ### The accounts -/

section accounted

variable {calls : List FanOutCall} {s : EventTx}

/-- **Dropped events are accounted for.** What was published since a subscriber
subscribed is what was delivered to it, in that order, and what it missed in between,
which the next delivered event reports and its count holds until then; both stop at
`2 ^ 64 - 1`, and as long as no more than that is missed in a row, the deliveries, the
reports and the count add up. What the other readers do changes nothing of it, and a
subscriber is removed only at a publish after it hung up. -/
theorem eventTx_accounted (hrun : fanOut.run .empty calls = some s) :
    (∀ subscriber ∈ s.subscribers, ∃ gots pending,
      Accounts droppedLimit offered gots pending (publishedSince subscriber.events calls)
          (s.queues subscriber.events).delivered subscriber.dropped ∧
        (Short droppedLimit gots pending →
          Conserved offered (publishedSince subscriber.events calls)
            (s.queues subscriber.events).delivered subscriber.dropped)) ∧
      (∀ reader calls' s', fanOut.run .empty calls' = some s' →
        calls.filter (FanOutCall.concerns reader) = calls'.filter (FanOutCall.concerns reader) →
          s.part reader = s'.part reader) ∧
        ∀ before call after t t' reader, calls = before ++ call :: after →
          fanOut.run .empty before = some t → fanOut.step t call = some t' →
            t.Holds reader → ¬t'.Holds reader →
              (∃ event, call = .publish event) ∧ .hangUp reader ∈ before := by
  obtain ⟨hnumbered, hparts⟩ := EventTx.part_run hrun
  refine ⟨fun subscriber hmem => ?_, fun reader calls' s' hrun' hsame => ?_, ?_⟩
  · have hsound := Part.Sound.alone subscriber.events calls
    rw [← hparts subscriber.events] at hsound
    obtain ⟨gots, pending, haccounts⟩ :=
      hsound.accounts subscriber (hnumbered.part_of_mem hmem)
    exact ⟨gots, pending, haccounts, haccounts.conserved⟩
  · rw [hparts reader, (EventTx.part_run hrun').2 reader, ← Part.alone_filter reader calls,
      hsame, Part.alone_filter]
  · intro before call after t t' reader _ hbefore hstep hheld hgone
    obtain ⟨hnumbered', hparts'⟩ := EventTx.part_run hbefore
    have hsound := Part.Sound.alone reader before
    rw [← hparts' reader] at hsound
    rw [EventTx.holds_iff, not_not, EventTx.part_step hnumbered' hstep reader] at hgone
    obtain ⟨hpublish, hclosed⟩ := Part.removed (EventTx.holds_iff.mp hheld) hgone
    exact ⟨hpublish, hsound.closed hclosed⟩

end accounted

/-- A connection that went direct. -/
def wentDirect : EventView where
  host := ⟨"example.com"⟩
  port := 443
  decision := .direct
  ruleIndex := none
  ruleClass := none
  upstream := .down
  connectMs := some 0
  hop := some .direct
  via := none
  durationMs := 1
  error := none

/-- A subscriber falls behind by one event more than its queue holds, another one hangs
up, and the first reads on. -/
def twoReaders : List FanOutCall :=
  (.subscribe :: List.replicate (subscriberCapacity + 1) (.publish wentDirect)) ++
    [.subscribe, .hangUp 1, .tryRecv 0, .publish wentDirect]

theorem eventTx_accounted_twoReaders : ∃ s, fanOut.run .empty twoReaders = some s ∧
    s.subscribers = [⟨0, 0⟩] ∧
    (s.queues 0).delivered =
      List.replicate subscriberCapacity wentDirect ++ [offered 1 wentDirect] ∧
    ∃ gots pending,
      Accounts droppedLimit offered gots pending (publishedSince 0 twoReaders)
        (s.queues 0).delivered 0 := by
  have hlast : (fanOut.run (filled wentDirect subscriberCapacity 1)
      [.subscribe, .hangUp 1, .tryRecv 0, .publish wentDirect]).map
        (fun s => (s.subscribers, (s.queues 0).delivered)) =
      some ([⟨0, 0⟩], List.replicate subscriberCapacity wentDirect ++ [offered 1 wentDirect]) := by
    decide +kernel
  obtain ⟨s, hs, hends⟩ := Option.map_eq_some_iff.mp hlast
  obtain ⟨hsubscribers, hdelivered⟩ := Prod.mk.inj hends
  have hrun : fanOut.run .empty twoReaders = some s := by
    rw [twoReaders, System.run_append, run_filled, Option.bind_some]
    exact hs
  refine ⟨s, hrun, hsubscribers, hdelivered, ?_⟩
  obtain ⟨haccounts, _, _⟩ := @eventTx_accounted twoReaders _ hrun
  obtain ⟨gots, pending, h, _⟩ := haccounts ⟨0, 0⟩ (by rw [hsubscribers]; simp)
  exact ⟨gots, pending, h⟩

section saturated

variable {event : EventView} {m dropped : ℕ}

theorem offered_error_isSome (event : EventView) (h : dropped ≠ 0) :
    (offered dropped event).error.isSome = true := by
  cases dropped with
  | zero => exact absurd rfl h
  | succ dropped => rfl

/-- Once it missed more than can be counted, what it is told falls short. -/
theorem not_conserved_of_lt (hplain : event.error = none) (h : droppedLimit < m) :
    ¬Conserved offered (List.replicate (subscriberCapacity + m) event)
      (List.replicate subscriberCapacity event) (min m droppedLimit) := by
  rintro ⟨reports, hdelivered, _, hlength⟩
  have hsilent : ∀ n ∈ reports.map Prod.fst, n = 0 := by
    intro n hmem
    obtain ⟨report, hreport, rfl⟩ := List.mem_map.mp hmem
    by_contra hsome
    have hevent : offered report.1 report.2 ∈ List.replicate subscriberCapacity event :=
      hdelivered ▸ List.mem_map.mpr ⟨report, hreport, rfl⟩
    have herror := offered_error_isSome report.2 hsome
    rw [List.eq_of_mem_replicate hevent, hplain] at herror
    cases herror
  rw [List.sum_eq_zero hsilent, List.length_replicate, List.length_replicate] at hlength
  omega

end saturated

/-- A subscriber that reads nothing of `256 + 2 ^ 64` events is short of one. -/
theorem eventTx_saturated : ∃ calls s, fanOut.run .empty calls = some s ∧
    ∃ subscriber ∈ s.subscribers,
      ¬Conserved offered (publishedSince subscriber.events calls)
        (s.queues subscriber.events).delivered subscriber.dropped := by
  refine ⟨_, _, run_filled wentDirect (2 ^ 64), ⟨0, min (2 ^ 64) droppedLimit⟩, ?_, ?_⟩
  · exact List.mem_singleton_self _
  · have hsince : publishedSince 0
        (.subscribe :: List.replicate (subscriberCapacity + 2 ^ 64) (.publish wentDirect)) =
          List.replicate (subscriberCapacity + 2 ^ 64) wentDirect :=
      List.filterMap_replicate_of_some rfl
    rw [hsince]
    exact not_conserved_of_lt rfl (by norm_num [droppedLimit])

end Nhop.Proxy
