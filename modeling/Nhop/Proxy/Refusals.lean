import Nhop.Proxy.Coherence

/-!
What the event of a refused connection says.

A connection is refused because its destination is the front end itself or
because its dial failed, and the client is told before the failure is returned.
Telling it can fail as well, and then it is that failure the connection ends
with: the event carries the text of the refusal exactly when the answer went
through, or failed with the very same text.
-/

namespace Nhop.Proxy

open Foundation Ipc Rules Nhop.Upstream

section logged

variable [External] [SocksText]

/-- What a connection routed to `host` and `port` is refused for, if it is. -/
def refusalOf (wire : Wire) (hop : NextHop) (host : Host) (port : Port) (decision : Decision) :
    Option Failure :=
  if wire.Own host port then some (.dialsItself ⟨wire.accepted⟩)
  else
    match (timed (hop.dial host port decision).1 wire.took).2 with
    | .ok _ => none
    | .error failure => some failure

/-- The single event of a trace carries the text of `failure`. -/
def LogsRefusal (failure : Failure) (trace : List Action) : Prop :=
  ∃ event, eventsOf trace = [event] ∧ event.error = some failure.display

section refused

variable {ctx : ConnCtx} {wire : Wire} {hop : NextHop} {host : Host} {port : Port}
  {decision : Decision} {speaks : Bool} {actions : List Action} {connect : Connect}
  {cause : Failure} {ends : Option Failure}

omit [SocksText] in
theorem refusalOf_own (h : wire.Own host port) :
    refusalOf wire hop host port decision = some (.dialsItself ⟨wire.accepted⟩) := if_pos h

omit [SocksText] in
theorem refusalOf_failed (h : ¬wire.Own host port)
    (htimed : timed (hop.dial host port decision).1 wire.took = (connect, .error cause)) :
    refusalOf wire hop host port decision = some cause := by
  rw [refusalOf, if_neg h, htimed]

omit [SocksText] in
theorem refusalOf_reached {next : TcpStream} (h : ¬wire.Own host port)
    (htimed : timed (hop.dial host port decision).1 wire.took = (connect, .ok next)) :
    refusalOf wire hop host port decision = none := by
  rw [refusalOf, if_neg h, htimed]

omit [SocksText] in
theorem Course.refused (h : Course wire hop host port decision speaks actions connect ends)
    (hrefused : refusalOf wire hop host port decision = some cause) :
    ∃ failure actions, ends = some failure ∧ Answered wire cause speaks actions failure := by
  cases h with
  | loop hown h =>
      rw [refusalOf_own hown] at hrefused
      cases hrefused
      exact ⟨_, _, rfl, h⟩
  | failed helsewhere htimed h =>
      rw [refusalOf_failed helsewhere htimed] at hrefused
      cases hrefused
      exact ⟨_, _, rfl, h⟩
  | reached helsewhere htimed h =>
      rw [refusalOf_reached helsewhere htimed] at hrefused
      cases hrefused

omit [External] in
theorem Answered.display_iff {failure : Failure} (h : Answered wire cause true actions failure) :
    failure.display = cause.display ↔
      ∀ lost, wire.hears .refusal = some lost → lost.text = cause.display := by
  cases h with
  | told _ hheard => simp [hheard]
  | lost _ hlost =>
      constructor
      · intro htext lost hlost'
        obtain rfl := Option.some.inj (hlost.symm.trans hlost')
        exact htext
      · intro hall
        exact hall _ hlost

/-- The event of a routed connection that was to be refused. -/
theorem Story.logs_refusal_iff {trace : List Action}
    (h : Story ctx wire hop true ends trace) (hdecided : .decided host port decision ∈ trace)
    (hrefused : refusalOf wire hop host port decision = some cause) :
    LogsRefusal cause trace ↔
      ∀ lost, wire.hears .refusal = some lost → lost.text = cause.display := by
  cases h with
  | unrouted h =>
      obtain ⟨_, _, hne⟩ := h _ hdecided
      cases hne
  | turnedAway h =>
      rcases List.mem_append.mp hdecided with hmem | hmem
      · obtain ⟨_, _, hne⟩ := h _ hmem
        cases hne
      · cases List.mem_singleton.mp hmem
  | routed h hrouting =>
      obtain ⟨actions, connect, hcourse, rfl⟩ := hrouting
      have hamid : ∀ action ∈ actions, action.Amid hop _ _ (ctx.rules.decide _ _) :=
        fun _ hmem => hcourse.amid hmem
      obtain ⟨rfl, rfl, rfl⟩ := decided_of_amid h hamid hdecided
      obtain ⟨failure, _, rfl, hanswered⟩ := hcourse.refused hrefused
      rw [← hanswered.display_iff]
      unfold LogsRefusal
      rw [events_of_amid h hamid]
      constructor
      · rintro ⟨event, hevent, herror⟩
        obtain rfl := List.singleton_inj.mp hevent
        exact Option.some.inj herror
      · intro htext
        exact ⟨_, rfl, congrArg some htext⟩

end refused

/-- **The log line carries the refusal** exactly when the answer to the client was
written, or could not be written for a reason that reads the same. -/
theorem FrontEnd.refusal_logged_iff (frontEnd : FrontEnd) (hspeaks : frontEnd.speaks = true)
    (ctx : ConnCtx) (hop : NextHop) (wire : Wire) (incoming : List UInt8) (host : Host)
    (port : Port) (decision : Decision) (cause : Failure)
    (hdecided : .decided host port decision ∈
      (frontEnd.serve ctx hop wire (.accepted incoming)).2.trace)
    (hrefused : refusalOf wire hop host port decision = some cause) :
    LogsRefusal cause (frontEnd.serve ctx hop wire (.accepted incoming)).2.trace ↔
      ∀ lost, wire.hears .refusal = some lost → lost.text = cause.display := by
  have hstory : Story ctx wire hop frontEnd.speaks
      (failureOf (frontEnd.serve ctx hop wire (.accepted incoming)).1)
      (frontEnd.serve ctx hop wire (.accepted incoming)).2.trace := frontEnd.serve_story incoming
  rw [hspeaks] at hstory
  exact hstory.logs_refusal_iff hdecided hrefused

end logged

/-- A client asks for the front end itself and hears about it. -/
theorem FrontEnd.refusal_logged_iff_loop :
    @LogsRefusal .silent (.dialsItself ⟨.v4 0x7f000001#32 7890⟩)
      (@FrontEnd.serve .ascii .silent .http ⟨Ruleset.empty⟩
        (upstreamHop openNetwork 0 .unconfigured .unconfigured)
        (.smooth (.v4 0x7f000001#32 7890))
        (.accepted (Http.utf8 "CONNECT 127.0.0.1:7890 HTTP/1.1\r\n\r\n"))).2.trace := by
  refine (@FrontEnd.refusal_logged_iff .ascii .silent .http rfl ⟨Ruleset.empty⟩
    (upstreamHop openNetwork 0 .unconfigured .unconfigured) (.smooth (.v4 0x7f000001#32 7890))
    (Http.utf8 "CONNECT 127.0.0.1:7890 HTTP/1.1\r\n\r\n") ⟨"127.0.0.1"⟩ 7890 .direct
    (.dialsItself ⟨.v4 0x7f000001#32 7890⟩) (by decide +kernel) (by decide +kernel)).mpr ?_
  rintro lost hlost
  cases hlost

/-- The wire of a client that is gone by the time it is answered. -/
def Wire.gone (accepted : SocketAddr) : Wire :=
  { Wire.smooth accepted with hears := fun _ => some ⟨"Broken pipe (os error 32)"⟩ }

/-- A client that is gone by then leaves its own failure in the log, in place of the
refusal. -/
theorem refusal_not_always_logged :
    ¬∀ (_ : External) (_ : SocksText) (frontEnd : FrontEnd), frontEnd.speaks = true →
      ∀ (ctx : ConnCtx) (net : Network) (hold : ℕ) (decided dialling : Moment) (wire : Wire)
        (incoming : List UInt8) (host : Host) (port : Port) (decision : Decision)
        (cause : Failure),
      let hop := upstreamHop net hold decided dialling
      let run := frontEnd.serve ctx hop wire (.accepted incoming)
      .decided host port decision ∈ run.2.trace →
      refusalOf wire hop host port decision = some cause → LogsRefusal cause run.2.trace := by
  intro h
  have hlogged := h .ascii .silent .http rfl ⟨Ruleset.empty⟩ openNetwork 0 .unconfigured
    .unconfigured (.gone (.v4 0x7f000001#32 7890))
    (Http.utf8 "CONNECT 127.0.0.1:7890 HTTP/1.1\r\n\r\n") ⟨"127.0.0.1"⟩ 7890 .direct
    (.dialsItself ⟨.v4 0x7f000001#32 7890⟩) (by decide +kernel) (by decide +kernel)
  obtain ⟨event, hevents, herror⟩ := hlogged
  have hgone : (eventsOf (@FrontEnd.serve .ascii .silent .http ⟨Ruleset.empty⟩
      (upstreamHop openNetwork 0 .unconfigured .unconfigured)
      (.gone (.v4 0x7f000001#32 7890))
      (.accepted (Http.utf8 "CONNECT 127.0.0.1:7890 HTTP/1.1\r\n\r\n"))).2.trace).map
      EventView.error = [some "Broken pipe (os error 32)"] := by decide +kernel
  rw [hevents] at hgone
  obtain hother := List.singleton_inj.mp hgone
  rw [herror] at hother
  revert hother
  decide +kernel

end Nhop.Proxy
