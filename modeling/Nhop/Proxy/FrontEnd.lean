import Nhop.Proxy.Course
import Nhop.Proxy.Http.Serve
import Nhop.Proxy.Socks5

/-!
The three front ends, and the story every connection they serve leaves.

A connection ends before a decision, turned away or not, or it is routed: behind
whatever greeting there was stand the decision, one course, and the event of the
record. Each front end is taken through its own reading to the routing all three
share.
-/

namespace Nhop.Proxy

open Foundation Ipc Rules Nhop.Upstream

/-! ### The forward front end -/

namespace Forward

/-- There is no protocol on this connection to carry a reason. -/
def refuseLoop (listening : SocketAddr) : Session Unit :=
  refuseLoopBy (fun _ => pure ()) listening

def relay (host : Host) (port : Port) (hop : NextHop) (decision : Decision) : Session Unit :=
  relayBy hop host port decision (fun _ => pure ()) copyBidirectional

/-- Serves one connection of a forward front end. -/
def serve [External] [SocksText] (ctx : ConnCtx) (hop : NextHop) (target : Target) :
    Session Unit :=
  route ctx hop target.host target.port refuseLoop (relay target.host target.port hop)

end Forward

/-! ### The front ends together -/

inductive FrontEnd
  | http
  | socks5
  | forward (target : Target)
  deriving DecidableEq, Repr

namespace FrontEnd

/-- The protocol of the front end has an answer to give. -/
def speaks : FrontEnd → Bool
  | .http | .socks5 => true
  | .forward _ => false

def serve [External] [SocksText] (frontEnd : FrontEnd) (ctx : ConnCtx) (hop : NextHop) :
    Session Unit :=
  match frontEnd with
  | .http => Http.serve ctx hop
  | .socks5 => Socks5.serve ctx hop
  | .forward target => Forward.serve ctx hop target

end FrontEnd

/-- The client was told which authentication method to use, if anything. -/
def Greeted (actions : List Action) : Prop :=
  ∀ action ∈ actions, ∃ bytes lost, action = .told .chosen bytes lost

/-- What a connection leaves on its trace when it ends with `failure`. -/
inductive Story [External] [SocksText] (ctx : ConnCtx) (wire : Wire) (hop : NextHop)
    (speaks : Bool) (failure : Option Failure) : List Action → Prop
  | unrouted {trace : List Action} (h : Greeted trace) : Story ctx wire hop speaks failure trace
  | turnedAway {before : List Action} (h : Greeted before) (bytes : List UInt8)
      (lost : Option OsError) :
      Story ctx wire hop speaks failure (before ++ [.told .refusal bytes lost])
  | routed {before trace : List Action} {host : Host} {port : Port} (h : Greeted before)
      (hrouting : Routing ctx wire hop host port speaks before failure trace) :
      Story ctx wire hop speaks failure trace

section serve

variable {wire : Wire} {trace : List Action} {routed : Option Routed}

theorem greeted_nil : Greeted [] := fun _ hmem => absurd hmem List.not_mem_nil

theorem greeted_chosen (bytes : List UInt8) (lost : Option OsError) :
    Greeted [.told .chosen bytes lost] := by
  intro action hmem
  exact ⟨bytes, lost, List.mem_singleton.mp hmem⟩

variable [External] [SocksText] {ctx : ConnCtx} {hop : NextHop} {speaks : Bool}

theorem ensures_turnedAway (hgreeted : Greeted trace) {bytes : List UInt8} :
    Script.Ensures wire (Stands trace routed) (tell .refusal bytes)
      (fun _ conn => Story ctx wire hop speaks none conn.trace)
      fun e conn => Story ctx wire hop speaks (some e) conn.trace := by
  refine ensures_tell.weaken (fun _ h => h) ?_ ?_
  · rintro _ conn ⟨_, htrace, _⟩
    rw [htrace]
    exact .turnedAway hgreeted bytes none
  · rintro e conn ⟨lost, _, _, htrace, _⟩
    rw [htrace]
    exact .turnedAway hgreeted bytes (some lost)

theorem ensures_reading {α : Type} {p : Session α} (hgreeted : Greeted trace)
    (h : Script.Ensures wire (Stands trace none) p (fun _ => Stands trace none)
      fun _ => Stands trace none) :
    Script.Ensures wire (Stands trace none) p (fun _ => Stands trace none)
      fun e conn => Story ctx wire hop speaks (some e) conn.trace := by
  refine h.weaken (fun _ h => h) (fun _ _ h => h) ?_
  rintro e conn ⟨htrace, _⟩
  rw [htrace]
  exact .unrouted hgreeted

/-- What is routed has a story. -/
theorem ensures_routed (hgreeted : Greeted trace) {host : Host} {port : Port}
    {loopAnswer answer : Failure → Session Unit} {carry : Session Unit}
    (hloop : Answers speaks loopAnswer) (hanswer : Answers speaks answer)
    (hcarry : Carries carry) {relay : Decision → Session Unit}
    (hrelay : ∀ decision, relay decision = relayBy hop host port decision answer carry) :
    Script.Ensures wire (Stands trace none)
      (route ctx hop host port (refuseLoopBy loopAnswer) relay)
      (fun _ conn => Story ctx wire hop speaks none conn.trace)
      fun e conn => Story ctx wire hop speaks (some e) conn.trace :=
  (ensures_route hloop hanswer hcarry hrelay).weaken (fun _ h => h)
    (fun _ _ h => .routed hgreeted h) fun _ _ h => .routed hgreeted h

end serve

/-! ### Reading a SOCKS5 request -/

namespace Socks5

variable {wire : Wire} {trace : List Action}

theorem ensures_greet : Script.Ensures wire (Stands trace none) greet
    (fun _ => Stands trace none) fun _ => Stands trace none := by
  refine ensures_readExact.bind fun greeting => ?_
  split_ifs
  · exact Script.ensures_pure fun _ h => h
  · exact ensures_readExact.bind fun _ => Script.ensures_pure fun _ h => h

/-- A reply to an address is a refusal. -/
theorem ensures_destination {atyp : UInt8} :
    Script.Ensures wire (Stands trace none) (destination atyp)
      (fun read conn => read ≠ .error .granted ∧ Stands trace none conn)
      fun _ => Stands trace none := by
  unfold destination
  split_ifs
  · exact ensures_readExact.bind fun _ => Script.ensures_pure fun _ h => ⟨by simp, h⟩
  · refine ensures_readExact.bind fun _ => ensures_readExact.bind fun name =>
      Script.ensures_pure fun _ h => ⟨?_, h⟩
    split
    · simp
    · split_ifs <;> simp
  · exact ensures_readExact.bind fun _ => Script.ensures_pure fun _ h => ⟨by simp, h⟩
  · exact Script.ensures_pure fun _ h => ⟨by simp, h⟩

/-- A reply to a request is a refusal. -/
theorem ensures_request : Script.Ensures wire (Stands trace none) request
    (fun requested conn => requested ≠ .refused .granted ∧ Stands trace none conn)
    fun _ => Stands trace none := by
  refine ensures_readExact.bind fun head => ?_
  split_ifs
  · exact Script.ensures_pure fun _ h => ⟨by simp, h⟩
  · exact Script.ensures_pure fun _ h => ⟨by simp, h⟩
  · refine ensures_destination.bind fun read => Script.ensures_and fun hread => ?_
    cases read with
    | error reply => exact Script.ensures_pure fun _ h => ⟨by simpa using hread, h⟩
    | ok host =>
        exact ensures_readExact.bind fun _ => Script.ensures_pure fun _ h => ⟨by simp, h⟩

theorem answer_eq_tell {reply : Reply} (h : reply ≠ .granted) :
    answer reply = tell .refusal (answerBytes reply) := by
  cases reply with
  | granted => exact absurd rfl h
  | failure | notAllowed | hostUnreachable | commandNotSupported | addressNotSupported => rfl

theorem refusal_ne_granted (failure : Failure) : refusal failure ≠ .granted := by
  unfold refusal
  cases UpstreamDown.carriedBy failure <;> simp

end Socks5

theorem Http.carries_carry (forward : Http.Forwarded) : Carries (Http.carry forward) := by
  unfold Http.carry
  cases forward.method with
  | connect => exact (moves_send.bind moves_copyBidirectional).granted
  | absolute => exact (moves_send.bind (moves_send.bind moves_copy)).carries

/-! ### Each front end leaves a story -/

section stories

variable [External] [SocksText] {ctx : ConnCtx} {wire : Wire} {hop : NextHop}

theorem Forward.ensures_serve {target : Target} :
    Script.Ensures wire (Stands [] none) (Forward.serve ctx hop target)
      (fun _ conn => Story ctx wire hop false none conn.trace)
      fun e conn => Story ctx wire hop false (some e) conn.trace := by
  have hmute : Answers false fun _ => pure () := fun _ => rfl
  exact ensures_routed greeted_nil hmute hmute moves_copyBidirectional.carries fun _ => rfl

theorem Socks5.ensures_serve :
    Script.Ensures wire (Stands [] none) (Socks5.serve ctx hop)
      (fun _ conn => Story ctx wire hop true none conn.trace)
      fun e conn => Story ctx wire hop true (some e) conn.trace := by
  refine (ensures_reading greeted_nil ensures_greet).bind fun greeting => ?_
  have hchosen (method : UInt8) :
      Script.Ensures wire (Stands [] none) (chosen method)
        (fun _ conn => ∃ lost, Stands [.told .chosen [version, method] lost] none conn)
        fun e conn => Story ctx wire hop true (some e) conn.trace := by
    refine ensures_tell.weaken (fun _ h => h) (fun _ conn h => ⟨none, h.2⟩) ?_
    rintro e conn ⟨lost, _, _, htrace, _⟩
    rw [htrace]
    exact .unrouted (greeted_chosen _ _)
  cases greeting with
  | rejected =>
      refine (hchosen noAcceptableMethod).weaken (fun _ h => h) ?_ fun _ _ h => h
      rintro _ conn ⟨lost, htrace, _⟩
      rw [htrace]
      exact .unrouted (greeted_chosen _ _)
  | noAuth =>
      refine (hchosen noAuth).bind fun _ => Script.ensures_exists fun lost => ?_
      have hgreeted := greeted_chosen [version, noAuth] lost
      have hrequest : Script.Ensures wire
          (Stands [.told .chosen [version, noAuth] lost] none) request
          (fun requested conn => requested ≠ .refused .granted ∧
            Stands [.told .chosen [version, noAuth] lost] none conn)
          fun e conn => Story ctx wire hop true (some e) conn.trace := by
        refine ensures_request.weaken (fun _ h => h) (fun _ _ h => h) ?_
        rintro e conn ⟨htrace, _⟩
        rw [htrace]
        exact .unrouted hgreeted
      refine hrequest.bind fun requested => Script.ensures_and fun hrefused => ?_
      cases requested with
      | refused reply =>
          show Script.Ensures wire _ (answer reply) _ _
          rw [answer_eq_tell fun h => hrefused (by rw [h])]
          exact ensures_turnedAway hgreeted
      | connect host port =>
          have hloop : Answers true fun _ => answer .notAllowed := fun _ => ⟨_, rfl⟩
          have hanswer : Answers true fun failure => answer (refusal failure) := fun failure =>
            ⟨_, answer_eq_tell (refusal_ne_granted failure)⟩
          exact ensures_routed hgreeted hloop hanswer moves_copyBidirectional.granted
            fun _ => rfl

omit [External] [SocksText] in
/-- Reading the head leaves the trace alone. The induction is on the rounds. -/
theorem Http.ensures_readHeadWithin {rounds : ℕ} {buffer : List UInt8} :
    Script.Ensures wire (Stands [] none) (Http.readHeadWithin rounds buffer)
      (fun _ => Stands [] none) fun _ => Stands [] none := by
  induction rounds generalizing buffer with
  | zero => exact Script.ensures_pure fun _ h => h
  | succ rounds ih =>
      unfold Http.readHeadWithin
      split_ifs
      · exact Script.ensures_pure fun _ h => h
      · refine ensures_read.bind fun taken => ?_
        split_ifs
        · exact Script.ensures_pure fun _ h => h
        · cases Http.headEnd (buffer ++ taken) with
          | none => exact ih
          | some last => exact Script.ensures_pure fun _ h => h

theorem Http.ensures_serve :
    Script.Ensures wire (Stands [] none) (Http.serve ctx hop)
      (fun _ conn => Story ctx wire hop true none conn.trace)
      fun e conn => Story ctx wire hop true (some e) conn.trace := by
  refine (ensures_reading greeted_nil ensures_readHeadWithin).bind fun read => ?_
  have hsilent : Script.Ensures wire (Stands [] none) (pure () : Session Unit)
      (fun _ conn => Story ctx wire hop true none conn.trace)
      fun e conn => Story ctx wire hop true (some e) conn.trace := by
    refine Script.ensures_pure ?_
    rintro conn ⟨htrace, _⟩
    rw [htrace]
    exact .unrouted greeted_nil
  cases read with
  | none => exact hsilent
  | some head =>
      obtain ⟨buffer, last⟩ := head
      dsimp only
      cases parseHead (buffer.take last) with
      | none => exact ensures_turnedAway greeted_nil
      | some request =>
          obtain ⟨method, host, port, body⟩ := request
          dsimp only
          cases rebuilt method (buffer.take last) host port with
          | none => exact ensures_turnedAway greeted_nil
          | some head =>
              have hloop : Answers true fun refused => respond badGateway refused.display :=
                fun _ => ⟨_, rfl⟩
              have hanswer : Answers true (refuse host port) := refuse_eq_tell host port
              exact ensures_routed greeted_nil hloop hanswer (carries_carry _) fun _ => rfl

/-- **Every connection leaves a story.** -/
theorem FrontEnd.serve_story (frontEnd : FrontEnd) (incoming : List UInt8) :
    Story ctx wire hop frontEnd.speaks
      (failureOf (frontEnd.serve ctx hop wire (.accepted incoming)).1)
      (frontEnd.serve ctx hop wire (.accepted incoming)).2.trace := by
  have hserve : Script.Ensures wire (Stands [] none) (frontEnd.serve ctx hop)
      (fun _ conn => Story ctx wire hop frontEnd.speaks none conn.trace)
      fun e conn => Story ctx wire hop frontEnd.speaks (some e) conn.trace := by
    cases frontEnd with
    | http => exact Http.ensures_serve
    | socks5 => exact Socks5.ensures_serve
    | forward target => exact Forward.ensures_serve
  have hran := hserve (.accepted incoming) ⟨rfl, rfl⟩
  rcases hrun : frontEnd.serve ctx hop wire (.accepted incoming) with ⟨e | _, conn⟩
  · rw [hrun] at hran
    exact hran
  · rw [hrun] at hran
    exact hran

end stories

end Nhop.Proxy
