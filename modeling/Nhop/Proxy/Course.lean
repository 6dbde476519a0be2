import Nhop.Proxy.Session

/-!
The course a routed connection takes, whatever front end it came in by.

There are three: the destination is the front end itself and is refused before
anything is dialled, the dial fails and is refused, or the destination is
reached and traffic flows. A refusal is told to the client where the front end
has an answer to give, and telling it can fail in turn, in which case that is the
failure the connection ends with. `route_course` says that routing takes one of
these courses and publishes its event behind it.
-/

namespace Nhop.Proxy

open Foundation Ipc Rules Nhop.Upstream

/-! ### Courses -/

/-- The destination is the address the connection was accepted on, and the socket
can tell. -/
def Wire.Own [External] (wire : Wire) (host : Host) (port : Port) : Prop :=
  wire.unnamed = none ∧ dialsItself host port wire.accepted = true

instance [External] (wire : Wire) (host : Host) (port : Port) : Decidable (wire.Own host port) :=
  inferInstanceAs (Decidable (_ ∧ _))

/-- A refusal for `failure`: what is done about it and the failure the connection
ends with. -/
inductive Answered (wire : Wire) (failure : Failure) : Bool → List Action → Failure → Prop
  | mute : Answered wire failure false [] failure
  | told (bytes : List UInt8) (h : wire.hears .refusal = none) :
      Answered wire failure true [.told .refusal bytes none] failure
  | lost (bytes : List UInt8) {lost : OsError} (h : wire.hears .refusal = some lost) :
      Answered wire failure true [.told .refusal bytes (some lost)] (.os lost)

/-- Bytes move between the client and the next hop. -/
def Action.isTraffic : Action → Bool
  | .sent _ | .relayed _ _ => true
  | .told _ _ _ | .decided _ _ _ | .dialled _ _ | .published _ => false

def Traffic (actions : List Action) : Prop := ∀ action ∈ actions, action.isTraffic = true

/-- What follows a dial that succeeded. -/
inductive Carried : List Action → Prop
  | traffic {actions : List Action} (h : Traffic actions) : Carried actions
  | granted (bytes : List UInt8) (failure : Option OsError) {actions : List Action}
      (h : Traffic actions) : Carried (.told .granted bytes failure :: actions)

/-- What is done between a decision and its event, what the dial phase cost, and
the failure the connection ends with. -/
inductive Course [External] (wire : Wire) (hop : NextHop) (host : Host) (port : Port)
    (decision : Decision) (speaks : Bool) : List Action → Connect → Option Failure → Prop
  | loop {actions : List Action} {failure : Failure} (hown : wire.Own host port)
      (h : Answered wire (.dialsItself ⟨wire.accepted⟩) speaks actions failure) :
      Course wire hop host port decision speaks actions .refused (some failure)
  | failed {actions : List Action} {connect : Connect} {cause failure : Failure}
      (helsewhere : ¬wire.Own host port)
      (htimed : timed (hop.dial host port decision).1 wire.took = (connect, .error cause))
      (h : Answered wire cause speaks actions failure) :
      Course wire hop host port decision speaks
        (.dialled (hop.dial host port decision).1 (hop.dial host port decision).2 :: actions)
        connect (some failure)
  | reached {actions : List Action} {connect : Connect} {next : TcpStream}
      {failure : Option Failure} (helsewhere : ¬wire.Own host port)
      (htimed : timed (hop.dial host port decision).1 wire.took = (connect, .ok next))
      (h : Carried actions) :
      Course wire hop host port decision speaks
        (.dialled (hop.dial host port decision).1 (hop.dial host port decision).2 :: actions)
        connect failure

/-! ### What the parts of a front end do -/

/-- The trace and the record of a connection. -/
def Stands (trace : List Action) (routed : Option Routed) (conn : Connection) : Prop :=
  conn.trace = trace ∧ conn.routed = routed

/-- A front end that speaks tells a refusal in one answer; one that does not stays
silent. -/
def Answers (speaks : Bool) (answer : Failure → Session Unit) : Prop :=
  ∀ failure,
    match speaks with
    | true => ∃ bytes, answer failure = tell .refusal bytes
    | false => answer failure = pure ()

/-- Serving the connection the dial produced is carrying traffic, behind at most
one answer. -/
def Carries (carry : Session Unit) : Prop :=
  ∀ wire trace routed,
    Script.Ensures wire (Stands trace routed) carry
      (fun _ conn => ∃ actions, Carried actions ∧ Stands (trace ++ actions) routed conn)
      (fun _ conn => ∃ actions, Carried actions ∧ Stands (trace ++ actions) routed conn)

section actions

variable {wire : Wire} {trace : List Action} {routed : Option Routed}

/-- Telling the client something is on the trace however it ends. -/
theorem ensures_tell {word : Word} {bytes : List UInt8} :
    Script.Ensures wire (Stands trace routed) (tell word bytes)
      (fun _ conn => wire.hears word = none ∧
        Stands (trace ++ [.told word bytes none]) routed conn)
      fun e conn => ∃ lost, wire.hears word = some lost ∧ e = .os lost ∧
        Stands (trace ++ [.told word bytes (some lost)]) routed conn := by
  rintro conn ⟨rfl, rfl⟩
  cases hhears : wire.hears word with
  | none =>
      simp only [tell, Script.ask, bind, Script.bind, act, Script.modify, hhears, checked]
      exact ⟨trivial, rfl, rfl⟩
  | some lost =>
      simp only [tell, Script.ask, bind, Script.bind, act, Script.modify, hhears, checked]
      exact ⟨lost, rfl, rfl, rfl, rfl⟩

theorem ensures_read {space : ℕ} : Script.Ensures wire (Stands trace routed) (read space)
    (fun _ => Stands trace routed) fun _ => Stands trace routed := by
  rintro conn ⟨rfl, rfl⟩
  simp only [read]
  cases wire.reads conn.reads with
  | error failure => exact ⟨rfl, rfl⟩
  | ok size => exact ⟨rfl, rfl⟩

theorem ensures_readExact {size : ℕ} :
    Script.Ensures wire (Stands trace routed) (readExact size)
      (fun _ => Stands trace routed) fun _ => Stands trace routed := by
  rintro conn ⟨rfl, rfl⟩
  by_cases hzero : size = 0
  · simp only [readExact, hzero, if_true]
    exact ⟨rfl, rfl⟩
  · simp only [readExact, hzero, if_false]
    cases wire.reads conn.reads with
    | error failure => exact ⟨rfl, rfl⟩
    | ok _ =>
        by_cases hshort : conn.incoming.length < size
        · simp only [hshort, if_true]
          exact ⟨rfl, rfl⟩
        · simp only [hshort, if_false]
          exact ⟨rfl, rfl⟩

end actions

/-! ### Carrying -/

theorem Traffic.append {before behind : List Action} (hbefore : Traffic before)
    (hbehind : Traffic behind) : Traffic (before ++ behind) := by
  intro action hmem
  rcases List.mem_append.mp hmem with hmem | hmem
  · exact hbefore action hmem
  · exact hbehind action hmem

/-- The program does nothing but move bytes, however it ends. -/
def Moves (p : Session Unit) : Prop :=
  ∀ wire trace routed,
    Script.Ensures wire (Stands trace routed) p
      (fun _ conn => ∃ actions, Traffic actions ∧ Stands (trace ++ actions) routed conn)
      fun _ conn => ∃ actions, Traffic actions ∧ Stands (trace ++ actions) routed conn

/-- One transfer, whether it fails or not. -/
theorem moves_transfer (action : Wire → Connection → Action) (failure : Wire → Option OsError)
    (htraffic : ∀ wire conn, (action wire conn).isTraffic = true) :
    Moves (do
      let taken ← Script.ask action
      act taken
      let ended ← Script.ask fun wire _ => failure wire
      checked ended) := by
  rintro wire trace routed conn ⟨rfl, rfl⟩
  have hmoved : Traffic [action wire conn] := by
    intro taken hmem
    rw [List.mem_singleton.mp hmem]
    exact htraffic wire conn
  simp only [Script.ask, bind, Script.bind, act, Script.modify]
  cases failure wire with
  | none => exact ⟨_, hmoved, rfl, rfl⟩
  | some _ => exact ⟨_, hmoved, rfl, rfl⟩

theorem moves_send {stretch : Stretch} {bytes : List UInt8} : Moves (send stretch bytes) :=
  moves_transfer (fun wire _ => .sent ((wire.passes stretch).carries bytes))
    (fun wire => (wire.passes stretch).failure) fun _ _ => rfl

theorem moves_copy {limit : ℕ} : Moves (copy limit) :=
  moves_transfer
    (fun wire conn => .relayed ((wire.passes .rest).carries (conn.incoming.take limit))
      wire.answered)
    (fun wire => (wire.passes .rest).failure) fun _ _ => rfl

theorem moves_copyBidirectional : Moves copyBidirectional :=
  moves_transfer
    (fun wire conn => .relayed ((wire.passes .rest).carries conn.incoming) wire.answered)
    (fun wire => (wire.passes .rest).failure) fun _ _ => rfl

theorem Moves.bind {p q : Session Unit} (hp : Moves p) (hq : Moves q) :
    Moves (do p; q) := by
  intro wire trace routed
  have hfirst : Script.Ensures wire (Stands trace routed) p
      (fun _ conn => ∃ actions, Traffic actions ∧ Stands (trace ++ actions) routed conn)
      fun _ conn => ∃ actions, Traffic actions ∧ Stands (trace ++ actions) routed conn :=
    hp wire trace routed
  refine hfirst.bind fun _ => Script.ensures_exists fun before => Script.ensures_and
    fun hbefore => (hq wire _ _).weaken (fun _ h => h) ?_ ?_
  · rintro _ conn ⟨behind, hbehind, hstands⟩
    exact ⟨_, hbefore.append hbehind, by simpa using hstands⟩
  · rintro _ conn ⟨behind, hbehind, hstands⟩
    exact ⟨_, hbefore.append hbehind, by simpa using hstands⟩

theorem Moves.carries {carry : Session Unit} (h : Moves carry) : Carries carry := by
  intro wire trace routed
  refine (h wire trace routed).weaken (fun _ h => h) ?_ ?_
  · rintro _ conn ⟨actions, htraffic, hstands⟩
    exact ⟨actions, .traffic htraffic, hstands⟩
  · rintro _ conn ⟨actions, htraffic, hstands⟩
    exact ⟨actions, .traffic htraffic, hstands⟩

/-- Granting the request and moving bytes from then on. -/
theorem Moves.granted {carry : Session Unit} (h : Moves carry) {bytes : List UInt8} :
    Carries (do tell .granted bytes; carry) := by
  intro wire trace routed
  have htold : Script.Ensures wire (Stands trace routed) (tell .granted bytes)
      (fun _ => Stands (trace ++ [.told .granted bytes none]) routed)
      fun _ conn => ∃ actions, Carried actions ∧ Stands (trace ++ actions) routed conn := by
    refine ensures_tell.weaken (fun _ h => h) (fun _ _ h => h.2) ?_
    rintro e conn ⟨lost, _, _, hstands⟩
    exact ⟨_, .granted bytes (some lost) (fun _ hmem => absurd hmem List.not_mem_nil), hstands⟩
  refine htold.bind fun _ => (h wire _ _).weaken (fun _ h => h) ?_ ?_
  · rintro _ conn ⟨actions, htraffic, hstands⟩
    exact ⟨_, .granted bytes none htraffic, by simpa using hstands⟩
  · rintro _ conn ⟨actions, htraffic, hstands⟩
    exact ⟨_, .granted bytes none htraffic, by simpa using hstands⟩

/-! ### Taking a course -/

section course

variable [External] {wire : Wire} {hop : NextHop} {host : Host} {port : Port}
  {decision : Decision} {speaks : Bool} {answer : Failure → Session Unit} {carry : Session Unit}
  {trace : List Action} {routed : Routed}

omit [External] in
/-- Refusing for `failure` ends in a failure, and takes an answer where there is
one to give. -/
theorem Answers.ensures (hanswer : Answers speaks answer) (failure : Failure)
    {record : Option Routed} :
    Script.Ensures wire (Stands trace record)
      (do answer failure; Script.fail failure : Session Unit) (fun _ _ => False)
      fun e conn => ∃ actions, Answered wire failure speaks actions e ∧
        Stands (trace ++ actions) record conn := by
  have hsaid := hanswer failure
  cases speaks with
  | false =>
      rw [show answer failure = pure () from hsaid]
      rintro conn ⟨rfl, rfl⟩
      exact ⟨[], .mute, (List.append_nil _).symm, rfl⟩
  | true =>
      obtain ⟨bytes, hbytes⟩ := hsaid
      rw [hbytes]
      have htold : Script.Ensures wire (Stands trace record) (tell .refusal bytes)
          (fun _ conn => wire.hears .refusal = none ∧
            Stands (trace ++ [.told .refusal bytes none]) record conn)
          fun e conn => ∃ actions, Answered wire failure true actions e ∧
            Stands (trace ++ actions) record conn := by
        refine ensures_tell.weaken (fun _ h => h) (fun _ _ h => h) ?_
        rintro e conn ⟨lost, hlost, rfl, hstands⟩
        exact ⟨_, .lost bytes hlost, hstands⟩
      refine htold.bind fun _ => Script.ensures_fail ?_
      rintro conn ⟨hheard, hstands⟩
      exact ⟨_, .told bytes hheard, hstands⟩

/-- The course taken so far, up to its event. -/
def Taken (wire : Wire) (hop : NextHop) (host : Host) (port : Port) (decision : Decision)
    (speaks : Bool) (trace : List Action) (routed : Routed) (failure : Option Failure)
    (conn : Connection) : Prop :=
  ∃ actions connect, Course wire hop host port decision speaks actions connect failure ∧
    Stands (trace ++ actions) (some (routed.dialled connect)) conn

/-- The trace of a connection that was routed: its decision, its course and its
event. -/
def Routing [SocksText] (ctx : ConnCtx) (wire : Wire) (hop : NextHop) (host : Host) (port : Port)
    (speaks : Bool) (before : List Action) (failure : Option Failure) (trace : List Action) :
    Prop :=
  let decision := ctx.rules.decide host port
  ∃ actions connect, Course wire hop host port decision speaks actions connect failure ∧
    trace = before ++ .decided host port decision :: actions ++
      [.published (((Routed.begun hop.verdict host port decision).dialled connect).ended failure
        wire.lasted)]

theorem ensures_refuseLoopBy (hanswer : Answers speaks answer) (hown : wire.Own host port) :
    Script.Ensures wire (Stands trace (some routed)) (refuseLoopBy answer wire.accepted)
      (fun _ => Taken wire hop host port decision speaks trace routed none)
      fun e => Taken wire hop host port decision speaks trace routed (some e) := by
  have hdialled : Script.Ensures wire (Stands trace (some routed)) (dialled .refused)
      (fun _ => Stands trace (some (routed.dialled .refused)))
      fun e => Taken wire hop host port decision speaks trace routed (some e) := by
    rintro conn ⟨rfl, hrouted⟩
    exact ⟨rfl, by simp [hrouted]⟩
  refine hdialled.bind fun _ => ?_
  refine (hanswer.ensures (.dialsItself ⟨wire.accepted⟩)).weaken (fun _ h => h) ?_ ?_
  · rintro _ _ ⟨⟩
  · rintro e conn ⟨actions, hanswered, hstands⟩
    exact ⟨actions, .refused, .loop hown hanswered, hstands⟩

omit [External] in
theorem ensures_dialNext : Script.Ensures wire (Stands trace (some routed))
    (dialNext hop host port decision)
    (fun next conn => ∃ connect,
      timed (hop.dial host port decision).1 wire.took = (connect, next) ∧
        Stands (trace ++ [.dialled (hop.dial host port decision).1
          (hop.dial host port decision).2]) (some (routed.dialled connect)) conn)
    fun _ _ => False := by
  rintro conn ⟨rfl, hrouted⟩
  exact ⟨_, rfl, rfl, by simp [hrouted]⟩

theorem ensures_relayBy (hanswer : Answers speaks answer) (hcarry : Carries carry)
    (helsewhere : ¬wire.Own host port) :
    Script.Ensures wire (Stands trace (some routed))
      (relayBy hop host port decision answer carry)
      (fun _ => Taken wire hop host port decision speaks trace routed none)
      fun e => Taken wire hop host port decision speaks trace routed (some e) := by
  refine (ensures_dialNext.weaken (fun _ h => h) (fun _ _ h => h) fun _ _ h => h.elim).bind
    fun next => Script.ensures_exists fun connect => Script.ensures_and fun htimed => ?_
  cases next with
  | error cause =>
      refine (hanswer.ensures cause).weaken (fun _ h => h) (fun _ _ h => h.elim) ?_
      rintro e conn ⟨actions, hanswered, hstands⟩
      exact ⟨_, connect, .failed helsewhere htimed hanswered, by simpa using hstands⟩
  | ok next =>
      refine (hcarry wire _ _).weaken (fun _ h => h) ?_ ?_
      · rintro _ conn ⟨actions, hcarried, hstands⟩
        exact ⟨_, connect, .reached helsewhere htimed hcarried, by simpa using hstands⟩
      · rintro e conn ⟨actions, hcarried, hstands⟩
        exact ⟨_, connect, .reached helsewhere htimed hcarried, by simpa using hstands⟩

theorem ensures_ownAddress {P : Connection → Prop} :
    Script.Ensures wire P (ownAddress host port)
      (fun reached conn =>
        (reached = .own wire.accepted ∧ wire.Own host port ∨
          reached = .elsewhere ∧ ¬wire.Own host port) ∧ P conn)
      fun _ _ => False := by
  refine Script.ensures_ask fun conn hconn => ⟨?_, hconn⟩
  unfold Wire.Own
  cases wire.unnamed with
  | some _ => simp
  | none => cases dialsItself host port wire.accepted <;> simp

variable [SocksText] {upstream : HealthState}

/-- **Routing takes a course** and publishes its one event behind it. -/
theorem ensures_route {ctx : ConnCtx} {loopAnswer : Failure → Session Unit}
    (hloop : Answers speaks loopAnswer) (hanswer : Answers speaks answer)
    (hcarry : Carries carry) {relay : Decision → Session Unit}
    (hrelay : ∀ decision, relay decision = relayBy hop host port decision answer carry) :
    Script.Ensures wire (Stands trace none)
      (route ctx hop host port (refuseLoopBy loopAnswer) relay)
      (fun _ conn => Routing ctx wire hop host port speaks trace none conn.trace)
      fun e conn => Routing ctx wire hop host port speaks trace (some e) conn.trace := by
  let decision := ctx.rules.decide host port
  let routed := Routed.begun hop.verdict host port decision
  have hbegun : Script.Ensures wire (Stands trace none) (begun hop.verdict host port decision)
      (fun _ => Stands (trace ++ [.decided host port decision]) (some routed))
      fun e conn => Routing ctx wire hop host port speaks trace (some e) conn.trace := by
    rintro conn ⟨rfl, _⟩
    exact ⟨rfl, rfl⟩
  have hserved (serve : Loop → Session Unit)
      (hown : serve (.own wire.accepted) = refuseLoopBy loopAnswer wire.accepted)
      (helsewhere : serve .elsewhere = relay decision) :
      Script.Ensures wire (Stands (trace ++ [.decided host port decision]) (some routed))
      (ownAddress host port >>= serve)
      (fun _ => Taken wire hop host port decision speaks
        (trace ++ [.decided host port decision]) routed none)
      fun e => Taken wire hop host port decision speaks
        (trace ++ [.decided host port decision]) routed (some e) := by
    refine (ensures_ownAddress.weaken (fun _ h => h) (fun _ _ h => h) fun _ _ h => h.elim).bind
      fun reached => Script.ensures_and fun hreached => ?_
    rcases hreached with ⟨rfl, hself⟩ | ⟨rfl, hother⟩
    · rw [hown]
      exact ensures_refuseLoopBy hloop hself
    · rw [helsewhere, hrelay]
      exact ensures_relayBy hanswer hcarry hother
  refine hbegun.bind fun _ => (hserved _ rfl rfl).settle.bind fun served => ?_
  have hended : Script.Ensures wire
      (Taken wire hop host port decision speaks (trace ++ [.decided host port decision]) routed
        (failureOf served))
      (ended (failureOf served))
      (fun _ conn => Routing ctx wire hop host port speaks trace (failureOf served) conn.trace)
      fun e conn => Routing ctx wire hop host port speaks trace (some e) conn.trace := by
    rintro conn ⟨actions, connect, hcourse, htrace, hrouted⟩
    simp only [ended, hrouted]
    exact ⟨actions, connect, hcourse, by simp [htrace, routed, decision]⟩
  refine (hended.pre ?_).bind fun _ => Script.ensures_ofExcept ?_ ?_
  · cases served <;> exact fun _ h => h
  · rintro _ rfl conn h
    exact h
  · rintro e rfl conn h
    exact h

end course

end Nhop.Proxy
