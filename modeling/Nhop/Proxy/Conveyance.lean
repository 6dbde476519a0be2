import Nhop.Proxy.Decoding
import Nhop.Proxy.FrontEnd
import Nhop.Proxy.Http.Segments

/-!
What a connection carries, on any of the three front ends.

A front end is asked for a destination by the client's stream, and what is behind
the request belongs to the next hop (`FrontEnd.Asks`). Whatever the wire does,
nothing but a beginning of these bytes is written there, and only where the request
was decided. A connection that ends well has carried all of them, and its client
was told what the protocol says first and then what the next hop answered. And it
ends well where no read, write or transfer fails, the destination is not the front
end itself, and the dial comes through (`FrontEnd.transparent`).
-/

namespace Nhop.Proxy

open Foundation Ipc Rules Nhop.Upstream

/-! ### The ends of a connection -/

def Action.heard : Action → List UInt8
  | .told _ bytes none => bytes
  | .relayed _ down => down
  | .told _ _ (some _) | .sent _ | .decided _ _ _ | .dialled _ _ | .published _ => []

/-- The bytes a trace writes to the client. -/
def heard (trace : List Action) : List UInt8 := trace.flatMap Action.heard

def Action.decision? : Action → Option (Host × Port × Decision)
  | .decided host port decision => some (host, port, decision)
  | _ => none

/-- What was decided on a trace, and for which destination. -/
def decisions (trace : List Action) : List (Host × Port × Decision) :=
  trace.filterMap Action.decision?

/-- No read of the client, no write to it and no transfer fails. -/
structure Faultless (wire : Wire) : Prop where
  steady : Steady wire
  hears : ∀ word, wire.hears word = none
  passes : Http.Conveys wire

theorem faultless_smooth (accepted : SocketAddr) : Faultless (.smooth accepted) :=
  ⟨steady_smooth accepted, fun _ => rfl, fun _ => rfl⟩

/-- The client has this still to say, these bytes went up and these down, and this was
decided. -/
structure Tally (incoming up down : List UInt8) (decided : List (Host × Port × Decision))
    (conn : Connection) : Prop where
  incoming : conn.incoming = incoming
  up : Http.written conn.trace = up
  down : heard conn.trace = down
  decided : decisions conn.trace = decided

/-- A beginning of these bytes went up, and this was decided. -/
structure Fell (bytes : List UInt8) (decided : List (Host × Port × Decision))
    (conn : Connection) : Prop where
  within : Http.WritesWithin bytes conn
  decided : decisions conn.trace = decided

section tally

variable {wire : Wire} {incoming up down bytes whole : List UInt8} {conn : Connection}
  {decided : List (Host × Port × Decision)}

@[simp] theorem heard_append (trace more : List Action) :
    heard (trace ++ more) = heard trace ++ heard more := List.flatMap_append

@[simp] theorem decisions_append (trace more : List Action) :
    decisions (trace ++ more) = decisions trace ++ decisions more := List.filterMap_append

theorem Tally.fell (h : Tally incoming up down decided conn) (hup : up <+: bytes) :
    Fell bytes decided conn where
  within := by
    unfold Http.WritesWithin
    rw [h.up]
    exact hup
  decided := h.decided

theorem Fell.mono (h : Fell bytes decided conn) (hwhole : bytes <+: whole) :
    Fell whole decided conn := ⟨h.within.mono hwhole, h.decided⟩

theorem Tally.behind (h : Tally incoming up down decided conn) (action : Action)
    (hup : Http.Action.written action = []) (hdecided : action.decision? = none) :
    Tally incoming up (down ++ action.heard) decided
      { conn with trace := conn.trace ++ [action] } where
  incoming := h.incoming
  up := by simp [Http.written, hup, ← h.up]
  down := by simp [heard, ← h.down]
  decided := by simp [decisions, hdecided, ← h.decided]

theorem Tally.onTrace (h : Tally incoming up down decided conn) (action : Action)
    (hup : Http.Action.written action = []) (hdown : action.heard = [])
    (hdecided : action.decision? = none) :
    Tally incoming up down decided { conn with trace := conn.trace ++ [action] } := by
  have hbehind := h.behind action hup hdecided
  rwa [hdown, List.append_nil] at hbehind

theorem Tally.routed (h : Tally incoming up down decided conn) (routed : Option Routed) :
    Tally incoming up down decided { conn with routed := routed } :=
  ⟨h.incoming, h.up, h.down, h.decided⟩

theorem ensures_tell_tally {word : Word} :
    Script.Ensures wire (Tally incoming up down decided) (tell word bytes)
      (fun _ => Tally incoming up (down ++ bytes) decided)
      fun _ conn => ¬Faultless wire ∧ Fell up decided conn := by
  intro conn h
  simp only [tell, Script.ask, bind, Script.bind, act, Script.modify]
  cases hhears : wire.hears word with
  | none => exact h.behind (.told word bytes none) rfl rfl
  | some lost =>
      refine ⟨fun hfaultless => ?_,
        (h.behind (.told word bytes (some lost)) rfl rfl).fell (List.prefix_refl _)⟩
      rw [hfaultless.hears word] at hhears
      cases hhears

theorem carries_of_none {passage : Passage} (h : passage.failure = none) :
    passage.carries bytes = bytes := by
  simp [Passage.carries, h]

/-- One transfer of bytes to the next hop, and what comes back with it. -/
theorem ensures_transfer_tally (stretch : Stretch) (action : List UInt8 → Action)
    (taken : Connection → List UInt8) (htaken : ∀ conn, conn.incoming = incoming →
      taken conn = bytes)
    (hup : ∀ bytes, Http.Action.written (action bytes) = bytes)
    (hdown : ∀ bytes, (action bytes).heard = whole)
    (hdecided : ∀ bytes, (action bytes).decision? = none) :
    Script.Ensures wire (Tally incoming up down decided)
      (do
        let carried ← Script.ask fun wire conn => (wire.passes stretch).carries (taken conn)
        act (action carried)
        let failure ← Script.ask fun wire _ => (wire.passes stretch).failure
        checked failure)
      (fun _ => Tally incoming (up ++ bytes) (down ++ whole) decided)
      fun _ conn => ¬Faultless wire ∧ Fell (up ++ bytes) decided conn := by
  rintro conn ⟨rfl, rfl, rfl, rfl⟩
  have hwritten (moved : List UInt8) :
      Http.written (conn.trace ++ [action moved]) = Http.written conn.trace ++ moved := by
    simp [Http.written, hup]
  have hdecisions (moved : List UInt8) :
      decisions (conn.trace ++ [action moved]) = decisions conn.trace := by
    simp [decisions, hdecided]
  simp only [Script.ask, bind, Script.bind, act, Script.modify, htaken conn rfl]
  cases hfailure : (wire.passes stretch).failure with
  | none =>
      refine ⟨rfl, ?_, ?_, hdecisions _⟩
      · rw [hwritten, carries_of_none hfailure]
      · simp [heard, hdown]
  | some lost =>
      refine ⟨fun hfaultless => ?_, ?_, hdecisions _⟩
      · rw [hfaultless.passes stretch] at hfailure
        cases hfailure
      · show Http.written _ <+: _
        rw [hwritten]
        exact (List.prefix_append_right_inj _).mpr (Http.carries_prefix _)

theorem ensures_send_tally {stretch : Stretch} :
    Script.Ensures wire (Tally incoming up down decided) (send stretch bytes)
      (fun _ => Tally incoming (up ++ bytes) down decided)
      fun _ conn => ¬Faultless wire ∧ Fell (up ++ bytes) decided conn := by
  have hsent : Script.Ensures wire (Tally incoming up down decided) (send stretch bytes)
      (fun _ => Tally incoming (up ++ bytes) (down ++ []) decided)
      fun _ conn => ¬Faultless wire ∧ Fell (up ++ bytes) decided conn :=
    ensures_transfer_tally stretch .sent (fun _ => bytes) (fun _ _ => rfl) (fun _ => rfl)
      (fun _ => rfl) fun _ => rfl
  rwa [List.append_nil] at hsent

theorem ensures_copy_tally {limit : ℕ} :
    Script.Ensures wire (Tally incoming up down decided) (copy limit)
      (fun _ => Tally incoming (up ++ incoming.take limit) (down ++ wire.answered) decided)
      fun _ conn => ¬Faultless wire ∧ Fell (up ++ incoming.take limit) decided conn := by
  exact ensures_transfer_tally .rest (fun up => .relayed up wire.answered)
    (fun conn => conn.incoming.take limit) (fun conn h => by rw [h]) (fun _ => rfl) (fun _ => rfl)
    fun _ => rfl

theorem ensures_copyBidirectional_tally :
    Script.Ensures wire (Tally incoming up down decided) copyBidirectional
      (fun _ => Tally incoming (up ++ incoming) (down ++ wire.answered) decided)
      fun _ conn => ¬Faultless wire ∧ Fell (up ++ incoming) decided conn := by
  exact ensures_transfer_tally .rest (fun up => .relayed up wire.answered)
    (fun conn => conn.incoming) (fun _ h => h) (fun _ => rfl) (fun _ => rfl) fun _ => rfl

end tally

/-! ### What is carried -/

/-- What the client is told before the next hop's answer is relayed. -/
def Http.opening : Http.Method → List UInt8
  | .connect => Http.established
  | .absolute => []

/-- Carrying brings these bytes up, and tells the client this before what the next hop
answers. -/
def Brings (wire : Wire) (carry : Session Unit) (incoming bytes opening : List UInt8) : Prop :=
  ∀ down decided, Script.Ensures wire (Tally incoming [] down decided) carry
    (fun _ => Tally incoming bytes (down ++ opening ++ wire.answered) decided)
    fun _ conn => ¬Faultless wire ∧ Fell bytes decided conn

section brings

variable {wire : Wire} {incoming : List UInt8}

theorem brings_copyBidirectional : Brings wire copyBidirectional incoming incoming [] := by
  intro down decided
  rw [List.append_nil]
  exact ensures_copyBidirectional_tally

/-- The grant goes out before anything is carried. -/
theorem Brings.granted {carry : Session Unit} {bytes : List UInt8}
    (h : Brings wire carry incoming bytes []) (opening : List UInt8) :
    Brings wire (do tell .granted opening; carry) incoming bytes opening := by
  intro down decided
  have htold : Script.Ensures wire (Tally incoming [] down decided) (tell .granted opening)
      (fun _ => Tally incoming [] (down ++ opening) decided)
      fun _ conn => ¬Faultless wire ∧ Fell bytes decided conn :=
    ensures_tell_tally.weaken (fun _ h => h) (fun _ _ h => h)
      fun _ _ h => ⟨h.1, h.2.mono List.nil_prefix⟩
  refine htold.bind fun _ => ?_
  have hcarried := h (down ++ opening) decided
  rwa [List.append_nil] at hcarried

theorem Socks5.brings_carry :
    Brings wire Socks5.carry incoming incoming (Socks5.answerBytes .granted) :=
  brings_copyBidirectional.granted _

/-- What was read behind the head is carried before what the client has still to say. -/
theorem Http.brings_carry (forward : Http.Forwarded)
    (hhead : forward.method = .connect → forward.head = []) :
    Brings wire (Http.carry forward) incoming (forward.head ++ forward.follows incoming)
      (Http.opening forward.method) := by
  obtain ⟨method, head, behind, rest⟩ := forward
  cases method with
  | connect =>
      obtain rfl : head = [] := hhead rfl
      refine Brings.granted (fun down decided => ?_) Http.established
      have hsent : Script.Ensures wire (Tally incoming [] down decided) (send .behind behind)
          (fun _ => Tally incoming behind down decided)
          fun _ conn => ¬Faultless wire ∧ Fell (behind ++ incoming) decided conn :=
        ensures_send_tally.weaken (fun _ h => h) (fun _ _ h => h)
          fun _ _ h => ⟨h.1, h.2.mono (List.prefix_append _ _)⟩
      rw [List.append_nil]
      exact hsent.bind fun _ => ensures_copyBidirectional_tally
  | absolute =>
      intro down decided
      let whole := head ++ (behind ++ incoming.take rest.limit)
      have hhead : Script.Ensures wire (Tally incoming [] down decided) (send .head head)
          (fun _ => Tally incoming head down decided)
          fun _ conn => ¬Faultless wire ∧ Fell whole decided conn :=
        ensures_send_tally.weaken (fun _ h => h) (fun _ _ h => h)
          fun _ _ h => ⟨h.1, h.2.mono (List.prefix_append _ _)⟩
      have hbehind : Script.Ensures wire (Tally incoming head down decided) (send .behind behind)
          (fun _ => Tally incoming (head ++ behind) down decided)
          fun _ conn => ¬Faultless wire ∧ Fell whole decided conn :=
        ensures_send_tally.weaken (fun _ h => h) (fun _ _ h => h) fun _ _ h =>
          ⟨h.1, h.2.mono ((List.prefix_append_right_inj _).mpr (List.prefix_append _ _))⟩
      have hrest : Script.Ensures wire (Tally incoming (head ++ behind) down decided)
          (copy rest.limit)
          (fun _ => Tally incoming whole (down ++ [] ++ wire.answered) decided)
          fun _ conn => ¬Faultless wire ∧ Fell whole decided conn := by
        rw [List.append_nil]
        have hcopy : Script.Ensures wire (Tally incoming (head ++ behind) down decided)
            (copy rest.limit) _ _ := ensures_copy_tally
        rwa [List.append_assoc] at hcopy
      exact hhead.bind fun _ => hbehind.bind fun _ => hrest

end brings

/-! ### What routing comes to -/

/-- The wire is faultless, the destination is not the front end itself, and the dial
comes through. -/
structure Served [External] (wire : Wire) (hop : NextHop) (host : Host) (port : Port)
    (decision : Decision) : Prop where
  faultless : Faultless wire
  elsewhere : ¬wire.Own host port
  dials : ∃ connect next, timed (hop.dial host port decision).1 wire.took = (connect, .ok next)

section route

variable [External] [SocksText] {ctx : ConnCtx} {wire : Wire} {hop : NextHop} {host : Host}
  {port : Port} {speaks : Bool} {loopAnswer answer : Failure → Session Unit}
  {carry : Session Unit} {relay : Decision → Session Unit}
  {incoming bytes down opening : List UInt8}

omit [External] [SocksText] in
/-- A refusal carries nothing, and it is a failure. -/
theorem Answers.ensures_fell {decided : List (Host × Port × Decision)}
    (hanswer : Answers speaks answer) (failure : Failure) (bytes : List UInt8) :
    Script.Ensures wire (Tally incoming [] down decided)
      (do answer failure; Script.fail failure : Session Unit) (fun _ _ => False)
      fun _ => Fell bytes decided := by
  have hsaid := hanswer failure
  cases speaks with
  | false =>
      rw [show answer failure = pure () from hsaid]
      exact fun conn h => h.fell List.nil_prefix
  | true =>
      obtain ⟨text, htext⟩ := hsaid
      rw [htext]
      have htold : Script.Ensures wire (Tally incoming [] down decided) (tell .refusal text)
          (fun _ => Tally incoming [] (down ++ text) decided) fun _ => Fell bytes decided :=
        ensures_tell_tally.weaken (fun _ h => h) (fun _ _ h => h)
          fun _ _ h => h.2.mono List.nil_prefix
      exact htold.bind fun _ => Script.ensures_fail fun conn h => h.fell List.nil_prefix

omit [External] in
theorem ensures_ended_tally {failure : Option Failure} {up : List UInt8}
    {decided : List (Host × Port × Decision)} :
    Script.Ensures wire (Tally incoming up down decided) (ended failure)
      (fun _ => Tally incoming up down decided) fun _ _ => False := by
  intro conn h
  unfold ended
  cases conn.routed with
  | none => exact h
  | some routed => exact (h.onTrace (.published _) rfl rfl rfl).routed none

omit [External] in
theorem ensures_ended_fell {failure : Option Failure}
    {decided : List (Host × Port × Decision)} :
    Script.Ensures wire (Fell bytes decided) (ended failure)
      (fun _ => Fell bytes decided) fun _ _ => False := by
  intro conn h
  have htally : Tally conn.incoming (Http.written conn.trace) (heard conn.trace) decided conn :=
    ⟨rfl, rfl, rfl, h.decided⟩
  unfold ended
  cases conn.routed with
  | none => exact h
  | some routed =>
      exact ((htally.onTrace (.published _) rfl rfl rfl).routed none).fell h.within

/-- **Routing carries what it was given**, or a beginning of it and fails, which it does
not where nothing is in the way. -/
theorem ensures_route_tally (hloop : Answers speaks loopAnswer) (hanswer : Answers speaks answer)
    (hcarry : Brings wire carry incoming bytes opening)
    (hrelay : ∀ decision, relay decision = relayBy hop host port decision answer carry) :
    Script.Ensures wire (Tally incoming [] down [])
      (route ctx hop host port (refuseLoopBy loopAnswer) relay)
      (fun _ => Tally incoming bytes (down ++ opening ++ wire.answered)
        [(host, port, ctx.rules.decide host port)])
      fun _ conn => ¬Served wire hop host port (ctx.rules.decide host port) ∧
        Fell bytes [(host, port, ctx.rules.decide host port)] conn := by
  let decision := ctx.rules.decide host port
  let decided := [(host, port, decision)]
  have hbegun : Script.Ensures wire (Tally incoming [] down [])
      (begun hop.verdict host port decision) (fun _ => Tally incoming [] down decided)
      fun _ conn => ¬Served wire hop host port decision ∧ Fell bytes decided conn := by
    rintro conn ⟨rfl, hup, rfl, hdecided⟩
    refine ⟨rfl, ?_, ?_, ?_⟩
    · show Http.written (conn.trace ++ _) = []
      rw [Http.written_append, hup]
      rfl
    · show heard (conn.trace ++ _) = _
      rw [heard_append]
      exact List.append_nil _
    · show decisions (conn.trace ++ _) = _
      rw [decisions_append, hdecided]
      rfl
  have hlooped (hown : wire.Own host port) : Script.Ensures wire (Tally incoming [] down decided)
      (refuseLoopBy loopAnswer wire.accepted)
      (fun _ => Tally incoming bytes (down ++ opening ++ wire.answered) decided)
      fun _ conn => ¬Served wire hop host port decision ∧ Fell bytes decided conn := by
    have hdialled : Script.Ensures wire (Tally incoming [] down decided) (dialled .refused)
        (fun _ => Tally incoming [] down decided)
        fun _ conn => ¬Served wire hop host port decision ∧ Fell bytes decided conn :=
      fun conn h => ⟨h.incoming, h.up, h.down, h.decided⟩
    refine hdialled.bind fun _ => (hloop.ensures_fell _ bytes).weaken (fun _ h => h) ?_ ?_
    · exact fun _ _ h => h.elim
    · exact fun _ _ h => ⟨fun hserved => hserved.elsewhere hown, h⟩
  have hrelayed : Script.Ensures wire (Tally incoming [] down decided)
      (relayBy hop host port decision answer carry)
      (fun _ => Tally incoming bytes (down ++ opening ++ wire.answered) decided)
      fun _ conn => ¬Served wire hop host port decision ∧ Fell bytes decided conn := by
    have hdial : Script.Ensures wire (Tally incoming [] down decided)
        (dialNext hop host port decision)
        (fun next conn => (timed (hop.dial host port decision).1 wire.took).2 = next ∧
          Tally incoming [] down decided conn)
        fun _ conn => ¬Served wire hop host port decision ∧ Fell bytes decided conn :=
      fun conn h => ⟨rfl, (h.onTrace (.dialled _ _) rfl rfl rfl).routed _⟩
    refine hdial.bind fun next => Script.ensures_and fun hnext => ?_
    cases next with
    | ok next =>
        refine (hcarry down decided).weaken (fun _ h => h) (fun _ _ h => h) ?_
        exact fun _ _ h => ⟨fun hserved => h.1 hserved.faultless, h.2⟩
    | error failure =>
        refine (hanswer.ensures_fell failure bytes).weaken (fun _ h => h) (fun _ _ h => h.elim) ?_
        refine fun _ _ h => ⟨fun hserved => ?_, h⟩
        obtain ⟨connect, next, htimed⟩ := hserved.dials
        rw [htimed] at hnext
        cases hnext
  have hserved (serve : Loop → Session Unit)
      (hown : serve (.own wire.accepted) = refuseLoopBy loopAnswer wire.accepted)
      (helsewhere : serve .elsewhere = relay decision) :
      Script.Ensures wire (Tally incoming [] down decided) (ownAddress host port >>= serve)
      (fun _ => Tally incoming bytes (down ++ opening ++ wire.answered) decided)
      fun _ conn => ¬Served wire hop host port decision ∧ Fell bytes decided conn := by
    refine (ensures_ownAddress.weaken (fun _ h => h) (fun _ _ h => h) fun _ _ h => h.elim).bind
      fun reached => Script.ensures_and fun hreached => ?_
    rcases hreached with ⟨rfl, hself⟩ | ⟨rfl, _⟩
    · rw [hown]
      exact hlooped hself
    · rw [helsewhere, hrelay]
      exact hrelayed
  refine hbegun.bind fun _ => (hserved _ rfl rfl).settle.bind fun served => ?_
  cases served with
  | ok _ =>
      refine (ensures_ended_tally.weaken (fun _ h => h) (fun _ _ h => h) fun _ _ h => h.elim).bind
        fun _ => Script.ensures_ofExcept (fun _ _ _ h => h) fun _ hok => ?_
      cases hok
  | error failure =>
      have hended : Script.Ensures wire
          (fun conn => ¬Served wire hop host port decision ∧ Fell bytes decided conn)
          (ended (some failure))
          (fun _ conn => ¬Served wire hop host port decision ∧ Fell bytes decided conn)
          fun _ conn => ¬Served wire hop host port decision ∧ Fell bytes decided conn :=
        Script.ensures_and fun hserved => ensures_ended_fell.weaken (fun _ h => h)
          (fun _ _ h => ⟨hserved, h⟩) fun _ _ h => h.elim
      refine hended.bind fun _ => Script.ensures_ofExcept (fun _ hok => ?_) fun _ _ _ h => h
      cases hok

end route

/-! ### Reading with reads that fail -/

/-- The wire, on which a read that fails finds a byte instead. -/
def steadied (wire : Wire) : Wire :=
  Http.cutInto (fun n => ((wire.reads n).toOption).getD 1) wire

theorem steady_steadied (wire : Wire) : Steady (steadied wire) := fun _ => ⟨_, rfl⟩

theorem steadied_of_steady {wire : Wire} (h : Steady wire) : steadied wire = wire := by
  have hreads : (fun n => Except.ok (((wire.reads n).toOption).getD 1)) = wire.reads := by
    funext n
    obtain ⟨size, hsize⟩ := h n
    rw [hsize]
    rfl
  unfold steadied Http.cutInto
  rw [hreads]

/-- A run that returns met no read that fails. -/
def Patient {α : Type} (p : Session α) : Prop :=
  ∀ wire conn a conn', p wire conn = (.ok a, conn') → p (steadied wire) conn = (.ok a, conn')

section patient

variable {α β : Type} {p : Session α} {f : α → Session β}

theorem patient_pure (a : α) : Patient (pure a : Session α) := fun _ _ _ _ h => h

theorem Patient.bind (hp : Patient p) (hf : ∀ a, Patient (f a)) : Patient (p >>= f) := by
  intro wire conn b conn' h
  rcases hfirst : p wire conn with ⟨e | a, between⟩
  · rw [Script.bind_of_error hfirst] at h
    cases (Prod.mk.inj h).1
  · rw [Script.bind_of_ok hfirst] at h
    rw [Script.bind_of_ok (hp wire conn a between hfirst)]
    exact hf a wire between b conn' h

theorem patient_readExact (size : ℕ) : Patient (readExact size) := by
  intro wire conn bytes conn' h
  by_cases hnone : size = 0
  · simpa only [readExact, if_pos hnone] using h
  · simp only [readExact, if_neg hnone] at h ⊢
    cases hread : wire.reads conn.reads with
    | error failure =>
        rw [hread] at h
        cases (Prod.mk.inj h).1
    | ok found =>
        rw [hread] at h
        exact h

theorem patient_read (space : ℕ) : Patient (read space) := by
  intro wire conn bytes conn' h
  simp only [read] at h ⊢
  cases hread : wire.reads conn.reads with
  | error failure =>
      rw [hread] at h
      cases (Prod.mk.inj h).1
  | ok found =>
      rw [hread] at h
      simpa only [steadied, Http.cutInto, hread, Except.toOption, Option.getD_some] using h

theorem Socks5.patient_greet : Patient Socks5.greet := by
  refine (patient_readExact 2).bind fun greeting => ?_
  split_ifs
  · exact patient_pure _
  · exact (patient_readExact _).bind fun _ => patient_pure _

theorem Socks5.patient_destination (atyp : UInt8) : Patient (Socks5.destination atyp) := by
  unfold Socks5.destination
  split_ifs
  · exact (patient_readExact 4).bind fun _ => patient_pure _
  · exact (patient_readExact 1).bind fun _ => (patient_readExact _).bind fun _ => patient_pure _
  · exact (patient_readExact 16).bind fun _ => patient_pure _
  · exact patient_pure _

theorem Socks5.patient_request : Patient Socks5.request := by
  refine (patient_readExact 4).bind fun head => ?_
  split_ifs
  · exact patient_pure _
  · exact patient_pure _
  · refine (Socks5.patient_destination _).bind fun named => ?_
    cases named with
    | error reply => exact patient_pure _
    | ok host => exact (patient_readExact 2).bind fun _ => patient_pure _

/-- The induction is on the rounds. -/
theorem Http.patient_readHeadWithin (rounds : ℕ) (buffer : List UInt8) :
    Patient (Http.readHeadWithin rounds buffer) := by
  induction rounds generalizing buffer with
  | zero => exact patient_pure none
  | succ rounds ih =>
      unfold Http.readHeadWithin
      split_ifs
      · exact patient_pure none
      · refine (patient_read _).bind fun taken => ?_
        split_ifs
        · exact patient_pure none
        · cases Http.headEnd (buffer ++ taken) with
          | none => exact ih _
          | some last => exact patient_pure _

/-- **What an exact reader takes**, whatever reads fail: a message if it returns one, and
it fails on none unless a read does. -/
theorem Exact.ensures {shape : List UInt8 → α → Prop} {wire : Wire} {trace : List Action}
    (hp : Exact p shape) (hpatient : Patient p)
    (hkeeps : Script.Ensures wire (Stands trace none) p (fun _ => Stands trace none)
      fun _ => Stands trace none) (before stream : List UInt8) :
    Script.Ensures wire
      (fun conn => before ++ conn.incoming = stream ∧ Stands trace none conn) p
      (fun a conn => ∃ bytes, shape bytes a ∧ (before ++ bytes) ++ conn.incoming = stream ∧
        Stands trace none conn)
      fun _ conn => ∃ behind, before ++ behind = stream ∧
        (∀ bytes rest a, shape bytes a → behind = bytes ++ rest → ¬Steady wire) ∧
        Stands trace none conn := by
  rintro conn ⟨rfl, hstands⟩
  have hkept := hkeeps conn hstands
  rcases hrun : p wire conn with ⟨e | a, conn'⟩
  · rw [hrun] at hkept
    refine ⟨conn.incoming, rfl, ?_, hkept⟩
    intro bytes rest a hshape hstream hsteady
    obtain ⟨reads, hok⟩ := hp.yields bytes a hshape wire hsteady conn rest hstream
    rw [hrun] at hok
    cases (Prod.mk.inj hok).1
  · rw [hrun] at hkept
    have hsteadied := hpatient wire conn a conn' hrun
    rcases hp.complete conn.incoming with ⟨bytes, rest, b, hstream, hshape⟩ | ⟨hstarves, _⟩
    · obtain ⟨reads, hok⟩ :=
        hp.yields bytes b hshape _ (steady_steadied wire) conn rest hstream
      obtain ⟨hvalue, hconn⟩ := Prod.mk.inj (hsteadied.symm.trans hok)
      obtain rfl : a = b := Except.ok.inj hvalue
      refine ⟨bytes, hshape, ?_, hkept⟩
      rw [hconn, List.append_assoc, hstream]
    · obtain ⟨reads, hfails⟩ := hstarves _ (steady_steadied wire) conn rfl
      rw [hfails] at hsteadied
      cases (Prod.mk.inj hsteadied).1

end patient

/-! ### What a front end is asked for -/

/-- The stream asks the front end for a destination. These bytes of it belong to the next
hop, and this is what the client is told first. -/
inductive FrontEnd.Asks [External] (stream : List UInt8) :
    FrontEnd → Host → Port → List UInt8 → List UInt8 → Prop
  | forward (target : Target) : Asks stream (.forward target) target.host target.port stream []
  | socks5 (methods : Socks5.Methods) (hmethods : Socks5.noAuth ∈ methods.offered)
      (reserved : UInt8) (destination : Socks5.Destination) (port : Port) (rest : List UInt8)
      (hstream : stream = Socks5.greetingBytes methods ++
        Socks5.requestBytes reserved destination port ++ rest) :
      Asks stream .socks5 destination.host port rest
        ([Socks5.version, Socks5.noAuth] ++ Socks5.answerBytes .granted)
  | http (method : Http.Method) (host : Host) (port : Port) (head bytes : List UInt8)
      (houtcome : Http.outcomeOf stream = .request method host port head bytes) :
      Asks stream .http host port (head ++ bytes) (Http.opening method)

/-- What became of what a front end was asked for: nothing went up, or all of it did, or a
beginning of it and the connection failed. -/
inductive FrontEnd.Conveyed [External] (ctx : ConnCtx) (wire : Wire) (hop : NextHop)
    (frontEnd : FrontEnd) (stream : List UInt8) : Option Failure → Connection → Prop
  | quiet {failure : Option Failure} {conn : Connection} (hup : Http.written conn.trace = [])
      (hdecided : decisions conn.trace = [])
      (hunasked : ∀ host port bytes opening, Asks stream frontEnd host port bytes opening →
        failure ≠ none ∧ ¬Faultless wire) :
      Conveyed ctx wire hop frontEnd stream failure conn
  | carried {conn : Connection} {incoming bytes opening : List UInt8} {host : Host} {port : Port}
      (hasks : Asks stream frontEnd host port bytes opening)
      (h : Tally incoming bytes (opening ++ wire.answered)
        [(host, port, ctx.rules.decide host port)] conn) :
      Conveyed ctx wire hop frontEnd stream none conn
  | fell {failure : Failure} {conn : Connection} {bytes opening : List UInt8} {host : Host}
      {port : Port} (hasks : Asks stream frontEnd host port bytes opening)
      (hunserved : ¬Served wire hop host port (ctx.rules.decide host port))
      (h : Fell bytes [(host, port, ctx.rules.decide host port)] conn) :
      Conveyed ctx wire hop frontEnd stream (some failure) conn

section conveyed

variable [External] [SocksText] {ctx : ConnCtx} {wire : Wire} {hop : NextHop}
  {stream : List UInt8}

/-- What is routed is conveyed. -/
theorem ensures_route_conveyed {frontEnd : FrontEnd} {host : Host} {port : Port} {speaks : Bool}
    {loopAnswer answer : Failure → Session Unit} {carry : Session Unit}
    {relay : Decision → Session Unit} {incoming bytes down opening : List UInt8}
    (hloop : Answers speaks loopAnswer) (hanswer : Answers speaks answer)
    (hcarry : Brings wire carry incoming bytes opening)
    (hrelay : ∀ decision, relay decision = relayBy hop host port decision answer carry)
    (hasks : frontEnd.Asks stream host port bytes (down ++ opening)) :
    Script.Ensures wire (Tally incoming [] down [])
      (route ctx hop host port (refuseLoopBy loopAnswer) relay)
      (fun _ => frontEnd.Conveyed ctx wire hop stream none)
      fun e => frontEnd.Conveyed ctx wire hop stream (some e) :=
  (ensures_route_tally hloop hanswer hcarry hrelay).weaken (fun _ h => h)
    (fun _ _ h => .carried hasks h) fun _ _ h => .fell hasks h.1 h.2

theorem Forward.conveyed (target : Target) :
    Script.Ensures wire (Tally stream [] [] []) (Forward.serve ctx hop target)
      (fun _ => (FrontEnd.forward target).Conveyed ctx wire hop stream none)
      fun e => (FrontEnd.forward target).Conveyed ctx wire hop stream (some e) := by
  have hmute : Answers false fun _ => pure () := fun _ => rfl
  exact ensures_route_conveyed hmute hmute brings_copyBidirectional (fun _ => rfl)
    (.forward target)

omit [SocksText] in
theorem quiet_of_trace {frontEnd : FrontEnd} {failure : Option Failure} {conn : Connection}
    {trace : List Action} (htrace : conn.trace = trace)
    (hup : Http.written trace = []) (hdecided : decisions trace = [])
    (hunasked : ∀ host port bytes opening, frontEnd.Asks stream host port bytes opening →
      failure ≠ none ∧ ¬Faultless wire) :
    frontEnd.Conveyed ctx wire hop stream failure conn := by
  subst htrace
  exact .quiet hup hdecided hunasked

omit [SocksText] in
/-- The last word to a client that asked for nothing. -/
theorem ensures_tell_quiet {frontEnd : FrontEnd} {word : Word} {text : List UInt8}
    {trace : List Action} (hup : Http.written trace = []) (hdecided : decisions trace = [])
    (hunasked : ∀ host port bytes opening, ¬frontEnd.Asks stream host port bytes opening) :
    Script.Ensures wire (Stands trace none) (tell word text)
      (fun _ => frontEnd.Conveyed ctx wire hop stream none)
      fun e => frontEnd.Conveyed ctx wire hop stream (some e) := by
  have hquiet (failure : Option Failure) (lost : Option OsError) (conn : Connection)
      (h : conn.trace = trace ++ [.told word text lost]) :
      frontEnd.Conveyed ctx wire hop stream failure conn := by
    refine quiet_of_trace h ?_ ?_ fun host port bytes opening hasks =>
      absurd hasks (hunasked host port bytes opening)
    · rw [Http.written_append, hup]
      rfl
    · rw [decisions_append, hdecided]
      rfl
  refine ensures_tell.weaken (fun _ h => h) (fun _ conn h => hquiet _ _ conn h.2.1) ?_
  rintro e conn ⟨lost, _, _, htrace, _⟩
  exact hquiet _ _ conn htrace

end conveyed

/-! ### The SOCKS5 front end -/

namespace Socks5

variable [External]

theorem encodes_of_asks {stream bytes opening : List UInt8} {host : Host} {port : Port}
    (h : FrontEnd.socks5.Asks stream host port bytes opening) :
    ∃ before more, stream = before ++ more ++ bytes ∧ Opening before .noAuth ∧
      Asking more (.connect host port) := by
  cases h with
  | socks5 methods hmethods reserved destination port rest hstream =>
      exact ⟨_, _, hstream, .noAuth methods hmethods, .connect reserved destination port⟩

theorem asks_of_encodes {stream before more rest : List UInt8} {host : Host} {port : Port}
    (hopening : Opening before .noAuth) (hasking : Asking more (.connect host port))
    (hstream : before ++ more ++ rest = stream) :
    FrontEnd.socks5.Asks stream host port rest ([version, noAuth] ++ answerBytes .granted) := by
  generalize hgreeting : Greeting.noAuth = greeting at hopening
  generalize hasked : Requested.connect host port = asked at hasking
  cases hopening with
  | noAuth methods hno =>
      cases hasking with
      | connect reserved destination port =>
          cases hasked
          exact .socks5 methods hno reserved destination port rest hstream.symm
      | otherVersion => cases hasked
      | otherCommand => cases hasked
      | unnamed => cases hasked
  | _ => cases hgreeting

variable {ctx : ConnCtx} {wire : Wire} {hop : NextHop} {stream : List UInt8}

theorem ensures_chosen_noAuth {before : List UInt8} :
    Script.Ensures wire (fun conn => before ++ conn.incoming = stream ∧ Stands [] none conn)
      (chosen noAuth)
      (fun _ conn => before ++ conn.incoming = stream ∧
        Stands [.told .chosen [version, noAuth] none] none conn)
      fun e => FrontEnd.socks5.Conveyed ctx wire hop stream (some e) := by
  rintro conn ⟨hstream, htrace, hrouted⟩
  simp only [chosen, tell, Script.ask, bind, Script.bind, act, Script.modify, htrace]
  cases hhears : wire.hears .chosen with
  | none => exact ⟨hstream, rfl, hrouted⟩
  | some lost =>
      refine .quiet rfl rfl fun _ _ _ _ _ => ⟨?_, fun hfaultless => ?_⟩
      · rintro ⟨⟩
      · rw [hfaultless.hears] at hhears
        cases hhears

variable [SocksText]

/-- **What a SOCKS5 client asks for is conveyed.** -/
theorem conveyed : Script.Ensures wire
    (fun conn => [] ++ conn.incoming = stream ∧ Stands [] none conn) (serve ctx hop)
    (fun _ => FrontEnd.socks5.Conveyed ctx wire hop stream none)
    fun e => FrontEnd.socks5.Conveyed ctx wire hop stream (some e) := by
  refine ((exact_greet.ensures patient_greet ensures_greet [] stream).weaken (fun _ h => h)
    (fun _ _ h => h) ?_).bind fun greeting => Script.ensures_exists fun before =>
      Script.ensures_and fun hopening => ?_
  · rintro e conn ⟨behind, hstream, hnone, htrace, _⟩
    refine quiet_of_trace htrace rfl rfl fun host port bytes opening hasks => ⟨nofun, ?_⟩
    obtain ⟨before, more, rfl, hopening, _⟩ := encodes_of_asks hasks
    exact fun hfaultless => hnone before (more ++ bytes) .noAuth hopening
      (hstream.trans (List.append_assoc ..)) hfaultless.steady
  cases greeting with
  | rejected =>
      rintro conn ⟨hstream, hstands⟩
      refine ensures_tell_quiet rfl rfl (fun host port bytes opening hasks => ?_) conn hstands
      obtain ⟨before', more, rfl, hopening', _⟩ := encodes_of_asks hasks
      obtain ⟨_, _, hsame⟩ := exact_greet.unique hopening hopening'
        (hstream.trans (List.append_assoc ..))
      cases hsame
  | noAuth =>
      refine ensures_chosen_noAuth.bind fun _ => ?_
      have hkeeps : Script.Ensures wire (Stands [.told .chosen [version, noAuth] none] none)
          request (fun _ => Stands [.told .chosen [version, noAuth] none] none)
          fun _ => Stands [.told .chosen [version, noAuth] none] none :=
        ensures_request.weaken (fun _ h => h) (fun _ _ h => h.2) fun _ _ h => h
      refine ((exact_request.ensures patient_request hkeeps before stream).weaken (fun _ h => h)
        (fun _ _ h => h) ?_).bind fun asked => Script.ensures_exists fun more =>
          Script.ensures_and fun hasking => ?_
      · rintro e conn ⟨behind, hstream, hnone, htrace, _⟩
        refine quiet_of_trace htrace rfl rfl fun host port bytes opening hasks => ⟨nofun, ?_⟩
        obtain ⟨before', more, rfl, hopening', hasking⟩ := encodes_of_asks hasks
        rw [List.append_assoc] at hstream
        obtain ⟨_, hrest, _⟩ := exact_greet.unique hopening hopening' hstream
        exact fun hfaultless => hnone more bytes _ hasking hrest hfaultless.steady
      cases asked with
      | refused reply =>
          rintro conn ⟨hstream, hstands⟩
          refine ensures_tell_quiet rfl rfl (fun host port bytes opening hasks => ?_) conn hstands
          obtain ⟨before', more', rfl, hopening', hasking'⟩ := encodes_of_asks hasks
          rw [List.append_assoc, List.append_assoc] at hstream
          obtain ⟨_, hrest, _⟩ := exact_greet.unique hopening hopening' hstream
          obtain ⟨_, _, hsame⟩ := exact_request.unique hasking hasking' hrest
          cases hsame
      | connect host port =>
          rintro conn ⟨hstream, htrace, _⟩
          have hloop : Answers true fun _ => answer .notAllowed := fun _ => ⟨_, rfl⟩
          have hanswer : Answers true fun failure => answer (refusal failure) := fun failure =>
            ⟨_, answer_eq_tell (refusal_ne_granted failure)⟩
          have htally : Tally conn.incoming [] [version, noAuth] [] conn :=
            ⟨rfl, by rw [htrace]; rfl, by rw [htrace]; rfl, by rw [htrace]; rfl⟩
          exact ensures_route_conveyed hloop hanswer brings_carry (fun _ => rfl)
            (asks_of_encodes hopening hasking hstream) conn htally

end Socks5

/-! ### The HTTP front end -/

namespace Http

variable [External] {ctx : ConnCtx} {wire : Wire} {hop : NextHop} {stream : List UInt8}

theorem outcomeOf_of_asks {bytes opening : List UInt8} {host : Host} {port : Port}
    (h : FrontEnd.http.Asks stream host port bytes opening) :
    ∃ method head body, outcomeOf stream = .request method host port head body := by
  cases h with
  | http method host port head bytes houtcome => exact ⟨method, head, bytes, houtcome⟩

omit [External] in
theorem found_of_readHead {found : Option Head} {conn : Connection}
    (hread : readHead wire (.accepted stream) = (.ok found, conn)) : Found stream found conn := by
  have hsteadied : readHead (steadied wire) (.accepted stream) = (.ok found, conn) :=
    patient_readHeadWithin _ _ _ _ _ _ hread
  obtain ⟨found', conn', hread', hfound⟩ :=
    @readHead_cut wire (fun n => ((wire.reads n).toOption).getD 1) stream
  obtain ⟨hvalue, rfl⟩ := Prod.mk.inj (hsteadied.symm.trans hread')
  obtain rfl : found = found' := Except.ok.inj hvalue
  exact hfound

omit [External] in
theorem readHead_of_steady (hsteady : Steady wire) :
    ∃ found conn, readHead wire (.accepted stream) = (.ok found, conn) := by
  obtain ⟨found, conn, hread, _⟩ :=
    @readHead_cut wire (fun n => ((wire.reads n).toOption).getD 1) stream
  rw [show cutInto _ wire = wire from steadied_of_steady hsteady] at hread
  exact ⟨found, conn, hread⟩

omit [External] in
theorem ensures_readHead : Script.Ensures wire (fun conn => conn = .accepted stream) readHead
    (fun found conn => Found stream found conn)
    fun _ conn => conn.trace = [] ∧ ¬Steady wire := by
  rintro _ rfl
  have hkept : Script.Ensures wire (Stands [] none) readHead (fun _ => Stands [] none)
      fun _ => Stands [] none := ensures_readHeadWithin
  have hstands := hkept (.accepted stream) ⟨rfl, rfl⟩
  rcases hread : readHead wire (.accepted stream) with ⟨e | found, conn⟩
  · rw [hread] at hstands
    refine ⟨hstands.1, fun hsteady => ?_⟩
    obtain ⟨found, conn', hok⟩ := @readHead_of_steady wire stream hsteady
    rw [hread] at hok
    cases (Prod.mk.inj hok).1
  · exact found_of_readHead hread

omit [External] in
theorem outcomeOf_of_none {conn : Connection} (h : Found stream none conn) :
    outcomeOf stream = .closed := by
  unfold outcomeOf
  cases hend : headEnd stream with
  | none => rfl
  | some last => simp only [if_pos (h.1 last hend)]

omit [External] in
/-- What the stream comes to is computed from the head that was found. -/
theorem outcomeOf_of_found {buffer : List UInt8} {last : ℕ} {conn : Connection}
    (h : Found stream (some ⟨buffer, last⟩) conn) :
    headEnd stream = some last ∧ ¬headLimit < last ∧ stream.take last = buffer.take last ∧
      buffer.drop last ++ conn.incoming = stream.drop last := by
  obtain ⟨hend, hroom, hstream, _, _⟩ := h
  obtain ⟨hlast, hle⟩ := headEnd_append conn.incoming hend
  rw [hstream] at hlast
  have hle : last ≤ buffer.length := hle
  have hroom : buffer.length ≤ headLimit := hroom
  refine ⟨hlast, by omega, ?_, ?_⟩
  · rw [← hstream, List.take_append_of_le_length hle]
  · rw [← hstream, List.drop_append_of_le_length hle]

theorem unasked_of_outcomeOf (h : ∀ method host port head body,
    outcomeOf stream ≠ .request method host port head body) (host : Host) (port : Port)
    (bytes opening : List UInt8) : ¬FrontEnd.http.Asks stream host port bytes opening := by
  intro hasks
  obtain ⟨method, head, body, houtcome⟩ := outcomeOf_of_asks hasks
  exact h method host port head body houtcome

variable [SocksText]

/-- **What an HTTP client asks for is conveyed.** -/
theorem conveyed (hcounted : Counted stream) : Script.Ensures wire
    (fun conn => conn = .accepted stream) (serve ctx hop)
    (fun _ => FrontEnd.http.Conveyed ctx wire hop stream none)
    fun e => FrontEnd.http.Conveyed ctx wire hop stream (some e) := by
  refine (ensures_readHead.weaken (fun _ h => h) (fun _ _ h => h) ?_).bind fun found => ?_
  · rintro e conn ⟨htrace, hunsteady⟩
    exact quiet_of_trace htrace rfl rfl fun _ _ _ _ _ => ⟨nofun, fun h => hunsteady h.steady⟩
  cases found with
  | none =>
      refine Script.ensures_pure fun conn hfound => ?_
      refine quiet_of_trace hfound.2 rfl rfl fun host port bytes opening hasks => ?_
      refine absurd hasks (unasked_of_outcomeOf (fun _ _ _ _ _ => ?_) host port bytes opening)
      rw [outcomeOf_of_none hfound]
      nofun
  | some found =>
      obtain ⟨buffer, last⟩ := found
      rintro conn hfound
      obtain ⟨hlast, hlimit, htake, hdrop⟩ := outcomeOf_of_found hfound
      obtain ⟨_, _, _, hrouted, htrace⟩ := hfound
      have hmalformed (hnone : outcomeOf stream = .malformed) :
          Script.Ensures wire (Stands [] none) (respond badRequest "nhop: malformed request")
          (fun _ => FrontEnd.http.Conveyed ctx wire hop stream none)
          fun e => FrontEnd.http.Conveyed ctx wire hop stream (some e) :=
        ensures_tell_quiet rfl rfl (unasked_of_outcomeOf fun _ _ _ _ _ => by rw [hnone]; nofun)
      dsimp only
      cases hparse : parseHead (buffer.take last) with
      | none =>
          refine hmalformed ?_ conn ⟨htrace, hrouted⟩
          simp only [outcomeOf, hlast, if_neg hlimit, htake, hparse]
      | some request =>
          obtain ⟨method, host, port, body⟩ := request
          dsimp only
          cases hrebuilt : rebuilt method (buffer.take last) host port with
          | none =>
              refine hmalformed ?_ conn ⟨htrace, hrouted⟩
              simp only [outcomeOf, hlast, if_neg hlimit, htake, hparse, hrebuilt]
          | some head =>
              have houtcome : outcomeOf stream = .request method host port head
                  (bodyWithin method body (stream.drop last)) := by
                simp only [outcomeOf, hlast, if_neg hlimit, htake, hparse, hrebuilt]
              have hloop : Answers true fun refused => respond badGateway refused.display :=
                fun _ => ⟨_, rfl⟩
              have htally : Tally conn.incoming [] [] [] conn :=
                ⟨rfl, by rw [htrace]; rfl, by rw [htrace]; rfl, by rw [htrace]; rfl⟩
              refine ensures_route_conveyed hloop (refuse_eq_tell host port)
                (brings_carry ⟨method, head, behindTheHead (buffer.drop last) method body,
                  restOfBody method body (behindTheHead (buffer.drop last) method body)⟩ ?_)
                (fun _ => rfl) ?_ conn htally
              · rintro rfl
                exact (Option.some.inj hrebuilt).symm
              · rw [follows_eq hdrop ?_]
                · exact .http method host port head _ houtcome
                · rintro rfl rfl
                  exact hcounted last host port hlast (htake.symm ▸ hparse)

end Http

/-! ### Every front end -/

namespace FrontEnd

section serve

variable [External] {stream : List UInt8} {frontEnd : FrontEnd}

theorem opening_of_asks {host : Host} {port : Port} {bytes opening : List UInt8}
    (h : FrontEnd.socks5.Asks stream host port bytes opening) :
    opening = [Socks5.version, Socks5.noAuth] ++ Socks5.answerBytes .granted := by
  cases h with
  | socks5 methods hmethods reserved destination port rest hstream => rfl

/-- A stream asks for one thing only. -/
theorem asks_unique {host host' : Host} {port port' : Port}
    {bytes bytes' opening opening' : List UInt8}
    (h : frontEnd.Asks stream host port bytes opening)
    (h' : frontEnd.Asks stream host' port' bytes' opening') :
    host = host' ∧ port = port' ∧ bytes = bytes' ∧ opening = opening' := by
  cases frontEnd with
  | forward target =>
      cases h
      cases h'
      exact ⟨rfl, rfl, rfl, rfl⟩
  | socks5 =>
      obtain ⟨before, more, rfl, hopening, hasking⟩ := Socks5.encodes_of_asks h
      obtain ⟨before', more', hstream, hopening', hasking'⟩ := Socks5.encodes_of_asks h'
      rw [List.append_assoc, List.append_assoc] at hstream
      obtain ⟨_, hrest, _⟩ := Socks5.exact_greet.unique hopening hopening' hstream
      obtain ⟨_, hbytes, hasked⟩ := Socks5.exact_request.unique hasking hasking' hrest
      cases hasked
      exact ⟨rfl, rfl, hbytes, (opening_of_asks h).trans (opening_of_asks h').symm⟩
  | http =>
      cases h with
      | http method _ _ head body houtcome =>
          cases h' with
          | http method' _ _ head' body' houtcome' =>
              rw [houtcome] at houtcome'
              cases houtcome'
              exact ⟨rfl, rfl, rfl, rfl⟩

variable [SocksText] {ctx : ConnCtx} {wire : Wire} {hop : NextHop}

/-- What any front end is asked for is conveyed. -/
theorem serve_conveyed (hcounted : frontEnd = .http → Http.Counted stream) :
    frontEnd.Conveyed ctx wire hop stream
      (failureOf (frontEnd.serve ctx hop wire (.accepted stream)).1)
      (frontEnd.serve ctx hop wire (.accepted stream)).2 := by
  have hserve : Script.Ensures wire (fun conn => conn = .accepted stream)
      (frontEnd.serve ctx hop) (fun _ => frontEnd.Conveyed ctx wire hop stream none)
      fun e => frontEnd.Conveyed ctx wire hop stream (some e) := by
    cases frontEnd with
    | http => exact Http.conveyed (hcounted rfl)
    | socks5 => exact Socks5.conveyed.pre fun conn h => by subst h; exact ⟨rfl, rfl, rfl⟩
    | forward target =>
        exact (Forward.conveyed target).pre fun conn h => by subst h; exact ⟨rfl, rfl, rfl, rfl⟩
  have hran := hserve (.accepted stream) rfl
  rcases hrun : frontEnd.serve ctx hop wire (.accepted stream) with ⟨e | _, conn⟩
  · rw [hrun] at hran
    exact hran
  · rw [hrun] at hran
    exact hran

/-- **Every front end is transparent.** Whatever reads, writes and transfers fail, only a
beginning of the bytes behind the request goes up, behind the one decision made about
it. A connection that asked for a destination and ended well brought all of these
bytes up and all that was answered down, and it does end well where nothing is in the
way. -/
theorem transparent (frontEnd : FrontEnd) (ctx : ConnCtx) (wire : Wire) (hop : NextHop)
    (stream : List UInt8) (hcounted : frontEnd = .http → Http.Counted stream) :
    let run := frontEnd.serve ctx hop wire (.accepted stream)
    (Http.written run.2.trace ≠ [] → ∃ host port bytes opening,
      frontEnd.Asks stream host port bytes opening ∧ Http.written run.2.trace <+: bytes ∧
        decisions run.2.trace = [(host, port, ctx.rules.decide host port)]) ∧
    ∀ host port bytes opening, frontEnd.Asks stream host port bytes opening →
      (run.1 = .ok () → Http.written run.2.trace = bytes ∧
        heard run.2.trace = opening ++ wire.answered ∧
        decisions run.2.trace = [(host, port, ctx.rules.decide host port)]) ∧
      (Served wire hop host port (ctx.rules.decide host port) → run.1 = .ok ()) := by
  intro run
  have hconveyed : frontEnd.Conveyed ctx wire hop stream (failureOf run.1) run.2 :=
    serve_conveyed hcounted
  generalize hfailure : failureOf run.1 = failure at hconveyed
  have hok : run.1 = .ok () ↔ failure = none := by
    rw [← hfailure]
    cases run.1 with
    | ok _ => simp [failureOf]
    | error e => simp [failureOf]
  rw [hok]
  cases hconveyed with
  | quiet hup hdecided hunasked =>
      refine ⟨fun hsome => absurd hup hsome, fun host port bytes opening hasks => ?_⟩
      obtain ⟨hfails, hfaulty⟩ := hunasked host port bytes opening hasks
      exact ⟨fun hnone => absurd hnone hfails, fun hserved => absurd hserved.faultless hfaulty⟩
  | carried hasks h =>
      refine ⟨fun _ => ⟨_, _, _, _, hasks, h.up ▸ List.prefix_refl _, h.decided⟩, ?_⟩
      intro host port bytes opening hasks'
      obtain ⟨rfl, rfl, rfl, rfl⟩ := asks_unique hasks hasks'
      exact ⟨fun _ => ⟨h.up, h.down, h.decided⟩, fun _ => rfl⟩
  | fell hasks hunserved h =>
      refine ⟨fun _ => ⟨_, _, _, _, hasks, h.within, h.decided⟩, ?_⟩
      intro host port bytes opening hasks'
      obtain ⟨rfl, rfl, rfl, rfl⟩ := asks_unique hasks hasks'
      exact ⟨nofun, fun hserved => absurd hserved hunserved⟩

end serve

/-- A SOCKS5 client that asks for `"a.b"`: its first byte behind the request goes up. -/
theorem transparent_asking :
    let run := @FrontEnd.serve .ascii .silent .socks5 ⟨Rules.Ruleset.empty⟩
      (upstreamHop openNetwork 0 .unconfigured .unconfigured) (.smooth (.v4 0x7f000001#32 7891))
      (.accepted Socks5.asking)
    run.1 = .ok () ∧ Http.written run.2.trace = [0x16] ∧
      heard run.2.trace = [5, 0] ++ [5, 0, 0, 1, 0, 0, 0, 0, 0, 0] := by
  intro run
  obtain ⟨_, hasked⟩ := @transparent .ascii .silent .socks5 ⟨Rules.Ruleset.empty⟩
    (.smooth (.v4 0x7f000001#32 7891)) (upstreamHop openNetwork 0 .unconfigured .unconfigured)
    Socks5.asking nofun
  obtain ⟨hserved, hends⟩ := hasked ⟨"a.b"⟩ 443 [0x16] _
    (@Asks.socks5 .ascii Socks5.asking ⟨[2, 0], by decide⟩ (by decide) 0
      (.domain ⟨"a.b", by decide, by decide⟩) 443 [0x16] (by decide))
  have helsewhere : ¬@Wire.Own .ascii (.smooth (.v4 0x7f000001#32 7891)) ⟨"a.b"⟩ 443 := by
    decide +kernel
  have hok : run.1 = .ok () :=
    hends (@Served.mk .ascii _ _ _ _ _ (faultless_smooth _) helsewhere ⟨_, _, rfl⟩)
  obtain ⟨hup, hdown, _⟩ := hserved hok
  exact ⟨hok, hup, hdown⟩

end FrontEnd

end Nhop.Proxy
