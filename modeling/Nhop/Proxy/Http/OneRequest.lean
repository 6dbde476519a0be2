import Nhop.Proxy.Course
import Nhop.Proxy.Http.Framing
import Nhop.Proxy.Http.Serve

/-!
How much of a client's stream reaches the next hop of its request.

The head is followed by the body and, on a connection the client pipelines on, by
whatever comes next. A body with a length is cut where it ends, however much of
it was read with the head. A chunked one is not looked into: everything the
client sends goes to the next hop of the first request, up to the count a copy
ends at.
-/

namespace Nhop.Proxy.Http

open Foundation Ipc Rules Nhop.Upstream

/-! ### What is written to the next hop -/

def Action.written : Action → List UInt8
  | .sent bytes => bytes
  | .relayed up _ => up
  | .told _ _ _ | .decided _ _ _ | .dialled _ _ | .published _ => []

/-- The bytes a trace writes to the next hop. -/
def written (trace : List Action) : List UInt8 := trace.flatMap Action.written

/-- This was written, and the client has this still to say. -/
def Wrote (bytes incoming : List UInt8) (conn : Connection) : Prop :=
  conn.incoming = incoming ∧ written conn.trace = bytes

/-- What was written is a beginning of these bytes. -/
def WritesWithin (bytes : List UInt8) (conn : Connection) : Prop :=
  written conn.trace <+: bytes

section written

variable {wire : Wire} {incoming before bytes : List UInt8} {conn : Connection}

theorem written_append (trace more : List Action) :
    written (trace ++ more) = written trace ++ written more := List.flatMap_append

theorem Wrote.within (h : Wrote before incoming conn) (hbytes : before <+: bytes) :
    WritesWithin bytes conn := by
  unfold WritesWithin
  rw [h.2]
  exact hbytes

theorem carries_prefix (passage : Passage) : passage.carries bytes <+: bytes := by
  unfold Passage.carries
  cases passage.failure with
  | none => exact List.prefix_refl _
  | some _ => exact List.take_prefix _ _

theorem ensures_tell_wrote {word : Word} {text : List UInt8} :
    Script.Ensures wire (Wrote before incoming) (tell word text)
      (fun _ => Wrote before incoming) fun _ => Wrote before incoming := by
  rintro conn ⟨rfl, rfl⟩
  have hsame (lost : Option OsError) :
      written (conn.trace ++ [.told word text lost]) = written conn.trace := by
    rw [written_append]
    exact List.append_nil _
  simp only [tell, Script.ask, bind, Script.bind, act, Script.modify]
  cases wire.hears word with
  | none => exact ⟨rfl, hsame none⟩
  | some lost => exact ⟨rfl, hsame (some lost)⟩

theorem ensures_send_wrote {stretch : Stretch} :
    Script.Ensures wire (Wrote before incoming) (send stretch bytes)
      (fun _ => Wrote (before ++ bytes) incoming) fun _ => WritesWithin (before ++ bytes) := by
  rintro conn ⟨rfl, rfl⟩
  simp only [send, Script.ask, bind, Script.bind, act, Script.modify]
  cases hfailure : (wire.passes stretch).failure with
  | none =>
      refine ⟨rfl, ?_⟩
      rw [written_append]
      simp [written, Action.written, Passage.carries, hfailure]
  | some lost =>
      show written _ <+: _
      rw [written_append]
      refine (List.prefix_append_right_inj _).mpr ?_
      simpa [written, Action.written] using carries_prefix (wire.passes stretch)

theorem ensures_copy_wrote {limit : ℕ} :
    Script.Ensures wire (Wrote before incoming) (copy limit)
      (fun _ => WritesWithin (before ++ incoming.take limit))
      fun _ => WritesWithin (before ++ incoming.take limit) := by
  rintro conn ⟨rfl, rfl⟩
  have hcopied : written (conn.trace ++
      [.relayed ((wire.passes .rest).carries (conn.incoming.take limit)) wire.answered]) <+:
      written conn.trace ++ conn.incoming.take limit := by
    rw [written_append]
    refine (List.prefix_append_right_inj _).mpr ?_
    simpa [written, Action.written] using carries_prefix (wire.passes .rest)
  simp only [copy, Script.ask, bind, Script.bind, act, Script.modify]
  cases (wire.passes .rest).failure with
  | none => exact hcopied
  | some _ => exact hcopied

theorem WritesWithin.mono {more : List UInt8} (h : WritesWithin bytes conn)
    (hmore : bytes <+: more) : WritesWithin more conn :=
  List.IsPrefix.trans h hmore

/-- One request is written head first, and no further than it was cut. -/
theorem ensures_forwarded {head behind : List UInt8} {rest : Rest} :
    Script.Ensures wire (Wrote [] incoming) (forwarded head behind rest)
      (fun _ => WritesWithin (head ++ (behind ++ incoming.take rest.limit)))
      fun _ => WritesWithin (head ++ (behind ++ incoming.take rest.limit)) := by
  let whole := head ++ (behind ++ incoming.take rest.limit)
  have hhead : head <+: whole := List.prefix_append _ _
  have hbehind : head ++ behind <+: whole :=
    (List.prefix_append_right_inj _).mpr (List.prefix_append _ _)
  have hfirst : Script.Ensures wire (Wrote [] incoming) (send .head head)
      (fun _ => Wrote head incoming) fun _ => WritesWithin whole :=
    ensures_send_wrote.weaken (fun _ h => h) (fun _ _ h => h) fun _ _ h => h.mono hhead
  have hsecond : Script.Ensures wire (Wrote head incoming) (send .behind behind)
      (fun _ => Wrote (head ++ behind) incoming) fun _ => WritesWithin whole :=
    ensures_send_wrote.weaken (fun _ h => h) (fun _ _ h => h) fun _ _ h => h.mono hbehind
  have hthird : Script.Ensures wire (Wrote (head ++ behind) incoming) (copy rest.limit)
      (fun _ => WritesWithin whole) fun _ => WritesWithin whole := by
    have hcopy : Script.Ensures wire (Wrote (head ++ behind) incoming) (copy rest.limit) _ _ :=
      ensures_copy_wrote
    rwa [List.append_assoc] at hcopy
  exact hfirst.bind fun _ => hsecond.bind fun _ => hthird

end written

/-! ### What routing writes -/

section route

variable [External] [SocksText] {ctx : ConnCtx} {wire : Wire} {hop : NextHop} {host : Host}
  {port : Port} {incoming bytes : List UInt8} {answer loopAnswer : Failure → Session Unit}
  {carry : Session Unit} {relay : Decision → Session Unit}

/-- Whatever course is taken, nothing is written but what is carried. -/
theorem ensures_route_within
    (hloop : ∀ refused, ∃ text, loopAnswer refused = tell .refusal text)
    (hanswer : ∀ failure, ∃ text, answer failure = tell .refusal text)
    (hcarry : Script.Ensures wire (Wrote [] incoming) carry (fun _ => WritesWithin bytes)
      fun _ => WritesWithin bytes)
    (hrelay : ∀ decision, relay decision = relayBy hop host port decision answer carry) :
    Script.Ensures wire (Wrote [] incoming)
      (route ctx hop host port (refuseLoopBy loopAnswer) relay)
      (fun _ => WritesWithin bytes) fun _ => WritesWithin bytes := by
  have hwithin : ∀ conn, Wrote [] incoming conn → WritesWithin bytes conn := fun conn h =>
    h.within List.nil_prefix
  have hrefused (text : List UInt8) (failure : Failure) :
      Script.Ensures wire (Wrote [] incoming)
        (do tell .refusal text; Script.fail failure : Session Unit)
        (fun _ => WritesWithin bytes) fun _ => WritesWithin bytes :=
    (ensures_tell_wrote.weaken (fun _ h => h) (fun _ _ h => h) fun _ conn h => hwithin conn h).bind
      fun _ => Script.ensures_fail fun conn h => hwithin conn h
  have hbegun : Script.Ensures wire (Wrote [] incoming)
      (begun hop.verdict host port (ctx.rules.decide host port))
      (fun _ => Wrote [] incoming) fun _ => WritesWithin bytes := by
    rintro conn ⟨rfl, hwritten⟩
    refine ⟨rfl, ?_⟩
    show written (conn.trace ++ _) = []
    rw [written_append, hwritten]
    rfl
  have hlooped : Script.Ensures wire (Wrote [] incoming) (refuseLoopBy loopAnswer wire.accepted)
      (fun _ => WritesWithin bytes) fun _ => WritesWithin bytes := by
    have hdialled : Script.Ensures wire (Wrote [] incoming) (dialled .refused)
        (fun _ => Wrote [] incoming) fun _ => WritesWithin bytes := fun _ h => h
    obtain ⟨text, htext⟩ := hloop (.dialsItself ⟨wire.accepted⟩)
    refine hdialled.bind fun _ => ?_
    rw [htext]
    exact hrefused text _
  have hrelayed : Script.Ensures wire (Wrote [] incoming)
      (relayBy hop host port (ctx.rules.decide host port) answer carry)
      (fun _ => WritesWithin bytes) fun _ => WritesWithin bytes := by
    have hdial : Script.Ensures wire (Wrote [] incoming)
        (dialNext hop host port (ctx.rules.decide host port))
        (fun _ => Wrote [] incoming) fun _ => WritesWithin bytes := by
      rintro conn ⟨rfl, hwritten⟩
      refine ⟨rfl, ?_⟩
      show written (conn.trace ++ _) = []
      rw [written_append, hwritten]
      rfl
    refine hdial.bind fun next => ?_
    cases next with
    | ok next => exact hcarry
    | error failure =>
        obtain ⟨text, htext⟩ := hanswer failure
        show Script.Ensures wire _ (do answer failure; Script.fail failure : Session Unit) _ _
        rw [htext]
        exact hrefused text failure
  have hserved (serve : Loop → Session Unit)
      (hown : serve (.own wire.accepted) = refuseLoopBy loopAnswer wire.accepted)
      (helsewhere : serve .elsewhere = relay (ctx.rules.decide host port)) :
      Script.Ensures wire (Wrote [] incoming) (ownAddress host port >>= serve)
      (fun _ => WritesWithin bytes) fun _ => WritesWithin bytes := by
    refine (ensures_ownAddress.weaken (fun _ h => h) (fun _ _ h => h) fun _ _ h => h.elim).bind
      fun reached => Script.ensures_and fun hreached => ?_
    rcases hreached with ⟨rfl, _⟩ | ⟨rfl, _⟩
    · rw [hown]
      exact hlooped
    · rw [helsewhere, hrelay]
      exact hrelayed
  -- the failure is kept for the event and given back behind it, which writes nothing
  refine hbegun.bind fun _ => (hserved _ rfl rfl).settle.bind fun served => ?_
  have hended : Script.Ensures wire (WritesWithin bytes) (ended (failureOf served))
      (fun _ => WritesWithin bytes) fun _ => WritesWithin bytes := by
    intro conn h
    unfold ended
    cases conn.routed with
    | none => exact h
    | some routed =>
        show written (conn.trace ++ _) <+: bytes
        rw [written_append]
        exact (List.append_nil _).symm ▸ h
  refine (hended.pre ?_).bind fun _ => Script.ensures_ofExcept (fun _ _ _ h => h) fun _ _ _ h => h
  cases served <;> exact fun _ h => h

end route

/-! ### Where the head ends -/

/-- A beginning of the stream is in the buffer, the rest is still to come. -/
def Buffered (stream buffer : List UInt8) (conn : Connection) : Prop :=
  buffer ++ conn.incoming = stream ∧ conn.trace = []

section head

variable {wire : Wire} {stream buffer : List UInt8} {bytes : List UInt8}

theorem ensures_read_buffered {space : ℕ} :
    Script.Ensures wire (Buffered stream buffer) (read space)
      (fun taken conn => taken.length ≤ space ∧ Buffered stream (buffer ++ taken) conn)
      fun _ => WritesWithin bytes := by
  rintro conn ⟨rfl, htrace⟩
  simp only [read]
  cases wire.reads conn.reads with
  | error failure =>
      show written conn.trace <+: bytes
      rw [htrace]
      exact List.nil_prefix
  | ok size =>
      refine ⟨?_, ?_, htrace⟩
      · simp only [List.length_take]
        omega
      · simp

/-- The loop ends with a head in the buffer, which has room for no more than a
head may take, or without one. The induction is on the rounds. -/
theorem ensures_readHeadWithin_buffered {rounds : ℕ} (hroom : buffer.length ≤ headLimit) :
    Script.Ensures wire (Buffered stream buffer) (readHeadWithin rounds buffer)
      (fun found conn => match found with
        | none => WritesWithin bytes conn
        | some head => head.buffer.length ≤ headLimit ∧ headEnd head.buffer = some head.last ∧
            Buffered stream head.buffer conn)
      fun _ => WritesWithin bytes := by
  have hnone {buffer : List UInt8} :
      ∀ conn, Buffered stream buffer conn → WritesWithin bytes conn := by
    rintro conn ⟨_, htrace⟩
    show written conn.trace <+: bytes
    rw [htrace]
    exact List.nil_prefix
  induction rounds generalizing buffer with
  | zero => exact Script.ensures_pure hnone
  | succ rounds ih =>
      unfold readHeadWithin
      split_ifs with hfull
      · exact Script.ensures_pure hnone
      · refine ensures_read_buffered.bind fun taken => Script.ensures_and fun htaken => ?_
        have hroom' : (buffer ++ taken).length ≤ headLimit := by
          simp only [List.length_append]
          omega
        split_ifs with hover
        · exact Script.ensures_pure hnone
        · cases hend : headEnd (buffer ++ taken) with
          | none => exact ih hroom'
          | some last => exact Script.ensures_pure fun conn h => ⟨hroom', hend, h⟩

theorem blankLine_ne_nil : blankLine ≠ [] := by simp [blankLine]

theorem headEnd_append (more : List UInt8) {last : ℕ} (h : headEnd buffer = some last) :
    headEnd (buffer ++ more) = some last ∧ last ≤ buffer.length := by
  obtain ⟨⟨before, behind⟩, hsplit, rfl⟩ := Option.map_eq_some_iff.mp h
  constructor
  · rw [headEnd, splitOnce_append_right blankLine_ne_nil hsplit]
    rfl
  · rw [append_of_splitOnce hsplit]
    simp

theorem headEnd_of_append {more : List UInt8} {last : ℕ} (h : headEnd (buffer ++ more) = some last)
    (hlength : last ≤ buffer.length) : headEnd buffer = some last := by
  obtain ⟨⟨before, behind⟩, hsplit, rfl⟩ := Option.map_eq_some_iff.mp h
  obtain ⟨rest, hrest⟩ := splitOnce_of_append blankLine_ne_nil hsplit hlength
  rw [headEnd, hrest]
  rfl

end head

/-! ### How far a request reaches -/

/-- How many bytes behind the head the front end may take for a request. -/
def reachOf (head : List UInt8) : Body → ℕ
  | .sized len => len
  | .streamed => headLimit - head.length + (2 ^ 64 - 1)

/-- What was read with the head and what is copied later are cut at one place. -/
theorem cut_within {head early incoming : List UInt8} {body : Body}
    (hroom : (head ++ early).length ≤ headLimit) :
    let behind := behindTheHead early .absolute body
    behind ++ incoming.take (restOfBody .absolute body behind).limit <+:
      (early ++ incoming).take (reachOf head body) := by
  cases body with
  | sized len =>
      show early.take (min len early.length) ++
        incoming.take (len - (early.take (min len early.length)).length) <+:
          (early ++ incoming).take len
      rw [List.take_append]
      rcases Nat.le_total len early.length with hle | hle
      · have hnone : len - (early.take (min len early.length)).length = 0 := by
          simp only [List.length_take]
          omega
        rw [hnone, Nat.min_eq_left hle, Nat.sub_eq_zero_of_le hle]
      · rw [Nat.min_eq_right hle, List.take_length, List.take_of_length_le hle]
  | streamed =>
      show early ++ incoming.take (2 ^ 64 - 1) <+:
        (early ++ incoming).take (headLimit - head.length + (2 ^ 64 - 1))
      simp only [List.length_append] at hroom
      have hearly : early.take (headLimit - head.length + (2 ^ 64 - 1)) = early :=
        List.take_of_length_le (by omega)
      rw [List.take_append, hearly]
      refine (List.prefix_append_right_inj _).mpr (List.take_prefix_take_left ?_)
      omega

theorem take_sized {tail : List UInt8} {len cut : ℕ} :
    tail.take len = (tail.take cut).take (min len (tail.take cut).length) ++
      (tail.drop cut).take
        (len - ((tail.take cut).take (min len (tail.take cut).length)).length) := by
  conv_lhs => rw [← List.take_append_drop cut tail, List.take_append]
  have hearly : (tail.take cut).take (min len (tail.take cut).length) =
      (tail.take cut).take len := by
    rw [← List.take_take, List.take_length]
  rw [hearly, List.length_take (i := len)]
  congr 2
  omega

section serve

variable [External] [SocksText] {ctx : ConnCtx} {wire : Wire} {hop : NextHop} {host : Host}
  {port : Port} {body : Body} {head rebuilt tail : List UInt8}

/-- **No further than the request reaches** does anything behind its head travel. -/
theorem serve_within (hend : headEnd (head ++ tail) = some head.length)
    (hparse : parseHead head = some ⟨.absolute, host, port, body⟩)
    (hrewritten : rewritten head host port = some rebuilt) :
    WritesWithin (rebuilt ++ tail.take (reachOf head body))
      (serve ctx hop wire (.accepted (head ++ tail))).2 := by
  let whole := rebuilt ++ tail.take (reachOf head body)
  have hnothing : ∀ conn : Connection, conn.trace = [] → WritesWithin whole conn := by
    intro conn htrace
    show written conn.trace <+: whole
    rw [htrace]
    exact List.nil_prefix
  have hserve : Script.Ensures wire (Buffered (head ++ tail) []) (serve ctx hop)
      (fun _ => WritesWithin whole) fun _ => WritesWithin whole := by
    refine (ensures_readHeadWithin_buffered (Nat.zero_le _)).bind fun found => ?_
    cases found with
    | none => exact Script.ensures_pure fun _ h => h
    | some found =>
        obtain ⟨buffer, last⟩ := found
        rintro conn ⟨hroom, hfound, hbuffered, htrace⟩
        obtain ⟨hlast, hle⟩ := headEnd_append conn.incoming hfound
        rw [hbuffered, hend] at hlast
        obtain rfl := Option.some.inj hlast
        obtain ⟨early, rfl, htail⟩ : ∃ early, buffer = head ++ early ∧
            tail = early ++ conn.incoming := by
          rcases List.append_eq_append_iff.mp hbuffered with ⟨short, hhead, hrest⟩ | hlong
          · have hnil : short = [] := by
              have hlength : head.length = buffer.length + short.length := by
                rw [← List.length_append]
                exact congrArg List.length hhead
              have hle : head.length ≤ buffer.length := hle
              exact List.length_eq_zero_iff.mp (by omega)
            subst hnil
            exact ⟨[], by simpa using hhead.symm, by simpa using hrest.symm⟩
          · exact hlong
        let behind := behindTheHead early .absolute body
        let forward : Forwarded := ⟨.absolute, rebuilt, behind, restOfBody .absolute body behind⟩
        have hcut : behind ++ conn.incoming.take forward.rest.limit <+:
            tail.take (reachOf head body) := htail ▸ cut_within hroom
        have hcarry : Script.Ensures wire (Wrote [] conn.incoming) (carry forward)
            (fun _ => WritesWithin whole) fun _ => WritesWithin whole := by
          have hbound := (List.prefix_append_right_inj rebuilt).mpr hcut
          exact ensures_forwarded.weaken (fun _ h => h) (fun _ _ h => h.mono hbound)
            fun _ _ h => h.mono hbound
        have hroute : Script.Ensures wire (Wrote [] conn.incoming)
            (route ctx hop host port refuseLoop (relay forward host port hop))
            (fun _ => WritesWithin whole) fun _ => WritesWithin whole :=
          ensures_route_within (fun _ => ⟨_, rfl⟩) (refuse_eq_tell host port) hcarry fun _ => rfl
        have hran := hroute conn ⟨rfl, by rw [htrace]; rfl⟩
        simp only [List.take_left, List.drop_left, hparse, hrewritten, Http.rebuilt]
        exact hran
  have hran := hserve (.accepted (head ++ tail)) ⟨rfl, rfl⟩
  rcases hrun : serve ctx hop wire (.accepted (head ++ tail)) with ⟨e | _, conn⟩
  · rw [hrun] at hran
    exact hran
  · rw [hrun] at hran
    exact hran

end serve

/-! ### A connection on which nothing fails -/

section smooth

variable [External] [SocksText] {ctx : ConnCtx} {host : Host} {port : Port} {accepted : SocketAddr}
  {head rebuilt tail : List UInt8}

/-- A next hop that connects. -/
def connecting : NextHop := ⟨fun _ _ _ => (.attempted .direct none (.ok ⟨0⟩), []), .up⟩

/-- The rebuilt head, what was read behind it, and what a copy takes are written. -/
theorem written_route {accepted : SocketAddr} (hport : port ≠ accepted.port)
    {behind incoming : List UInt8} {rest : Rest} {reads : ℕ} :
    written (route ctx connecting host port refuseLoop
      (relay ⟨.absolute, rebuilt, behind, rest⟩ host port connecting) (.smooth accepted)
      ⟨incoming, reads, none, []⟩).2.trace = rebuilt ++ (behind ++ incoming.take rest.limit) := by
  let decision := ctx.rules.decide host port
  let record := Routed.begun .up host port decision
  let started : Connection := ⟨incoming, reads, some record, [.decided host port decision]⟩
  let relayed : Connection := ⟨incoming, reads, some (record.dialled (.attempted 0 .direct none)),
    [.decided host port decision, .dialled (.attempted .direct none (.ok ⟨0⟩)) [], .sent rebuilt,
      .sent behind, .relayed (incoming.take rest.limit) []]⟩
  have hbegun : begun .up host port decision (.smooth accepted) ⟨incoming, reads, none, []⟩ =
      (.ok (), started) := rfl
  have hown : ownAddress host port (.smooth accepted) started = (.ok .elsewhere, started) := by
    have hno : dialsItself host port accepted = false := if_pos hport
    simp [ownAddress, Script.ask, Wire.smooth, hno]
  have hsettled (serve : Loop → Session Unit) (helsewhere : serve .elsewhere =
      relay ⟨.absolute, rebuilt, behind, rest⟩ host port connecting decision) :
      Script.settle (ownAddress host port >>= serve) (.smooth accepted) started =
        (.ok (.ok ()), relayed) := by
    have hserved : (ownAddress host port >>= serve) (.smooth accepted) started =
        (.ok (), relayed) := by
      rw [Script.bind_of_ok hown, helsewhere]
      rfl
    unfold Script.settle
    rw [hserved]
  show written ((begun .up host port decision >>= fun _ =>
    Script.settle (ownAddress host port >>= _) >>= fun served =>
      ended (failureOf served) >>= fun _ => Script.ofExcept served) _ _).2.trace = _
  rw [Script.bind_of_ok hbegun, Script.bind_of_ok (hsettled _ rfl)]
  show rebuilt ++ (behind ++ (incoming.take rest.limit ++ [])) = _
  rw [List.append_nil]

omit [External] [SocksText] in
theorem readHeadWithin_succ (rounds : ℕ) (buffer : List UInt8) :
    readHeadWithin (rounds + 1) buffer =
      if buffer.length = headLimit then pure none
      else read (headLimit - buffer.length) >>= fun taken =>
        if taken = [] then pure none
        else
          match headEnd (buffer ++ taken) with
          | none => readHeadWithin rounds (buffer ++ taken)
          | some last => pure (some ⟨buffer ++ taken, last⟩) := rfl

omit [External] [SocksText] in
theorem readHead_eq :
    readHead = (read (headLimit - ([] : List UInt8).length) >>= fun taken =>
      if taken = [] then pure none
      else
        match headEnd ([] ++ taken) with
        | none => readHeadWithin headLimit ([] ++ taken)
        | some last => pure (some ⟨[] ++ taken, last⟩)) :=
  (readHeadWithin_succ headLimit []).trans (if_neg (by decide))

omit [External] [SocksText] in
/-- The first read finds the head, and all of what the buffer has room for. -/
theorem readHead_smooth (hend : headEnd (head ++ tail) = some head.length)
    (hlimit : head.length ≤ headLimit) :
    readHead (.smooth accepted) (.accepted (head ++ tail)) =
      (.ok (some ⟨head ++ tail.take (headLimit - head.length), head.length⟩),
        ⟨tail.drop (headLimit - head.length), 1, none, []⟩) := by
  let early := tail.take (headLimit - head.length)
  have htake : (head ++ tail).take headLimit = head ++ early := by
    rw [List.take_append, List.take_of_length_le hlimit]
  have hdrop : (head ++ tail).drop headLimit = tail.drop (headLimit - head.length) := by
    rw [List.drop_append, List.drop_eq_nil_of_le hlimit, List.nil_append]
  have hearly : headEnd (head ++ early) = some head.length := by
    have hwhole : headEnd (head ++ early ++ tail.drop (headLimit - head.length)) =
        some head.length := by
      rw [List.append_assoc, List.take_append_drop]
      exact hend
    exact headEnd_of_append hwhole (by simp)
  have hread : read (headLimit - ([] : List UInt8).length) (.smooth accepted)
      (.accepted (head ++ tail)) =
      (.ok (head ++ early), ⟨tail.drop (headLimit - head.length), 1, none, []⟩) := by
    rw [← htake, ← hdrop]
    rfl
  have hsome : head ++ early ≠ [] := by
    intro hnil
    rw [hnil] at hearly
    cases hearly
  rw [readHead_eq, Script.bind_of_ok hread, if_neg hsome, List.nil_append, hearly]
  rfl

theorem serve_reaches {body : Body} (hend : headEnd (head ++ tail) = some head.length)
    (hlimit : head.length ≤ headLimit)
    (hparse : parseHead head = some ⟨.absolute, host, port, body⟩)
    (hrewritten : rewritten head host port = some rebuilt) (hport : port ≠ accepted.port) :
    written (serve ctx connecting (.smooth accepted) (.accepted (head ++ tail))).2.trace =
      rebuilt ++ tail.take (reachOf head body) := by
  let early := tail.take (headLimit - head.length)
  let behind := behindTheHead early .absolute body
  have hreach : tail.take (reachOf head body) = behind ++
      (tail.drop (headLimit - head.length)).take (restOfBody .absolute body behind).limit := by
    cases body with
    | sized len => exact take_sized
    | streamed => exact List.take_add
  unfold serve
  rw [Script.bind_of_ok (readHead_smooth hend hlimit), hreach]
  simp only [List.take_left, List.drop_left, hparse, hrewritten, Http.rebuilt]
  exact written_route hport

end smooth

/-! ### One request -/

theorem prefix_take_iff {before bytes : List UInt8} {m n : ℕ} :
    before ++ bytes.take m <+: before ++ bytes.take n ↔ min bytes.length m ≤ n := by
  rw [List.prefix_append_right_inj]
  constructor
  · intro h
    have hlength := h.length_le
    simp only [List.length_take] at hlength
    omega
  · intro h
    have hcut : bytes.take m = bytes.take (min m bytes.length) := by
      rw [← List.take_take, List.take_length]
    rw [hcut]
    exact List.take_prefix_take_left (by omega)

/-- What is taken for the body is what the fields say, as the front end reads them. -/
theorem body_of_parseHead {head : List UInt8} {host : Host} {port : Port} {body : Body}
    (h : parseHead head = some ⟨.absolute, host, port, body⟩) :
    body = bodyOf (fieldText head) := by
  unfold parseHead at h
  obtain ⟨text, htext, hsplits⟩ := Option.bind_eq_some_iff.mp h
  obtain ⟨⟨line, headers⟩, hsplit, hfields⟩ := Option.bind_eq_some_iff.mp hsplits
  have hheaders : fieldText head = headers := by
    rw [fieldText, htext, Option.bind_some, hsplit]
    rfl
  rw [hheaders]
  simp only at hfields
  split at hfields
  · split_ifs at hfields with hversion hmethod
    · obtain ⟨destination, _, hmade⟩ := Option.bind_eq_some_iff.mp hfields
      cases hmade
    · obtain ⟨authority, hauthority, hnamed⟩ := Option.bind_eq_some_iff.mp hfields
      obtain ⟨destination, hdestination, hmade⟩ := Option.bind_eq_some_iff.mp hnamed
      cases hmade
      rfl
  · cases hfields

theorem ne_succ (port : Port) : port ≠ port + 1 := by
  intro h
  have hone : (1 : UInt16) = 0 := by
    rwa [left_eq_add] at h
  cases hone

/-- What a client sends behind a head does not go on past the body: the body is
delimited by its length, or it is chunked and the last thing that is copied; where
nothing delimits one, nothing is sent or the fields read as those of a request
without. -/
def Stops (head tail : List UInt8) : Prop :=
  match framingOf head with
  | some (.sized _) => True
  | some .chunked =>
      min tail.length (headLimit - head.length + (2 ^ 64 - 1)) ≤ bodyEnd .chunked tail
  | none => tail = [] ∨ Bodiless head

/-- How far the front end reaches and how far the body does. -/
theorem reach_le_iff {head tail : List UInt8} :
    min tail.length (reachOf head (bodyOf (fieldText head))) ≤ bodyEndOf head tail ↔
      Stops head tail := by
  unfold Stops bodyEndOf
  cases hframed : framingOf head with
  | some framed =>
      cases framed with
      | sized length =>
          obtain ⟨len, hlen, hle⟩ := len_le_of_framing (framingOf_eq hframed)
          rw [hlen]
          exact iff_of_true ((Nat.min_le_right ..).trans hle) trivial
      | chunked =>
          rw [streamed_of_framing (framingOf_eq hframed)]
          rfl
  | none =>
      rw [bodiless_iff, ← List.length_eq_zero_iff]
      cases bodyOf (fieldText head) with
      | sized len =>
          simp only [reachOf, Body.sized.injEq]
          omega
      | streamed =>
          simp only [reachOf, reduceCtorEq, or_false]
          omega

/-- A request whose body is chunked. -/
def chunkedPost : List UInt8 :=
  intoBytes "POST http://a/ HTTP/1.1\r\nTransfer-Encoding: chunked\r\n\r\n".toList

/-- A body of one chunk. -/
def oneChunk : List UInt8 := intoBytes "2\r\nhi\r\n0\r\n\r\n".toList

/-- The next request on the connection. -/
def nextGet : List UInt8 := intoBytes "GET http://b/ HTTP/1.1\r\n\r\n".toList

end Nhop.Proxy.Http
