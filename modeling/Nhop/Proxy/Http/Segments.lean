import Nhop.Proxy.Http.OneRequest

/-!
How the stream of a client is cut into reads.

What a stream comes to is computed from its bytes alone (`outcomeOf`): the front
end closes the connection without a word, answers 400, or forwards one request.
Every cut of the stream into reads that find something leads there
(`serve_outcomeOf`). What was read with the head and what is copied later are
two parts of one body, and their sum does not depend on where the last read
ended, as long as a copy does not come to the end of its count.
-/

namespace Nhop.Proxy.Http

open Foundation Ipc Rules Nhop.Upstream

/-- The wire, with a client whose bytes arrive in reads of these sizes. -/
def cutInto (sizes : ℕ → ℕ) (wire : Wire) : Wire :=
  { wire with reads := fun n => .ok (sizes n) }

/-! ### What a stream comes to -/

/-- What becomes of a client's stream. -/
inductive Outcome
  /-- Without an answer. -/
  | closed
  | malformed
  | request (method : Method) (host : Host) (port : Port) (head bytes : List UInt8)
  deriving DecidableEq, Repr

/-- The bytes of one request among those behind its head. -/
def bodyWithin (method : Method) (body : Body) (tail : List UInt8) : List UInt8 :=
  match method, body with
  | .absolute, .sized len => tail.take len
  | .absolute, .streamed | .connect, _ => tail

def outcomeOf (stream : List UInt8) : Outcome :=
  match headEnd stream with
  | none => .closed
  | some last =>
      if headLimit < last then .closed
      else
        match parseHead (stream.take last) with
        | none => .malformed
        | some ⟨method, host, port, body⟩ =>
            match rebuilt method (stream.take last) host port with
            | none => .malformed
            | some head =>
                .request method host port head (bodyWithin method body (stream.drop last))

/-- What a copy takes of a body without a length ends before its count does. -/
def Counted (stream : List UInt8) : Prop :=
  ∀ last host port, headEnd stream = some last →
    parseHead (stream.take last) = some ⟨.absolute, host, port, .streamed⟩ →
    (stream.drop last).length < 2 ^ 64

/-- The bytes that follow the head to the next hop, of those the client has still to
say the ones a copy takes. -/
def Forwarded.follows (forward : Forwarded) (incoming : List UInt8) : List UInt8 :=
  forward.behind ++
    match forward.method with
    | .connect => incoming
    | .absolute => incoming.take forward.rest.limit

/-! ### Reading the head -/

/-- A beginning of the stream is in the buffer, and nothing was done about it. -/
def Fresh (stream buffer : List UInt8) (conn : Connection) : Prop :=
  buffer ++ conn.incoming = stream ∧ conn.routed = none ∧ conn.trace = []

/-- What the reading loop found is what the stream holds. -/
def Found (stream : List UInt8) : Option Head → Connection → Prop
  | none, conn => (∀ last, headEnd stream = some last → headLimit < last) ∧ conn.trace = []
  | some head, conn =>
      headEnd head.buffer = some head.last ∧ head.buffer.length ≤ headLimit ∧
        Fresh stream head.buffer conn

section head

variable {wire : Wire} {sizes : ℕ → ℕ} {stream buffer : List UInt8} {conn : Connection}

theorem read_cut (wire : Wire) (sizes : ℕ → ℕ) {space : ℕ}
    (h : Fresh stream buffer conn) (hspace : 0 < space) :
    ∃ taken conn', read space (cutInto sizes wire) conn = (.ok taken, conn') ∧
      taken.length ≤ space ∧ (taken = [] → buffer = stream) ∧
      Fresh stream (buffer ++ taken) conn' := by
  obtain ⟨rfl, hrouted, htrace⟩ := h
  let size := min space (max 1 (sizes conn.reads))
  refine ⟨conn.incoming.take size,
    { conn with reads := conn.reads + 1, incoming := conn.incoming.drop size }, rfl, ?_, ?_, ?_⟩
  · rw [List.length_take]
    omega
  · intro hnil
    have hpos : size ≠ 0 := by omega
    have hincoming : conn.incoming = [] := by
      rcases List.take_eq_nil_iff.mp hnil with hzero | hempty
      · exact absurd hzero hpos
      · exact hempty
    rw [hincoming, List.append_nil]
  · exact ⟨by simp, hrouted, htrace⟩

/-- **The loop finds what the stream holds**, however it arrives. The induction is
on the rounds, of which there are more than the buffer has room. -/
theorem readHeadWithin_cut {rounds : ℕ} (h : Fresh stream buffer conn)
    (hend : headEnd buffer = none) (hroom : buffer.length ≤ headLimit)
    (hrounds : headLimit < buffer.length + rounds) :
    ∃ found conn', readHeadWithin rounds buffer (cutInto sizes wire) conn = (.ok found, conn') ∧
      Found stream found conn' := by
  induction rounds generalizing buffer conn with
  | zero => omega
  | succ rounds ih =>
      unfold readHeadWithin
      by_cases hfull : buffer.length = headLimit
      · rw [if_pos hfull]
        refine ⟨none, conn, rfl, ?_, h.2.2⟩
        intro last hlast
        by_contra hle
        rw [← h.1] at hlast
        have hearly : headEnd buffer = some last := headEnd_of_append hlast (by omega)
        rw [hend] at hearly
        cases hearly
      · rw [if_neg hfull]
        have hspace : 0 < headLimit - buffer.length := by omega
        obtain ⟨taken, conn', hread, hlength, hnil, hfresh⟩ := read_cut wire sizes h hspace
        rw [Script.bind_of_ok hread]
        by_cases htaken : taken = []
        · rw [if_pos htaken]
          refine ⟨none, conn', rfl, ?_, hfresh.2.2⟩
          intro last hlast
          rw [← hnil htaken, hend] at hlast
          cases hlast
        · rw [if_neg htaken]
          have hpos : 0 < taken.length := List.length_pos_iff.mpr htaken
          have hroom' : (buffer ++ taken).length ≤ headLimit := by
            rw [List.length_append]
            omega
          cases hend' : headEnd (buffer ++ taken) with
          | none =>
              refine ih hfresh hend' hroom' ?_
              rw [List.length_append]
              omega
          | some last => exact ⟨some ⟨buffer ++ taken, last⟩, conn', rfl, hend', hroom', hfresh⟩

theorem readHead_cut :
    ∃ found conn', readHead (cutInto sizes wire) (.accepted stream) = (.ok found, conn') ∧
      Found stream found conn' := by
  apply readHeadWithin_cut ⟨rfl, rfl, rfl⟩ rfl (Nat.zero_le _)
  simp [headLimit]

end head

/-! ### Every cut leads to the outcome -/

/-- What was read behind the head and what a copy takes add up to the body. -/
theorem follows_eq {method : Method} {body : Body} {head early incoming tail : List UInt8}
    (htail : early ++ incoming = tail)
    (hcounted : method = .absolute → body = .streamed → tail.length < 2 ^ 64) :
    Forwarded.follows ⟨method, head, behindTheHead early method body,
      restOfBody method body (behindTheHead early method body)⟩ incoming =
        bodyWithin method body tail := by
  subst htail
  cases method with
  | connect => rfl
  | absolute =>
      cases body with
      | streamed =>
          have hlength := hcounted rfl rfl
          rw [List.length_append] at hlength
          show early ++ incoming.take (2 ^ 64 - 1) = early ++ incoming
          rw [List.take_of_length_le (by omega)]
      | sized len =>
          show early.take (min len early.length) ++
            incoming.take (len - (early.take (min len early.length)).length) =
              (early ++ incoming).take len
          rw [List.take_append, ← List.take_take, List.take_length, List.length_take]
          rcases Nat.le_total len early.length with hle | hle
          · rw [Nat.min_eq_left hle, Nat.sub_self, Nat.sub_eq_zero_of_le hle]
          · rw [Nat.min_eq_right hle]

section serve

variable [External] [SocksText] {ctx : ConnCtx} {hop : NextHop} {wire : Wire} {sizes : ℕ → ℕ}
  {stream : List UInt8}

/-- The front end makes this of a stream: it does nothing, it answers 400, or it routes
a request behind which the body follows. -/
def Reaches (ctx : ConnCtx) (hop : NextHop) (wire : Wire) (stream : List UInt8) : Outcome → Prop
  | .closed => ∃ conn, serve ctx hop wire (.accepted stream) = (.ok (), conn) ∧ conn.trace = []
  | .malformed =>
      ∃ conn, serve ctx hop wire (.accepted stream) =
        respond badRequest "nhop: malformed request" wire conn ∧
          conn.routed = none ∧ conn.trace = []
  | .request method host port head bytes =>
      ∃ forward conn, serve ctx hop wire (.accepted stream) =
        route ctx hop host port refuseLoop (relay forward host port hop) wire conn ∧
          forward.method = method ∧ forward.head = head ∧ forward.follows conn.incoming = bytes ∧
            conn.routed = none ∧ conn.trace = []

/-- **Every cut leads to the outcome of the stream.** -/
theorem serve_outcomeOf (hcounted : Counted stream) :
    Reaches ctx hop (cutInto sizes wire) stream (outcomeOf stream) := by
  obtain ⟨found, conn, hread, hfound⟩ := @readHead_cut wire sizes stream
  have hserve : serve ctx hop (cutInto sizes wire) (.accepted stream) = _ :=
    Script.bind_of_ok hread
  unfold outcomeOf
  cases found with
  | none =>
      obtain ⟨hlimit, htrace⟩ := hfound
      have hclosed : Reaches ctx hop (cutInto sizes wire) stream .closed :=
        ⟨conn, hserve, htrace⟩
      cases hend : headEnd stream with
      | none => exact hclosed
      | some last =>
          simp only [if_pos (hlimit last hend)]
          exact hclosed
  | some found =>
      obtain ⟨buffer, last⟩ := found
      obtain ⟨hend, hroom, hstream, hrouted, htrace⟩ := hfound
      obtain ⟨hlast, hle⟩ := headEnd_append conn.incoming hend
      rw [hstream] at hlast
      have hlimit : ¬headLimit < last := by
        have hle : last ≤ buffer.length := hle
        have hroom : buffer.length ≤ headLimit := hroom
        omega
      have htake : stream.take last = buffer.take last := by
        rw [← hstream, List.take_append_of_le_length hle]
      have hdrop : buffer.drop last ++ conn.incoming = stream.drop last := by
        rw [← hstream, List.drop_append_of_le_length hle]
      simp only [hlast, if_neg hlimit, htake]
      cases hparse : parseHead (buffer.take last) with
      | none =>
          simp only [hparse] at hserve
          exact ⟨conn, hserve, hrouted, htrace⟩
      | some request =>
          obtain ⟨method, host, port, body⟩ := request
          simp only [hparse] at hserve
          cases hrebuilt : rebuilt method (buffer.take last) host port with
          | none =>
              simp only [hrebuilt] at hserve ⊢
              exact ⟨conn, hserve, hrouted, htrace⟩
          | some head =>
              simp only [hrebuilt] at hserve ⊢
              refine ⟨_, conn, hserve, rfl, rfl, follows_eq hdrop ?_, hrouted, htrace⟩
              rintro rfl rfl
              exact hcounted last host port hlast (htake.symm ▸ hparse)

end serve

/-! ### Two cuts of one stream -/

/-- What an action is apart from the bytes it writes to the next hop. -/
def Action.outward : Action → List Action
  | .sent _ => []
  | .relayed _ down => [.relayed [] down]
  | action => [action]

/-- What a trace does apart from what it writes to the next hop. -/
def outward (trace : List Action) : List Action := trace.flatMap Action.outward

/-- Nothing that is written to the next hop is lost. -/
def Conveys (wire : Wire) : Prop := ∀ stretch, (wire.passes stretch).failure = none

/-- Two runs end the same way, and wrote the same, and did the same besides. -/
def SameEnd (run run' : Except Failure Unit × Connection) : Prop :=
  run.1 = run'.1 ∧ written run.2.trace = written run'.2.trace ∧
    outward run.2.trace = outward run'.2.trace

/-- Two connections that differ in what the client has still to say. -/
structure Alike (incoming incoming' : List UInt8) (conn conn' : Connection) : Prop where
  left : conn.incoming = incoming
  right : conn'.incoming = incoming'
  routed : conn.routed = conn'.routed
  written : written conn.trace = written conn'.trace
  outward : outward conn.trace = outward conn'.trace

section alike

variable {wire : Wire} {sizes sizes' : ℕ → ℕ} {incoming incoming' : List UInt8}
  {conn conn' : Connection}

theorem outward_append (trace more : List Action) :
    outward (trace ++ more) = outward trace ++ outward more := List.flatMap_append

theorem Alike.acts (h : Alike incoming incoming' conn conn') {more more' : List Action}
    {routed routed' : Option Routed} (hrouted : routed = routed')
    (hwritten : Http.written more = Http.written more')
    (houtward : Http.outward more = Http.outward more') :
    Alike incoming incoming' { conn with routed := routed, trace := conn.trace ++ more }
      { conn' with routed := routed', trace := conn'.trace ++ more' } where
  left := h.left
  right := h.right
  routed := hrouted
  written := by rw [written_append, written_append, h.written, hwritten]
  outward := by rw [outward_append, outward_append, h.outward, houtward]

theorem agree_tell {word : Word} {text : List UInt8} :
    Script.Agree (cutInto sizes wire) (cutInto sizes' wire) (Alike incoming incoming')
      (tell word text) (tell word text) := by
  refine (Script.agree_ask fun _ _ _ => rfl).bind fun failure => ?_
  refine (Script.agree_modify fun _ _ h => h.acts h.routed rfl rfl).bind fun _ => ?_
  cases failure with
  | none => exact Script.agree_pure
  | some failure => exact Script.agree_fail

omit sizes' in
theorem send_carries (hcarries : Conveys wire) {stretch : Stretch} {bytes : List UInt8} :
    send stretch bytes (cutInto sizes wire) conn =
      (.ok (), { conn with trace := conn.trace ++ [.sent bytes] }) := by
  have hfailure : ((cutInto sizes wire).passes stretch).failure = none := hcarries stretch
  simp only [send, Script.ask, bind, Script.bind, act, Script.modify, Passage.carries, hfailure]
  rfl

theorem copy_carries (hcarries : Conveys wire) {limit : ℕ} :
    copy limit (cutInto sizes wire) conn =
      (.ok (), { conn with
        trace := conn.trace ++ [.relayed (conn.incoming.take limit) wire.answered] }) := by
  have hfailure : ((cutInto sizes wire).passes .rest).failure = none := hcarries .rest
  simp only [copy, Script.ask, bind, Script.bind, act, Script.modify, Passage.carries, hfailure]
  rfl

theorem copyBidirectional_carries (hcarries : Conveys wire) :
    copyBidirectional (cutInto sizes wire) conn =
      (.ok (), { conn with
        trace := conn.trace ++ [.relayed conn.incoming wire.answered] }) := by
  have hfailure : ((cutInto sizes wire).passes .rest).failure = none := hcarries .rest
  simp only [copyBidirectional, Script.ask, bind, Script.bind, act, Script.modify, Passage.carries,
    hfailure]
  rfl

/-- What is carried is one sequence of bytes, split where the head was read. -/
theorem agree_carry (hcarries : Conveys wire) {forward forward' : Forwarded}
    (hmethod : forward.method = forward'.method) (hhead : forward.head = forward'.head)
    (hfollows : forward.follows incoming = forward'.follows incoming') :
    Script.Agree (cutInto sizes wire) (cutInto sizes' wire) (Alike incoming incoming')
      (carry forward) (carry forward') := by
  obtain ⟨method, head, behind, rest⟩ := forward
  obtain ⟨method', head', behind', rest'⟩ := forward'
  obtain rfl : method = method' := hmethod
  obtain rfl : head = head' := hhead
  cases method with
  | connect =>
      refine agree_tell.bind fun _ => ?_
      intro conn conn' h
      obtain rfl := h.left
      obtain rfl := h.right
      rw [Script.bind_of_ok (send_carries hcarries), Script.bind_of_ok (send_carries hcarries),
        copyBidirectional_carries hcarries, copyBidirectional_carries hcarries]
      refine ⟨rfl, ?_⟩
      simp only [List.append_assoc]
      apply h.acts h.routed
      · simpa [written, Action.written, Forwarded.follows] using hfollows
      · rfl
  | absolute =>
      intro conn conn' h
      obtain rfl := h.left
      obtain rfl := h.right
      show (forwarded head behind rest (cutInto sizes wire) conn).1 =
        (forwarded head behind' rest' (cutInto sizes' wire) conn').1 ∧ Alike _ _
          (forwarded head behind rest (cutInto sizes wire) conn).2
          (forwarded head behind' rest' (cutInto sizes' wire) conn').2
      unfold forwarded
      rw [Script.bind_of_ok (send_carries hcarries), Script.bind_of_ok (send_carries hcarries),
        Script.bind_of_ok (send_carries hcarries), Script.bind_of_ok (send_carries hcarries),
        copy_carries hcarries, copy_carries hcarries]
      refine ⟨rfl, ?_⟩
      simp only [List.append_assoc]
      apply h.acts h.routed
      · simpa [written, Action.written, Forwarded.follows] using hfollows
      · rfl

end alike

section route

variable [External] [SocksText] {ctx : ConnCtx} {hop : NextHop} {wire : Wire} {sizes sizes' : ℕ → ℕ}
  {host : Host} {port : Port} {stream incoming incoming' : List UInt8}

omit [External] in
theorem agree_ended {failure : Option Failure} :
    Script.Agree (cutInto sizes wire) (cutInto sizes' wire) (Alike incoming incoming')
      (ended failure) (ended failure) := by
  intro conn conn' h
  simp only [ended, h.routed]
  cases hrouted : conn'.routed with
  | none => exact ⟨rfl, h⟩
  | some routed => exact ⟨rfl, h.acts rfl rfl rfl⟩

omit [External] [SocksText] in
theorem agree_dialled {connect : Connect} :
    Script.Agree (cutInto sizes wire) (cutInto sizes' wire) (Alike incoming incoming')
      (dialled connect) (dialled connect) := by
  refine Script.agree_modify fun conn conn' h => ?_
  exact ⟨h.left, h.right, congrArg (Option.map (·.dialled connect)) h.routed, h.written, h.outward⟩

omit [External] [SocksText] in
theorem agree_dialNext {decision : Decision} :
    Script.Agree (cutInto sizes wire) (cutInto sizes' wire) (Alike incoming incoming')
      (dialNext hop host port decision) (dialNext hop host port decision) := by
  intro conn conn' h
  exact ⟨rfl, h.acts (congrArg _ h.routed) rfl rfl⟩

omit [SocksText] in
theorem agree_ownAddress :
    Script.Agree (cutInto sizes wire) (cutInto sizes' wire) (Alike incoming incoming')
      (ownAddress host port) (ownAddress host port) :=
  Script.agree_ask fun _ _ _ => rfl

omit [External] in
theorem agree_refuseLoop {listening : SocketAddr} :
    Script.Agree (cutInto sizes wire) (cutInto sizes' wire) (Alike incoming incoming')
      (refuseLoop listening) (refuseLoop listening) :=
  agree_dialled.bind fun _ => agree_tell.bind fun _ => Script.agree_fail

omit [External] [SocksText] in
theorem agree_relay (hcarries : Conveys wire) {forward forward' : Forwarded} {decision : Decision}
    (hmethod : forward.method = forward'.method) (hhead : forward.head = forward'.head)
    (hfollows : forward.follows incoming = forward'.follows incoming') :
    Script.Agree (cutInto sizes wire) (cutInto sizes' wire) (Alike incoming incoming')
      (relay forward host port hop decision) (relay forward' host port hop decision) := by
  refine agree_dialNext.bind fun next => ?_
  cases next with
  | ok next => exact agree_carry hcarries hmethod hhead hfollows
  | error failure =>
      obtain ⟨text, htext⟩ := refuse_eq_tell host port failure
      show Script.Agree _ _ _ (do refuse host port failure; Script.fail failure : Session Unit)
        (do refuse host port failure; Script.fail failure)
      rw [htext]
      exact agree_tell.bind fun _ => Script.agree_fail

/-- **A routed request** takes the same course, whatever was read of it with its
head. -/
theorem agree_route (hcarries : Conveys wire) {forward forward' : Forwarded}
    (hmethod : forward.method = forward'.method) (hhead : forward.head = forward'.head)
    (hfollows : forward.follows incoming = forward'.follows incoming') :
    Script.Agree (cutInto sizes wire) (cutInto sizes' wire) (Alike incoming incoming')
      (route ctx hop host port refuseLoop (relay forward host port hop))
      (route ctx hop host port refuseLoop (relay forward' host port hop)) := by
  have hbegun : Script.Agree (cutInto sizes wire) (cutInto sizes' wire) (Alike incoming incoming')
      (begun hop.verdict host port (ctx.rules.decide host port))
      (begun hop.verdict host port (ctx.rules.decide host port)) :=
    Script.agree_modify fun _ _ h => h.acts rfl rfl rfl
  refine hbegun.bind fun _ => Script.Agree.bind (Script.Agree.settle ?_) fun served =>
    agree_ended.bind fun _ => Script.agree_ofExcept
  refine agree_ownAddress.bind fun reached => ?_
  cases reached with
  | own listening => exact agree_refuseLoop
  | elsewhere => exact agree_relay hcarries hmethod hhead hfollows

theorem sameEnd_of_reaches (hcarries : Conveys wire) {outcome : Outcome}
    (h : Reaches ctx hop (cutInto sizes wire) stream outcome)
    (h' : Reaches ctx hop (cutInto sizes' wire) stream outcome) :
    SameEnd (serve ctx hop (cutInto sizes wire) (.accepted stream))
      (serve ctx hop (cutInto sizes' wire) (.accepted stream)) := by
  cases outcome with
  | closed =>
      obtain ⟨conn, hserve, htrace⟩ := h
      obtain ⟨conn', hserve', htrace'⟩ := h'
      rw [hserve, hserve']
      exact ⟨rfl, by rw [htrace, htrace'], by rw [htrace, htrace']⟩
  | malformed =>
      obtain ⟨conn, hserve, hrouted, htrace⟩ := h
      obtain ⟨conn', hserve', hrouted', htrace'⟩ := h'
      have halike : Alike conn.incoming conn'.incoming conn conn' :=
        ⟨rfl, rfl, by rw [hrouted, hrouted'], by rw [htrace, htrace'], by rw [htrace, htrace']⟩
      obtain ⟨hend, hrel⟩ := agree_tell conn conn' halike
      rw [hserve, hserve']
      exact ⟨hend, hrel.written, hrel.outward⟩
  | request method host port head bytes =>
      obtain ⟨forward, conn, hserve, hmethod, hhead, hfollows, hrouted, htrace⟩ := h
      obtain ⟨forward', conn', hserve', hmethod', hhead', hfollows', hrouted', htrace'⟩ := h'
      have halike : Alike conn.incoming conn'.incoming conn conn' :=
        ⟨rfl, rfl, by rw [hrouted, hrouted'], by rw [htrace, htrace'], by rw [htrace, htrace']⟩
      obtain ⟨hend, hrel⟩ := agree_route hcarries (hmethod.trans hmethod'.symm)
        (hhead.trans hhead'.symm) (hfollows.trans hfollows'.symm) conn conn' halike
      rw [hserve, hserve']
      exact ⟨hend, hrel.written, hrel.outward⟩

end route

/-! ### Indices

The buffer is an array of `headLimit` bytes that is cut at indices. Below, a cut
that is out of range has no result; the front end makes none. -/

/-- The bytes from one index up to another, none when they are out of range. -/
def slice (first last : ℕ) (bytes : List UInt8) : Option (List UInt8) :=
  if first ≤ last ∧ last ≤ bytes.length then some ((bytes.take last).drop first) else none

/-- The scan for a blank line, window by window from an index. -/
def headEndFrom (buffer : List UInt8) : ℕ → ℕ → Option (Option ℕ)
  | 0, _ => some none
  | windows + 1, index => do
      let window ← slice index (index + 4) buffer
      if window = blankLine then some (some (index + 4))
      else headEndFrom buffer windows (index + 1)

def headEndIndexed (buffer : List UInt8) : Option (Option ℕ) :=
  if buffer.length < 4 then some none else headEndFrom buffer (buffer.length - 4 + 1) 0

/-- The reading loop, with the cuts it makes of the buffer. -/
def readHeadIndexed : ℕ → List UInt8 → Session (Option (Option Head))
  | 0, _ => pure (some none)
  | rounds + 1, buffer =>
      if buffer.length = headLimit then pure (some none)
      else if headLimit < buffer.length then pure none
      else do
        let taken ← read (headLimit - buffer.length)
        if taken = [] then pure (some none)
        else if headLimit < (buffer ++ taken).length then pure none
        else
          match headEndIndexed (buffer ++ taken) with
          | none => pure none
          | some none => readHeadIndexed rounds (buffer ++ taken)
          | some (some last) => pure (some (some ⟨buffer ++ taken, last⟩))

/-- The head, and what is behind it, cut out of the buffer. -/
def cutOut (found : Head) (method : Method) (body : Body) :
    Option (List UInt8 × List UInt8) := do
  let head ← slice 0 found.last found.buffer
  let rest ← slice found.last found.buffer.length found.buffer
  let behind ←
    match method, body with
    | .absolute, .sized len => slice 0 (min len rest.length) rest
    | .absolute, .streamed | .connect, _ => some rest
  return (head, behind)

section indices

variable {buffer bytes : List UInt8}

theorem slice_eq_some {first last : ℕ} (h : first ≤ last) (hlast : last ≤ bytes.length) :
    slice first last bytes = some ((bytes.take last).drop first) := if_pos ⟨h, hlast⟩

theorem headEnd_of_short (h : bytes.length < 4) : headEnd bytes = none := by
  cases hend : headEnd bytes with
  | none => rfl
  | some last =>
      obtain ⟨⟨before, behind⟩, hsplit, _⟩ := Option.map_eq_some_iff.mp hend
      have hlength := congrArg List.length (append_of_splitOnce hsplit)
      simp only [List.length_append, blankLine, List.length_cons] at hlength
      omega

/-- Every window of the scan is in range, and the first that is blank is found. The
induction is on the windows that are left. -/
theorem headEndFrom_eq {windows index : ℕ} (h : index + windows + 3 = buffer.length) :
    headEndFrom buffer windows index =
      some ((headEnd (buffer.drop index)).map (index + ·)) := by
  induction windows generalizing index with
  | zero =>
      have hshort : (buffer.drop index).length < 4 := by
        rw [List.length_drop]
        omega
      rw [headEnd_of_short hshort]
      rfl
  | succ windows ih =>
      have hcut : buffer.drop index = buffer[index] :: buffer.drop (index + 1) :=
        List.drop_eq_getElem_cons (by omega)
      have hwindow : ((buffer.take (index + 4)).drop index) = (buffer.drop index).take 4 := by
        rw [List.drop_take]
        congr 1
        omega
      unfold headEndFrom
      rw [slice_eq_some (by omega) (by omega), Option.bind_eq_bind, Option.bind_some, hwindow]
      by_cases hblank : (buffer.drop index).take 4 = blankLine
      · have hbegins : blankLine.isPrefixOf (buffer.drop index) = true := by
          rw [List.isPrefixOf_iff_prefix, ← hblank]
          exact List.take_prefix _ _
        rw [if_pos hblank, headEnd, hcut, splitOnce, ← hcut, if_pos hbegins]
        rfl
      · have hbegins : ¬blankLine.isPrefixOf (buffer.drop index) = true := by
          rw [List.isPrefixOf_iff_prefix]
          intro hbegins
          exact hblank (List.prefix_iff_eq_take.mp hbegins).symm
        rw [if_neg hblank, ih (by omega), headEnd, headEnd, hcut, splitOnce, ← hcut,
          if_neg hbegins]
        cases splitOnce blankLine (buffer.drop (index + 1)) with
        | none => rfl
        | some split =>
            simp only [Option.map_some, List.length_cons, Option.some.injEq]
            omega

theorem headEndIndexed_eq (buffer : List UInt8) :
    headEndIndexed buffer = some (headEnd buffer) := by
  unfold headEndIndexed
  split_ifs with hshort
  · rw [headEnd_of_short hshort]
  · rw [headEndFrom_eq (by omega), List.drop_zero]
    cases headEnd buffer with
    | none => rfl
    | some last => simp

theorem length_of_read {wire : Wire} {conn conn' : Connection} {space : ℕ} {taken : List UInt8}
    (h : read space wire conn = (.ok taken, conn')) : taken.length ≤ space := by
  unfold read at h
  cases hreads : wire.reads conn.reads with
  | error failure =>
      rw [hreads] at h
      cases h
  | ok size =>
      rw [hreads] at h
      cases h
      simp only [List.length_take]
      omega

/-- **The loop stays in range**, whatever the reads find. -/
theorem readHeadIndexed_eq {rounds : ℕ} (h : buffer.length ≤ headLimit) (wire : Wire)
    (conn : Connection) :
    readHeadIndexed rounds buffer wire conn =
      (readHeadWithin rounds buffer >>= fun found => pure (some found)) wire conn := by
  induction rounds generalizing buffer conn with
  | zero => rfl
  | succ rounds ih =>
      unfold readHeadIndexed readHeadWithin
      by_cases hfull : buffer.length = headLimit
      · rw [if_pos hfull, if_pos hfull]
        rfl
      · rw [if_neg hfull, if_neg hfull, if_neg (Nat.not_lt.mpr h)]
        show Script.bind _ _ wire conn = Script.bind (Script.bind _ _) _ wire conn
        unfold Script.bind
        rcases hread : read (headLimit - buffer.length) wire conn with ⟨failure | taken, conn'⟩
        · rfl
        · have hlength := length_of_read hread
          have hroom : (buffer ++ taken).length ≤ headLimit := by
            rw [List.length_append]
            omega
          simp only
          by_cases htaken : taken = []
          · rw [if_pos htaken, if_pos htaken]
            rfl
          · rw [if_neg htaken, if_neg htaken, if_neg (Nat.not_lt.mpr hroom), headEndIndexed_eq]
            cases headEnd (buffer ++ taken) with
            | none => exact ih hroom conn'
            | some last => rfl

/-- **What was read is cut in range.** -/
theorem cutOut_eq {found : Head} (h : found.last ≤ found.buffer.length) (method : Method)
    (body : Body) :
    cutOut found method body = some (found.buffer.take found.last,
      behindTheHead (found.buffer.drop found.last) method body) := by
  have hrest : slice found.last found.buffer.length found.buffer =
      some (found.buffer.drop found.last) := by
    rw [slice_eq_some h (Nat.le_refl _), List.take_length]
  unfold cutOut
  rw [slice_eq_some (Nat.zero_le _) h, hrest]
  cases method with
  | connect => rfl
  | absolute =>
      cases body with
      | streamed => rfl
      | sized len =>
          simp only [Option.bind_eq_bind, Option.bind_some]
          rw [slice_eq_some (Nat.zero_le _) (Nat.min_le_right _ _)]
          rfl

end indices

/-! ### However the stream is cut -/

theorem counted_of_length {stream : List UInt8} (h : stream.length < 2 ^ 64) : Counted stream := by
  intro last host port _ _
  rw [List.length_drop]
  omega

/-- **The cut does not matter.** Every cut of a stream leads to its outcome, two of
them write the same and do the same besides, and every index is in range. Behind
the head of a request with a length follows as much as there is of it. -/
theorem serve_segmented [External] [SocksText] (stream : List UInt8) (hcounted : Counted stream)
    (ctx : ConnCtx) (hop : NextHop) (wire : Wire) (sizes sizes' : ℕ → ℕ) :
    Reaches ctx hop (cutInto sizes wire) stream (outcomeOf stream) ∧
      (Conveys wire →
        SameEnd (serve ctx hop (cutInto sizes wire) (.accepted stream))
          (serve ctx hop (cutInto sizes' wire) (.accepted stream))) ∧
      (outcomeOf stream = .closed ↔ ∀ last, headEnd stream = some last → headLimit < last) ∧
      (∀ last host port len, headEnd stream = some last → last ≤ headLimit →
        parseHead (stream.take last) = some ⟨.absolute, host, port, .sized len⟩ →
        ∃ head bytes, rewritten (stream.take last) host port = some head ∧
          outcomeOf stream = .request .absolute host port head bytes ∧
          bytes = (stream.drop last).take (min len (stream.drop last).length)) ∧
      readHeadIndexed (headLimit + 1) [] (cutInto sizes wire) (.accepted stream) =
        (readHead >>= fun found => pure (some found)) (cutInto sizes wire) (.accepted stream) ∧
      ∀ found conn, readHead (cutInto sizes wire) (.accepted stream) = (.ok (some found), conn) →
        ∀ method body, cutOut found method body = some (found.buffer.take found.last,
          behindTheHead (found.buffer.drop found.last) method body) := by
  refine ⟨serve_outcomeOf hcounted, fun hcarries => ?_, ?_, ?_,
    readHeadIndexed_eq (Nat.zero_le _) _ _,
    ?_⟩
  · exact sameEnd_of_reaches hcarries (serve_outcomeOf hcounted) (serve_outcomeOf hcounted)
  · unfold outcomeOf
    cases hend : headEnd stream with
    | none => simp
    | some last =>
        simp only [Option.some.injEq, forall_eq']
        split_ifs with hlimit
        · exact iff_of_true rfl hlimit
        · refine iff_of_false ?_ hlimit
          split
          · exact Outcome.noConfusion
          · split <;> exact Outcome.noConfusion
  · intro last host port len hend hle hparse
    obtain ⟨head, _, hrewritten, _⟩ := parseHead_rewritten hparse
    refine ⟨head, _, hrewritten, ?_, rfl⟩
    unfold outcomeOf
    simp only [hend, if_neg (Nat.not_lt.mpr hle), hparse, rebuilt, hrewritten, bodyWithin]
    rw [← List.take_take, List.take_length]
  · intro found conn hread method body
    obtain ⟨found', conn', hread', hfound⟩ := @readHead_cut wire sizes stream
    obtain ⟨hsame, rfl⟩ := Prod.mk.inj (hread.symm.trans hread')
    obtain rfl := Except.ok.inj hsame
    exact cutOut_eq (headEnd_append [] hfound.1).2 method body

/-- One request, read at once and byte by byte. -/
theorem serve_segmented_nextGet :
    let _ : External := .ascii
    let _ : SocksText := .silent
    SameEnd (serve ⟨.empty⟩ connecting (cutInto (fun _ => 8192) (.smooth (.v4 0 8080)))
        (.accepted nextGet))
      (serve ⟨.empty⟩ connecting (cutInto (fun _ => 1) (.smooth (.v4 0 8080)))
        (.accepted nextGet)) := by
  intro _ _
  have hcounted : Counted nextGet := counted_of_length (by decide +kernel)
  exact (serve_segmented nextGet hcounted ⟨.empty⟩ connecting (.smooth (.v4 0 8080))
    (fun _ => 8192) (fun _ => 1)).2.1 fun _ => rfl

section smooth

variable [External] [SocksText] {ctx : ConnCtx} {host : Host} {port : Port} {accepted : SocketAddr}
  {head rebuilt : List UInt8}

/-- Where the first read ends with the head, a copy takes all that follows. -/
theorem written_headFirst (tail : List UInt8) (hend : headEnd head = some head.length)
    (hlimit : head.length ≤ headLimit)
    (hparse : parseHead head = some ⟨.absolute, host, port, .streamed⟩)
    (hrewritten : rewritten head host port = some rebuilt) (hport : port ≠ accepted.port) :
    written (serve ctx connecting (cutInto (fun _ => head.length) (.smooth accepted))
      (.accepted (head ++ tail))).2.trace = rebuilt ++ tail.take (2 ^ 64 - 1) := by
  have hpos : 0 < head.length := by
    obtain ⟨⟨before, behind⟩, hsplit, _⟩ := Option.map_eq_some_iff.mp hend
    have hlength := congrArg List.length (append_of_splitOnce hsplit)
    simp only [List.length_append, blankLine, List.length_cons] at hlength
    omega
  have hsize : min (headLimit - ([] : List UInt8).length) (max 1 head.length) = head.length := by
    rw [List.length_nil]
    omega
  have hread : read (headLimit - ([] : List UInt8).length)
      (cutInto (fun _ => head.length) (.smooth accepted)) (.accepted (head ++ tail)) =
        (.ok head, ⟨tail, 1, none, []⟩) := by
    show (Except.ok ((head ++ tail).take (min _ _)),
      (⟨(head ++ tail).drop (min _ _), 1, none, []⟩ : Connection)) = _
    rw [hsize, List.take_left, List.drop_left]
  have hfound : readHead (cutInto (fun _ => head.length) (.smooth accepted))
      (.accepted (head ++ tail)) = (.ok (some ⟨head, head.length⟩), ⟨tail, 1, none, []⟩) := by
    rw [readHead_eq, Script.bind_of_ok hread,
      if_neg (List.length_pos_iff.mp hpos), List.nil_append, hend]
    rfl
  let forward : Forwarded := ⟨.absolute, rebuilt, [], .streamed⟩
  let routed := route ctx connecting host port refuseLoop (relay forward host port connecting)
  have hagree : Script.Agree (cutInto (fun _ => head.length) (.smooth accepted))
      (cutInto (fun _ => 8192) (.smooth accepted)) (Alike tail tail) routed routed :=
    agree_route (fun _ => rfl) rfl rfl rfl
  obtain ⟨_, halike⟩ := hagree ⟨tail, 1, none, []⟩ ⟨tail, 1, none, []⟩ ⟨rfl, rfl, rfl, rfl, rfl⟩
  have hroute : written (routed (cutInto (fun _ => 8192) (.smooth accepted))
      ⟨tail, 1, none, []⟩).2.trace = rebuilt ++ ([] ++ tail.take (2 ^ 64 - 1)) :=
    written_route hport
  unfold serve
  rw [Script.bind_of_ok hfound]
  simp only [List.take_length, List.drop_length, hparse, hrewritten, Http.rebuilt]
  exact halike.written.trans hroute

end smooth

/-- A body without a length is copied a byte further when a byte of it was read with
the head and the copy comes to the end of its count. -/
theorem cut_matters :
    let _ : External := .ascii
    let _ : SocksText := .silent
    ¬∀ (stream : List UInt8) (ctx : ConnCtx) (hop : NextHop) (wire : Wire) (sizes sizes' : ℕ → ℕ),
      Conveys wire →
        SameEnd (serve ctx hop (cutInto sizes wire) (.accepted stream))
          (serve ctx hop (cutInto sizes' wire) (.accepted stream)) := by
  intro _ _ hall
  obtain ⟨tail, htail⟩ : ∃ tail : List UInt8, tail.length = 2 ^ 64 :=
    ⟨List.replicate (2 ^ 64) 0, List.length_replicate⟩
  have hend : headEnd chunkedPost = some chunkedPost.length := by decide +kernel
  have hroom : chunkedPost.length < headLimit := by decide +kernel
  have hparse : parseHead chunkedPost = some ⟨.absolute, ⟨"a"⟩, 80, .streamed⟩ := by
    decide +kernel
  obtain ⟨rebuilt, _, hrewritten, _⟩ := parseHead_rewritten hparse
  have hport : (80 : Port) ≠ (SocketAddr.v4 0 8080).port := by decide
  have hsame := (hall (chunkedPost ++ tail) ⟨.empty⟩ connecting (.smooth (.v4 0 8080))
    (fun _ => 8192) (fun _ => chunkedPost.length) fun _ => rfl).2.1
  have hwritten : rebuilt ++ tail.take (reachOf chunkedPost .streamed) =
      rebuilt ++ tail.take (2 ^ 64 - 1) := by
    rw [← written_headFirst tail hend hroom.le hparse hrewritten hport, ← hsame]
    exact (serve_reaches (headEnd_append tail hend).1 hroom.le hparse hrewritten hport).symm
  have hlengths := congrArg List.length (List.append_cancel_left hwritten)
  simp only [List.length_take, htail, reachOf] at hlengths
  omega

end Nhop.Proxy.Http
