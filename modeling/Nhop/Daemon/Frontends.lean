import Nhop.Proxy.Listed

/-!
The listeners a running daemon accepts traffic on.

The operating system answers every attempt to bind an address with the address
the listener got or a failure; the answers are a parameter, one for each
attempt, so that every pattern of failures is some parameter. A listener is
known by the attempt that opened it, which tells a listener that was kept from
one that was closed and opened again on the same address.

Moving the two protocol front ends and replacing the set of forwards each open
everything they need before they close anything.
-/

namespace Nhop.Daemon

open Foundation Ipc Proxy

/-- What the operating system answers the `n`-th attempt to bind an address. -/
structure Os where
  bind : ℕ → SocketAddr → Except OsError SocketAddr

/-- Whether the attempts from the `n`-th on succeed, for these addresses in
order. -/
def Os.grants (os : Os) : ℕ → List SocketAddr → Bool
  | _, [] => true
  | n, addr :: addrs => (os.bind n addr).isOk && os.grants (n + 1) addrs

/-- One listener and the task accepting on it. -/
structure Accepting where
  addr : SocketAddr
  accepting : ℕ
  deriving DecidableEq, Repr

/-- One forward listener, and the destination it reads for each connection. -/
structure Forwarding where
  accepting : Accepting
  target : Target
  deriving DecidableEq, Repr

def Forwarding.forward (forwarding : Forwarding) : Forward :=
  ⟨forwarding.accepting.addr, forwarding.target⟩

/-- Binds an address, in the attempt `calls`. -/
def bindTcp (os : Os) (calls : ℕ) (addr : SocketAddr) : Except OsError Accepting × ℕ :=
  match os.bind calls addr with
  | .ok bound => (.ok ⟨bound, calls⟩, calls + 1)
  | .error failure => (.error failure, calls + 1)

/-- Binds an address unless it is the one held. -/
def bindUnlessHeld (os : Os) (calls : ℕ) (addr held : SocketAddr) :
    Except OsError (Option Accepting) × ℕ :=
  if addr = held then (.ok none, calls)
  else
    match bindTcp os calls addr with
    | (.ok opened, calls) => (.ok (some opened), calls)
    | (.error failure, calls) => (.error failure, calls)

/-- The listeners of a daemon that serves traffic. -/
structure Bound where
  http : Accepting
  socks : Accepting
  forwards : List Forwarding
  deriving DecidableEq, Repr

namespace Bound

def listen (bound : Bound) : Listen := ⟨bound.http.addr, bound.socks.addr⟩

/-- Moves both protocol front ends, keeping a listener that already holds the
address asked for. -/
def rebind (os : Os) (calls : ℕ) (bound : Bound) (listen : Listen) :
    Except OsError Listen × Bound × ℕ :=
  match bindUnlessHeld os calls listen.http bound.http.addr with
  | (.error failure, calls) => (.error failure, bound, calls)
  | (.ok http, calls) =>
      -- the HTTP listener that was opened goes with the failure
      match bindUnlessHeld os calls listen.socks bound.socks.addr with
      | (.error failure, calls) => (.error failure, bound, calls)
      | (.ok socks, calls) =>
          let moved : Bound :=
            { bound with http := http.getD bound.http, socks := socks.getD bound.socks }
          (.ok moved.listen, moved, calls)

def held (bound : Bound) (listen : SocketAddr) : Bool :=
  bound.forwards.any fun forwarding => forwarding.accepting.addr == listen

/-- Opens every wanted forward whose address is not held, in order. -/
def openFresh (os : Os) (bound : Bound) :
    List Forward → ℕ → Except OsError (List Forwarding) × ℕ
  | [], calls => (.ok [], calls)
  | forward :: rest, calls =>
      if bound.held forward.listen then openFresh os bound rest calls
      else
        match bindTcp os calls forward.listen with
        | (.error failure, calls) => (.error failure, calls)
        | (.ok opened, calls) =>
            -- what was opened so far goes with a later failure
            match openFresh os bound rest calls with
            | (.error failure, calls) => (.error failure, calls)
            | (.ok fresh, calls) => (.ok (⟨opened, forward.target⟩ :: fresh), calls)

/-- The forwards held, in the order their listeners are kept. -/
def forwardsHeld (bound : Bound) : Forwards :=
  bound.forwards.foldl (fun forwards forwarding =>
    match forwards.push forwarding.forward with
    | .ok forwards => forwards
    | .error _ => forwards) .empty

/-- The held listeners that stay wanted, with the destinations wanted for them. -/
def retained (bound : Bound) (wanted : Forwards) : List Forwarding :=
  (bound.forwards.filter fun forwarding =>
      (wanted.targetOf forwarding.accepting.addr).isSome).map fun forwarding =>
    match wanted.targetOf forwarding.accepting.addr with
    | none => forwarding
    | some target => { forwarding with target := target }

/-- Makes the set of forwards match the wanted one. -/
def rebindForwards (os : Os) (calls : ℕ) (bound : Bound) (wanted : Forwards) :
    Except OsError Forwards × Bound × ℕ :=
  match openFresh os bound wanted.forwards calls with
  | (.error failure, calls) => (.error failure, bound, calls)
  | (.ok fresh, calls) =>
      -- the listeners held stay in front, whatever order is wanted
      let bound := { bound with forwards := bound.retained wanted ++ fresh }
      (.ok bound.forwardsHeld, bound, calls)

/-- The addresses a move of the front ends has to open. -/
def toOpen (bound : Bound) (listen : Listen) : List SocketAddr :=
  (if listen.http = bound.http.addr then [] else [listen.http]) ++
    (if listen.socks = bound.socks.addr then [] else [listen.socks])

/-- The addresses a set of forwards has to open. -/
def toForward (bound : Bound) (wanted : Forwards) : List SocketAddr :=
  (wanted.forwards.map Forward.listen).filter fun listen => !bound.held listen

end Bound

/-- Front ends the daemon serves traffic on. -/
inductive Frontends
  | unbound
  | bound (listeners : Bound)
  deriving DecidableEq, Repr

namespace Frontends

/-- Binds both protocol front ends, with no forward yet. -/
def bind (os : Os) (listen : Listen) : Except OsError Frontends × ℕ :=
  match bindTcp os 0 listen.http with
  | (.error failure, calls) => (.error failure, calls)
  | (.ok http, calls) =>
      match bindTcp os calls listen.socks with
      | (.error failure, calls) => (.error failure, calls)
      | (.ok socks, calls) => (.ok (.bound ⟨http, socks, []⟩), calls)

/-- The addresses the protocol front ends hold, absent while nothing is bound. -/
def listening (frontends : Frontends) : Option Listen :=
  match frontends with
  | .unbound => none
  | .bound listeners => some listeners.listen

def rebind (os : Os) (calls : ℕ) (frontends : Frontends) (listen : Listen) :
    Except OsError Listen × Frontends × ℕ :=
  match frontends with
  | .unbound => (.ok listen, .unbound, calls)
  | .bound listeners =>
      let (result, listeners, calls) := listeners.rebind os calls listen
      (result, .bound listeners, calls)

def rebindForwards (os : Os) (calls : ℕ) (frontends : Frontends) (wanted : Forwards) :
    Except OsError Forwards × Frontends × ℕ :=
  match frontends with
  | .unbound => (.ok wanted, .unbound, calls)
  | .bound listeners =>
      let (result, listeners, calls) := listeners.rebindForwards os calls wanted
      (result, .bound listeners, calls)

/-- The addresses a move of the front ends has to open. -/
def toOpen (frontends : Frontends) (listen : Listen) : List SocketAddr :=
  match frontends with
  | .unbound => []
  | .bound listeners => listeners.toOpen listen

/-- The addresses a set of forwards has to open. -/
def toForward (frontends : Frontends) (wanted : Forwards) : List SocketAddr :=
  match frontends with
  | .unbound => []
  | .bound listeners => listeners.toForward wanted

end Frontends

/-! ### What the two moves do -/

section lemmas

variable {os : Os} {calls : ℕ}

theorem Os.grants_append {addrs addrs' : List SocketAddr} :
    os.grants calls (addrs ++ addrs') =
      (os.grants calls addrs && os.grants (calls + addrs.length) addrs') := by
  induction addrs generalizing calls with
  | nil => rfl
  | cons addr addrs ih =>
      simp only [List.cons_append, Os.grants, ih, List.length_cons, Bool.and_assoc]
      rw [Nat.add_assoc, Nat.add_comm 1]

theorem bindUnlessHeld_granted {addr held : SocketAddr}
    (h : os.grants calls (if addr = held then [] else [addr]) = true) :
    ∃ opened, bindUnlessHeld os calls addr held =
        (.ok opened, calls + (if addr = held then [] else [addr]).length) ∧
      (addr = held → opened = none) ∧
      (addr ≠ held → ∃ bound, os.bind calls addr = .ok bound ∧ opened = some ⟨bound, calls⟩) := by
  unfold bindUnlessHeld bindTcp
  by_cases hheld : addr = held
  · simp [hheld]
  · simp only [hheld, if_false, Os.grants, Bool.and_true] at h ⊢
    cases hbind : os.bind calls addr with
    | error failure => simp [hbind, Except.isOk, Except.toBool] at h
    | ok bound => simp

theorem bindUnlessHeld_refused {addr held : SocketAddr}
    (h : os.grants calls (if addr = held then [] else [addr]) = false) :
    ∃ failure calls', bindUnlessHeld os calls addr held = (.error failure, calls') ∧
      calls ≤ calls' := by
  unfold bindUnlessHeld bindTcp
  by_cases hheld : addr = held
  · simp [hheld, Os.grants] at h
  · simp only [hheld, if_false, Os.grants, Bool.and_true] at h ⊢
    cases hbind : os.bind calls addr with
    | error failure => simp
    | ok bound => simp [hbind, Except.isOk, Except.toBool] at h

/-- What a front end is after a move: the listener it had when the address is the
one it held, and otherwise a new one, on the address one of the attempts made
between `calls` and `calls'` got. -/
def Moves (os : Os) (calls calls' : ℕ) (wanted : SocketAddr) (before after : Accepting) : Prop :=
  (wanted = before.addr ∧ after = before) ∨
    (wanted ≠ before.addr ∧ ∃ call bound, calls ≤ call ∧ call < calls' ∧
      os.bind call wanted = .ok bound ∧ after = ⟨bound, call⟩)

theorem bindUnlessHeld_moves {wanted : SocketAddr} {before : Accepting}
    (h : os.grants calls (if wanted = before.addr then [] else [wanted]) = true) {calls₀ calls' : ℕ}
    (hfirst : calls₀ ≤ calls)
    (hlast : calls + (if wanted = before.addr then [] else [wanted]).length ≤ calls') :
    ∃ opened, bindUnlessHeld os calls wanted before.addr =
        (.ok opened, calls + (if wanted = before.addr then [] else [wanted]).length) ∧
      Moves os calls₀ calls' wanted before (opened.getD before) := by
  obtain ⟨opened, hopened, hkept, hnew⟩ := bindUnlessHeld_granted h
  refine ⟨opened, hopened, ?_⟩
  by_cases hheld : wanted = before.addr
  · left
    rw [hkept hheld]
    exact ⟨hheld, rfl⟩
  · right
    obtain ⟨addr, hbind, rfl⟩ := hnew hheld
    have hlength : calls + 1 ≤ calls' := by simpa [hheld] using hlast
    exact ⟨hheld, calls, addr, hfirst, hlength, hbind, rfl⟩

variable {bound : Bound} {listen : Listen} {wanted : Forwards}

/-- **A move of the front ends** whose addresses are all granted. -/
theorem Bound.rebind_granted (h : os.grants calls (bound.toOpen listen) = true) :
    ∃ moved, bound.rebind os calls listen =
        (.ok moved.listen, moved, calls + (bound.toOpen listen).length) ∧
      moved.forwards = bound.forwards ∧
      Moves os calls (calls + (bound.toOpen listen).length) listen.http bound.http moved.http ∧
      Moves os calls (calls + (bound.toOpen listen).length) listen.socks bound.socks
        moved.socks := by
  unfold Bound.toOpen at h ⊢
  rw [Os.grants_append, Bool.and_eq_true] at h
  rw [List.length_append, ← Nat.add_assoc]
  obtain ⟨http, hhttp, hmovesHttp⟩ :=
    bindUnlessHeld_moves h.1 (Nat.le_refl calls) (Nat.le_add_right _ _)
  obtain ⟨socks, hsocks, hmovesSocks⟩ :=
    bindUnlessHeld_moves h.2 (Nat.le_add_right calls _) (Nat.le_refl _)
  refine ⟨{ bound with http := http.getD bound.http, socks := socks.getD bound.socks }, ?_, rfl,
    hmovesHttp, hmovesSocks⟩
  unfold Bound.rebind
  rw [hhttp]
  simp only
  rw [hsocks]

/-- A move that is refused an address moves nothing. -/
theorem Bound.rebind_refused (h : os.grants calls (bound.toOpen listen) = false) :
    ∃ failure calls', bound.rebind os calls listen = (.error failure, bound, calls') ∧
      calls ≤ calls' := by
  unfold Bound.toOpen at h
  rw [Os.grants_append, Bool.and_eq_false_iff] at h
  unfold Bound.rebind
  cases hfirst : os.grants calls (if listen.http = bound.http.addr then [] else [listen.http]) with
  | false =>
      obtain ⟨failure, calls', hhttp, hle⟩ := bindUnlessHeld_refused hfirst
      exact ⟨failure, calls', by rw [hhttp], hle⟩
  | true =>
      have hsecond := h.resolve_left (by simp [hfirst])
      obtain ⟨http, hhttp, _⟩ := bindUnlessHeld_granted hfirst
      obtain ⟨failure, calls', hsocks, hle⟩ := bindUnlessHeld_refused hsecond
      refine ⟨failure, calls', ?_, by omega⟩
      rw [hhttp]
      simp only
      rw [hsocks]

/-- The listeners opened for a set of forwards: one for each address to open, in
order, on the addresses the attempts from `calls` on got. -/
def Opens (os : Os) : ℕ → List Forward → List Forwarding → Prop
  | _, [], fresh => fresh = []
  | calls, forward :: rest, fresh => ∃ bound more, os.bind calls forward.listen = .ok bound ∧
      fresh = ⟨⟨bound, calls⟩, forward.target⟩ :: more ∧ Opens os (calls + 1) rest more

/-- The wanted forwards whose address is not held. -/
def Bound.missing (bound : Bound) (wanted : List Forward) : List Forward :=
  wanted.filter fun forward => !bound.held forward.listen

theorem Bound.toForward_eq :
    bound.toForward wanted = (bound.missing wanted.forwards).map Forward.listen := by
  simp [Bound.toForward, Bound.missing, List.filter_map, Function.comp_def]

theorem Bound.openFresh_granted {wanted : List Forward}
    (h : os.grants calls ((bound.missing wanted).map Forward.listen) = true) :
    ∃ fresh, Bound.openFresh os bound wanted calls =
        (.ok fresh, calls + (bound.missing wanted).length) ∧
      Opens os calls (bound.missing wanted) fresh := by
  induction wanted generalizing calls with
  | nil => exact ⟨[], rfl, rfl⟩
  | cons forward rest ih =>
      unfold Bound.openFresh
      cases hheld : bound.held forward.listen with
      | true =>
          have hsame : bound.missing (forward :: rest) = bound.missing rest := by
            simp [Bound.missing, hheld]
          rw [hsame] at h ⊢
          simpa using ih h
      | false =>
          have hcons : bound.missing (forward :: rest) = forward :: bound.missing rest := by
            simp [Bound.missing, hheld]
          rw [hcons, List.map_cons, Os.grants, Bool.and_eq_true] at h
          obtain ⟨hone, hrest⟩ := h
          obtain ⟨fresh, hfresh, hopens⟩ := ih hrest
          cases hbind : os.bind calls forward.listen with
          | error failure => simp [hbind, Except.isOk, Except.toBool] at hone
          | ok addr =>
              refine ⟨⟨⟨addr, calls⟩, forward.target⟩ :: fresh, ?_, ?_⟩
              · simp only [Bool.false_eq_true, if_false, bindTcp, hbind, hfresh, hcons,
                  List.length_cons]
                rw [Nat.add_assoc, Nat.add_comm 1]
              · rw [hcons]
                exact ⟨addr, fresh, hbind, rfl, hopens⟩

theorem Bound.openFresh_refused {wanted : List Forward}
    (h : os.grants calls ((bound.missing wanted).map Forward.listen) = false) :
    ∃ failure calls', Bound.openFresh os bound wanted calls = (.error failure, calls') ∧
      calls ≤ calls' := by
  induction wanted generalizing calls with
  | nil => simp [Bound.missing, Os.grants] at h
  | cons forward rest ih =>
      unfold Bound.openFresh
      cases hheld : bound.held forward.listen with
      | true =>
          have hsame : bound.missing (forward :: rest) = bound.missing rest := by
            simp [Bound.missing, hheld]
          rw [hsame] at h
          simpa using ih h
      | false =>
          have hcons : bound.missing (forward :: rest) = forward :: bound.missing rest := by
            simp [Bound.missing, hheld]
          rw [hcons, List.map_cons, Os.grants] at h
          cases hbind : os.bind calls forward.listen with
          | error failure =>
              exact ⟨failure, calls + 1, by simp [bindTcp, hbind], by omega⟩
          | ok addr =>
              have hrest : os.grants (calls + 1) ((bound.missing rest).map Forward.listen) =
                  false := by simpa [hbind, Except.isOk, Except.toBool] using h
              obtain ⟨failure, calls', hfresh, hle⟩ := ih hrest
              exact ⟨failure, calls', by simp [bindTcp, hbind, hfresh], by omega⟩

/-- **A replacement of the forwards** whose addresses are all granted. -/
theorem Bound.rebindForwards_granted (h : os.grants calls (bound.toForward wanted) = true) :
    ∃ fresh, bound.rebindForwards os calls wanted =
        (.ok { bound with forwards := bound.retained wanted ++ fresh }.forwardsHeld,
          { bound with forwards := bound.retained wanted ++ fresh },
          calls + (bound.toForward wanted).length) ∧
      Opens os calls (bound.missing wanted.forwards) fresh := by
  rw [Bound.toForward_eq] at h ⊢
  obtain ⟨fresh, hfresh, hopens⟩ := Bound.openFresh_granted h
  refine ⟨fresh, ?_, hopens⟩
  simp only [Bound.rebindForwards, hfresh, List.length_map]

theorem Bound.rebindForwards_refused (h : os.grants calls (bound.toForward wanted) = false) :
    ∃ failure calls', bound.rebindForwards os calls wanted = (.error failure, bound, calls') ∧
      calls ≤ calls' := by
  rw [Bound.toForward_eq] at h
  obtain ⟨failure, calls', hfresh, hle⟩ := Bound.openFresh_refused h
  exact ⟨failure, calls', by simp only [Bound.rebindForwards, hfresh], hle⟩

end lemmas

end Nhop.Daemon
