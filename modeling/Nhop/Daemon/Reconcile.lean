import Nhop.Daemon.Rerun

/-!
What replacing the forwards does to the listeners.

Where the operating system opens a listener at the address it is asked for, the
listeners behind a replacement are those held that stay wanted, on the same sockets
and with the targets wanted now, and one for each other address. Listening
addresses stay distinct, so that the forwards held are a map, and that map is the
one wanted. Its order is another matter: the held ones come first.
-/

namespace Nhop.Daemon

open Foundation Ipc Proxy

namespace Bound

/-- The addresses the forward listeners hold. -/
def addrs (bound : Bound) : List SocketAddr :=
  bound.forwards.map fun forwarding => forwarding.accepting.addr

/-- No address has two forward listeners. -/
def Distinct (bound : Bound) : Prop := bound.addrs.Nodup

/-- The target of a connection accepted at an address. -/
def targetAt (bound : Bound) (listen : SocketAddr) : Option Proxy.Target :=
  (bound.forwards.find? fun forwarding => forwarding.accepting.addr == listen).map
    Forwarding.target

/-- What a replacement of the forwards leaves: it serves what is wanted, a listener
whose address stays wanted is the one there was, one whose address does not is
closed, and no address has two. -/
structure Reconciled (before : Bound) (wanted : Forwards) (after : Bound) : Prop where
  serves : ∀ listen, after.targetAt listen = wanted.targetOf listen
  kept : ∀ forwarding ∈ before.forwards,
    forwarding.accepting.addr ∈ wanted.forwards.map Forward.listen →
      ∃ forwarding' ∈ after.forwards, forwarding'.accepting = forwarding.accepting
  closed : ∀ forwarding ∈ before.forwards,
    forwarding.accepting.addr ∉ wanted.forwards.map Forward.listen →
      forwarding.accepting.addr ∉ after.addrs
  distinct : after.Distinct
  frontEnds : after.http = before.http ∧ after.socks = before.socks

section lemmas

variable {os : Os} {calls calls' : ℕ} {bound after : Bound} {wanted returned : Forwards}
  {fresh : List Forwarding} {listen : SocketAddr} {target : Proxy.Target}

theorem held_iff_mem : bound.held listen = true ↔ listen ∈ bound.addrs := by
  rw [held_iff, addrs, List.mem_map]

theorem addrs_eq : bound.addrs = (bound.forwards.map Forwarding.forward).map Forward.listen := by
  rw [addrs, List.map_map]
  rfl

/-- Of listeners at distinct addresses, the one at an address serves it. -/
theorem targetAt_eq_some (h : bound.Distinct) :
    bound.targetAt listen = some target ↔
      (⟨listen, target⟩ : Forward) ∈ bound.forwards.map Forwarding.forward := by
  unfold targetAt
  constructor
  · intro hserves
    obtain ⟨forwarding, hfind, rfl⟩ := Option.map_eq_some_iff.mp hserves
    have haddr : forwarding.accepting.addr = listen := by simpa using List.find?_some hfind
    exact List.mem_map.mpr ⟨forwarding, List.mem_of_find?_eq_some hfind, by rw [← haddr]; rfl⟩
  · intro hforward
    obtain ⟨forwarding, hmem, hsame⟩ := List.mem_map.mp hforward
    cases hsame
    have hsome : ∃ found, bound.forwards.find? (fun other =>
        other.accepting.addr == forwarding.accepting.addr) = some found := by
      rw [← Option.isSome_iff_exists, List.find?_isSome]
      exact ⟨forwarding, hmem, by simp⟩
    obtain ⟨found, hfind⟩ := hsome
    have haddr : found.accepting.addr = forwarding.accepting.addr := by
      simpa using List.find?_some hfind
    rw [hfind, List.inj_on_of_nodup_map h (List.mem_of_find?_eq_some hfind) hmem haddr]
    rfl

theorem addrs_retained :
    ((bound.retained wanted).map fun forwarding => forwarding.accepting.addr) =
      bound.addrs.filter fun addr => (wanted.targetOf addr).isSome := by
  rw [retained, addrs, List.map_map, List.filter_map]
  refine List.map_congr_left fun forwarding _ => ?_
  simp only [Function.comp_apply]
  cases wanted.targetOf forwarding.accepting.addr <;> rfl

theorem mem_missing {forward : Forward} :
    forward ∈ bound.missing wanted.forwards ↔
      forward ∈ wanted.forwards ∧ forward.listen ∉ bound.addrs := by
  rw [missing, List.mem_filter, Bool.not_eq_true', ← Bool.not_eq_true, held_iff_mem]

/-- **A replacement that succeeds.** -/
theorem reconciled (hos : os.Honest) (hdistinct : bound.Distinct)
    (hports : ∀ forward ∈ bound.missing wanted.forwards, forward.listen.port ≠ 0)
    (hopens : Opens os calls (bound.missing wanted.forwards) fresh) :
    bound.Reconciled wanted { bound with forwards := bound.retained wanted ++ fresh } := by
  let after : Bound := { bound with forwards := bound.retained wanted ++ fresh }
  have hfresh : fresh.map Forwarding.forward = bound.missing wanted.forwards :=
    hos.opened hopens hports
  have hmem : ∀ forward, forward ∈ after.forwards.map Forwarding.forward ↔
      forward ∈ wanted.forwards := by
    intro forward
    rw [List.map_append, List.mem_append, mem_retained, hfresh, mem_missing, held_iff_mem]
    tauto
  have hafter : after.addrs = (bound.addrs.filter fun addr => (wanted.targetOf addr).isSome) ++
      (bound.missing wanted.forwards).map Forward.listen := by
    rw [← hfresh, ← addrs_retained, List.map_map, addrs, List.map_append]
    rfl
  have hnodup : after.Distinct := by
    rw [Distinct, hafter, List.nodup_append]
    refine ⟨hdistinct.filter _, ?_, ?_⟩
    · exact (List.filter_sublist.map _).nodup wanted.distinct
    · intro addr hheld addr' hnew hsame
      subst hsame
      obtain ⟨forward, hforward, rfl⟩ := List.mem_map.mp hnew
      exact (mem_missing.mp hforward).2 (List.mem_of_mem_filter hheld)
  refine ⟨fun listen => ?_, fun forwarding hforwarding hwanted => ?_,
    fun forwarding hforwarding hwanted => ?_, hnodup, rfl, rfl⟩
  · apply Option.ext
    intro target
    show after.targetAt listen = some target ↔ wanted.targetOf listen = some target
    rw [targetAt_eq_some hnodup, hmem, Forwards.targetOf_eq_some]
  · obtain ⟨target, htarget⟩ :=
      Option.isSome_iff_exists.mp (Forwards.targetOf_isSome.mpr hwanted)
    refine ⟨{ forwarding with target := target }, List.mem_append_left _ ?_, rfl⟩
    refine List.mem_map.mpr ⟨forwarding, List.mem_filter.mpr ⟨hforwarding, ?_⟩, ?_⟩
    · rw [htarget]
      rfl
    · simp only [htarget]
  · intro hstays
    rw [hafter, List.mem_append, List.mem_filter, Forwards.targetOf_isSome] at hstays
    rcases hstays with ⟨_, hin⟩ | hin
    · exact hwanted hin
    · exact hwanted ((List.filter_sublist.map _).subset hin)

end lemmas

/-- **Forwards are reconciled.** For listeners at distinct addresses and wanted
forwards with ports of their own, a replacement that succeeds serves what is wanted
over the listeners there were, and one that fails changes nothing. -/
theorem rebindForwards_reconciles (os : Os) (hos : os.Honest) (calls : ℕ) (bound : Bound)
    (hdistinct : bound.Distinct) (wanted : Forwards)
    (hports : ∀ forward ∈ wanted.forwards, forward.listen.port ≠ 0) :
    match bound.rebindForwards os calls wanted with
    | (.ok _, after, _) => bound.Reconciled wanted after
    | (.error _, after, _) => after = bound := by
  cases hgranted : os.grants calls (bound.toForward wanted) with
  | true =>
      obtain ⟨fresh, hfresh, hopens⟩ := rebindForwards_granted hgranted
      rw [hfresh]
      exact reconciled hos hdistinct (fun forward hmem => hports forward (mem_missing.mp hmem).1)
        hopens
  | false =>
      obtain ⟨failure, calls', hrefused, _⟩ := rebindForwards_refused hgranted
      rw [hrefused]

/-- A forward at a port of the local machine. -/
def forwardAt (port : UInt16) (host : String) : Forward :=
  ⟨.v4 0x7f000001#32 port, ⟨⟨host⟩, 443⟩⟩

/-- Listeners that were opened for two forwards. -/
def twoForwards : Bound where
  http := ⟨DaemonState.defaultListen.http, 0⟩
  socks := ⟨DaemonState.defaultListen.socks, 1⟩
  forwards :=
    [⟨⟨.v4 0x7f000001#32 9000, 2⟩, ⟨⟨"a"⟩, 443⟩⟩, ⟨⟨.v4 0x7f000001#32 9001, 3⟩, ⟨⟨"b"⟩, 443⟩⟩]

/-- The second forward with another target, and a new one in place of the first. -/
def retargeted : Forwards := ⟨[forwardAt 9002 "c", forwardAt 9001 "d"], by decide⟩

theorem rebindForwards_reconciles_retargeted :
    match twoForwards.rebindForwards DaemonState.willing 4 retargeted with
    | (.ok _, after, _) => twoForwards.Reconciled retargeted after
    | (.error _, after, _) => after = twoForwards := by
  have hdistinct : twoForwards.Distinct := by
    unfold Distinct
    decide
  exact rebindForwards_reconciles DaemonState.willing (fun _ _ _ h _ => (Except.ok.inj h).symm) 4
    twoForwards hdistinct retargeted (by decide)

end Bound

end Nhop.Daemon
