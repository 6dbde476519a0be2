import Nhop.Rules.Ruleset

/-!
What a configuration lists besides rules: the two listening addresses, the
forwards, and the upstreams.

Forwards and upstreams are only ever built through `push` and `parse`, which
turn a repeated address away, so the lists carry the fact that no address is
repeated and nothing later has to establish it again. An upstream keeps the text
the operator wrote beside the socket that text reads as.
-/

namespace Nhop.Proxy

open Foundation Ipc

/-- Addresses the two protocol front ends listen on. -/
@[ext] structure Listen where
  http : SocketAddr
  socks : SocketAddr
  deriving DecidableEq, Repr

/-- Destination a forward front end routes every connection to. -/
structure Target where
  host : Host
  port : Port
  deriving DecidableEq, Repr

/-- One forward front end. -/
structure Forward where
  listen : SocketAddr
  target : Target
  deriving DecidableEq, Repr

def Forward.view (forward : Forward) : ForwardView :=
  ⟨forward.listen, forward.target.host, forward.target.port⟩

/-- Rejection of a forward on an address another one already declares. -/
structure DuplicateForward where
  listen : SocketAddr
  deriving DecidableEq, Repr

instance : ToString DuplicateForward :=
  ⟨fun failure => "a forward already listens on " ++ toString failure.listen⟩

/-! ### Forwards -/

/-- Forward front ends in declaration order, one for each listening address. -/
structure Forwards where
  forwards : List Forward
  distinct : (forwards.map Forward.listen).Nodup
  deriving DecidableEq, Repr

namespace Forwards

def empty : Forwards := ⟨[], List.nodup_nil⟩

instance : Inhabited Forwards := ⟨empty⟩

@[simp] theorem forwards_empty : empty.forwards = [] := rfl

@[ext] theorem ext {a b : Forwards} (h : a.forwards = b.forwards) : a = b := by
  cases a
  cases b
  simp_all

/-- Appends a forward, refusing a second one on an address already declared. -/
def push (declared : Forwards) (forward : Forward) : Except DuplicateForward Forwards :=
  if h : forward.listen ∈ declared.forwards.map Forward.listen then
    .error ⟨forward.listen⟩
  else .ok
    { forwards := declared.forwards ++ [forward]
      distinct := by
        rw [List.map_append, List.nodup_append]
        refine ⟨declared.distinct, List.nodup_singleton _, ?_⟩
        intro a ha b hb hab
        obtain rfl : b = forward.listen := by simpa using hb
        exact h (hab ▸ ha) }

/-- The destination declared for an address. -/
def targetOf (declared : Forwards) (listen : SocketAddr) : Option Target :=
  (declared.forwards.find? fun forward => forward.listen == listen).map Forward.target

def views (declared : Forwards) : List ForwardView := declared.forwards.map Forward.view

theorem push_eq_ok {declared result : Forwards} {forward : Forward} :
    declared.push forward = .ok result ↔
      forward.listen ∉ declared.forwards.map Forward.listen ∧
        result.forwards = declared.forwards ++ [forward] := by
  unfold push
  split
  · next h => simp [h]
  · next h =>
      simp only [Except.ok.injEq, h, not_false_eq_true, true_and]
      constructor
      · rintro rfl
        rfl
      · intro hresult
        exact (ext hresult).symm

theorem push_eq_error {declared : Forwards} {forward : Forward} {failure : DuplicateForward} :
    declared.push forward = .error failure ↔
      forward.listen ∈ declared.forwards.map Forward.listen ∧ failure = ⟨forward.listen⟩ := by
  unfold push
  split
  · next h => simp [h, eq_comm]
  · next h => simp [h]

/-- Looking an address up finds the one forward that declares it. -/
theorem targetOf_eq_some {declared : Forwards} {listen : SocketAddr} {target : Target} :
    declared.targetOf listen = some target ↔ ⟨listen, target⟩ ∈ declared.forwards := by
  unfold targetOf
  constructor
  · intro h
    obtain ⟨forward, hfind, rfl⟩ := Option.map_eq_some_iff.mp h
    have hlisten : forward.listen = listen := by simpa using List.find?_some hfind
    have hmem := List.mem_of_find?_eq_some hfind
    rwa [← hlisten]
  · intro hmem
    obtain ⟨forward, hfind⟩ : ∃ forward,
        declared.forwards.find? (fun forward => forward.listen == listen) = some forward := by
      rw [← Option.isSome_iff_exists, List.find?_isSome]
      exact ⟨_, hmem, by simp⟩
    have hlisten : forward.listen = listen := by simpa using List.find?_some hfind
    have hsame : forward = ⟨listen, target⟩ :=
      List.inj_on_of_nodup_map declared.distinct (List.mem_of_find?_eq_some hfind) hmem
        (by simpa using hlisten)
    rw [hfind, hsame]
    rfl

theorem targetOf_isSome {declared : Forwards} {listen : SocketAddr} :
    (declared.targetOf listen).isSome = true ↔
      listen ∈ declared.forwards.map Forward.listen := by
  rw [Option.isSome_iff_exists]
  constructor
  · rintro ⟨target, h⟩
    exact List.mem_map.mpr ⟨_, targetOf_eq_some.mp h, rfl⟩
  · intro h
    obtain ⟨⟨_, target⟩, hmem, rfl⟩ := List.mem_map.mp h
    exact ⟨target, targetOf_eq_some.mpr hmem⟩

end Forwards

/-! ### Upstreams -/

/-- Address reported while no upstream is configured; port zero makes it
undialable. -/
def noUpstream : SocketAddr := .v4 0x7f000001#32 0

/-- The text of an upstream without surrounding blanks and scheme. -/
def bareAddr (written : UpstreamAddr) : String :=
  let text := trim written.text
  (stripStart "socks5://" text).getD text

/-- Upstream proxy, as the operator wrote it and as it is dialled. -/
structure Upstream where
  written : UpstreamAddr
  socket : SocketAddr
  reads : SocketAddr.parse (bareAddr written) = some socket
  deriving DecidableEq, Repr

/-- Rejection of an upstream address that cannot be dialled. -/
structure InvalidUpstream where
  text : String
  deriving DecidableEq, Repr

/-- Rejection of an upstream list that names one address twice. -/
structure DuplicateUpstream where
  socket : SocketAddr
  deriving DecidableEq, Repr

/-- Rejection of an upstream list a command named. -/
inductive UnusableUpstreams
  | invalid (failure : InvalidUpstream)
  | duplicate (failure : DuplicateUpstream)
  deriving DecidableEq, Repr

def UnusableUpstreams.display [External] : UnusableUpstreams → String
  | .invalid ⟨text⟩ =>
      "upstream must be socks5://<ip>:<port>, got " ++ External.debug text
  | .duplicate ⟨socket⟩ => "upstream " ++ toString socket ++ " is listed more than once"

namespace Upstream

/-- Reads the `socks5://<ip>:<port>` form, scheme optional. -/
def parse (written : UpstreamAddr) : Except InvalidUpstream Upstream :=
  match h : SocketAddr.parse (bareAddr written) with
  | some socket => .ok ⟨written, socket, h⟩
  | none => .error ⟨bareAddr written⟩

end Upstream

/-- Upstream proxies in the order the operator prefers them, each socket address
at most once. -/
structure Upstreams where
  entries : List Upstream
  distinct : (entries.map Upstream.socket).Nodup
  deriving DecidableEq, Repr

namespace Upstreams

def empty : Upstreams := ⟨[], List.nodup_nil⟩

@[ext] theorem ext {a b : Upstreams} (h : a.entries = b.entries) : a = b := by
  cases a
  cases b
  simp_all

/-- Reads one more address behind the ones already read. -/
def add (listed : Upstreams) (written : UpstreamAddr) : Except UnusableUpstreams Upstreams :=
  match Upstream.parse written with
  | .error failure => .error (.invalid failure)
  | .ok upstream =>
      if h : upstream.socket ∈ listed.entries.map Upstream.socket then
        .error (.duplicate ⟨upstream.socket⟩)
      else .ok
        { entries := listed.entries ++ [upstream]
          distinct := by
            rw [List.map_append, List.nodup_append]
            refine ⟨listed.distinct, List.nodup_singleton _, ?_⟩
            intro a ha b hb hab
            obtain rfl : b = upstream.socket := by simpa using hb
            exact h (hab ▸ ha) }

/-- Reads the first upstream and its fallbacks, in the order written. -/
def parse (first : UpstreamAddr) (fallbacks : List UpstreamAddr) :
    Except UnusableUpstreams Upstreams :=
  (first :: fallbacks).foldlM add empty

end Upstreams

/-! ### Addresses to run the model on -/

def upstreamA : Upstream := ⟨⟨"192.0.2.10:1080"⟩, .v4 0xc000020a#32 1080, by decide⟩

def upstreamB : Upstream := ⟨⟨"192.0.2.11:1080"⟩, .v4 0xc000020b#32 1080, by decide⟩

def listA : Upstreams := ⟨[upstreamA], by decide⟩

def listB : Upstreams := ⟨[upstreamB], by decide⟩

def listAB : Upstreams := ⟨[upstreamA, upstreamB], by decide⟩

end Nhop.Proxy
