import Nhop.Foundation.Display
import Nhop.Foundation.Octets
import Nhop.Foundation.Utf8
import Nhop.Proxy.Reading
import Nhop.Proxy.Socks5

/-!
The two messages of a SOCKS5 client, and that they are decoded exactly.

The messages are given by what they say: a greeting by the methods it offers, a
request by the destination it names. Whatever else a client sends first has a shape
of its own, for each way in which it is no such message. The front end reads off the
bytes of what it recognises and leaves every later byte alone (`socks5_exact`).
-/

namespace Nhop.Proxy.Socks5

open Foundation Ipc

/-! ### Messages -/

/-- What a greeting can offer. -/
structure Methods where
  offered : List UInt8
  fits : offered.length ≤ 255
  deriving DecidableEq

/-- A name a request can hold. -/
structure Name where
  text : String
  written : text ≠ ""
  fits : (utf8Bytes text.toList).length ≤ 255
  deriving DecidableEq

/-- Where a client asks to be connected to. -/
inductive Destination
  | ipv4 (bits : BitVec 32)
  | domain (name : Name)
  | ipv6 (bits : BitVec 128)
  deriving DecidableEq

def greetingBytes (methods : Methods) : List UInt8 :=
  5 :: UInt8.ofNat methods.offered.length :: methods.offered

namespace Destination

def atyp : Destination → UInt8
  | .ipv4 _ => 1
  | .domain _ => 3
  | .ipv6 _ => 4

def bytes : Destination → List UInt8
  | .ipv4 bits => octets 4 bits.toNat
  | .domain name =>
      UInt8.ofNat (utf8Bytes name.text.toList).length :: utf8Bytes name.text.toList
  | .ipv6 bits => octets 16 bits.toNat

/-- How the front end names the destination. -/
def host : Destination → Host
  | .ipv4 bits => ⟨(IpAddr.v4 bits).display⟩
  | .domain name => ⟨name.text⟩
  | .ipv6 bits => ⟨(IpAddr.v6 bits).display⟩

/-- A name is the destination's byte for byte, and a literal is read as its address. -/
def SpelledBy (host : Host) : Destination → Prop
  | .ipv4 bits => IpAddr.parse host.name = some (.v4 bits)
  | .domain name => utf8Bytes host.name.toList = utf8Bytes name.text.toList
  | .ipv6 bits => IpAddr.parse host.name = some (.v6 bits)

theorem spelledBy_host (destination : Destination) : destination.SpelledBy destination.host := by
  cases destination with
  | ipv4 bits => exact parse_display (.v4 bits)
  | domain name => rfl
  | ipv6 bits => exact parse_display (.v6 bits)

end Destination

def requestBytes (reserved : UInt8) (destination : Destination) (port : Port) : List UInt8 :=
  5 :: 1 :: reserved :: destination.atyp ::
    (destination.bytes ++ octets 2 port.toNat)

/-- What a stream begins with where the front end reads a greeting. -/
inductive Opening : List UInt8 → Greeting → Prop
  | noAuth (methods : Methods) (h : noAuth ∈ methods.offered) :
      Opening (greetingBytes methods) .noAuth
  | noMethod (methods : Methods) (h : Socks5.noAuth ∉ methods.offered) :
      Opening (greetingBytes methods) .rejected
  | otherVersion (spoken count : UInt8) (h : spoken ≠ version) :
      Opening [spoken, count] .rejected

/-- What it begins with where the front end reads the destination of a request. -/
inductive Named (atyp : UInt8) : List UInt8 → Except Reply Host → Prop
  | destination (destination : Destination) (h : destination.atyp = atyp) :
      Named atyp destination.bytes (.ok destination.host)
  | noName (name : List UInt8) (hfits : name.length ≤ 255)
      (hnone : ∀ written : Name, name ≠ utf8Bytes written.text.toList) (h : atyp = atypDomain) :
      Named atyp (UInt8.ofNat name.length :: name) (.error .failure)
  | otherType (h : ∀ destination : Destination, destination.atyp ≠ atyp) :
      Named atyp [] (.error .addressNotSupported)

/-- What it begins with where the front end reads a request. -/
inductive Asking : List UInt8 → Requested → Prop
  | connect (reserved : UInt8) (destination : Destination) (port : Port) :
      Asking (requestBytes reserved destination port) (.connect destination.host port)
  | otherVersion (spoken command reserved atyp : UInt8) (h : spoken ≠ version) :
      Asking [spoken, command, reserved, atyp] (.refused .failure)
  | otherCommand (command reserved atyp : UInt8) (h : command ≠ Socks5.connect) :
      Asking [version, command, reserved, atyp] (.refused .commandNotSupported)
  | unnamed (reserved atyp : UInt8) (bytes : List UInt8) (reply : Reply)
      (h : Named atyp bytes (.error reply)) :
      Asking (version :: Socks5.connect :: reserved :: atyp :: bytes) (.refused reply)

/-! ### What is turned away -/

/-- No greeting that is served. -/
inductive Unserved : List UInt8 → Prop
  | otherVersion (spoken count : UInt8) (h : spoken ≠ 5) : Unserved [spoken, count]
  | noMethod (methods : Methods) (h : 0 ∉ methods.offered) : Unserved (greetingBytes methods)

/-- No request that is served, and the code it is refused with. -/
inductive Refused : List UInt8 → UInt8 → Prop
  | otherVersion (spoken command reserved atyp : UInt8) (h : spoken ≠ 5) :
      Refused [spoken, command, reserved, atyp] 1
  | otherCommand (command reserved atyp : UInt8) (h : command ≠ 1) :
      Refused [5, command, reserved, atyp] 7
  | noName (reserved : UInt8) (name : List UInt8) (hfits : name.length ≤ 255)
      (hnone : ∀ written : Name, name ≠ utf8Bytes written.text.toList) :
      Refused (5 :: 1 :: reserved :: 3 :: UInt8.ofNat name.length :: name) 1
  | otherType (reserved atyp : UInt8) (h : ∀ destination : Destination, destination.atyp ≠ atyp) :
      Refused [5, 1, reserved, atyp] 8

/-- The reply a request is refused with: no address is bound. -/
def refusedBytes (code : UInt8) : List UInt8 := [5, code, 0, 1, 0, 0, 0, 0, 0, 0]

theorem unserved_iff {bytes : List UInt8} : Unserved bytes ↔ Opening bytes .rejected := by
  constructor
  · intro h
    cases h with
    | otherVersion spoken count h => exact .otherVersion spoken count h
    | noMethod methods h => exact .noMethod methods h
  · intro h
    cases h with
    | noMethod methods h => exact .noMethod methods h
    | otherVersion spoken count h => exact .otherVersion spoken count h

theorem Refused.asking {bytes : List UInt8} {code : UInt8} (h : Refused bytes code) :
    ∃ reply : Reply, Asking bytes (.refused reply) ∧ reply.word = .refusal ∧
      answerBytes reply = refusedBytes code := by
  cases h with
  | otherVersion spoken command reserved atyp h =>
      exact ⟨.failure, .otherVersion spoken command reserved atyp h, rfl, rfl⟩
  | otherCommand command reserved atyp h =>
      exact ⟨.commandNotSupported, .otherCommand command reserved atyp h, rfl, rfl⟩
  | noName reserved name hfits hnone =>
      exact ⟨.failure, .unnamed reserved _ _ _ (.noName name hfits hnone rfl), rfl, rfl⟩
  | otherType reserved atyp h =>
      exact ⟨.addressNotSupported, .unnamed reserved atyp _ _ (.otherType h), rfl, rfl⟩

theorem Asking.refused {bytes : List UInt8} {reply : Reply} (h : Asking bytes (.refused reply)) :
    ∃ code, Refused bytes code := by
  cases h with
  | otherVersion spoken command reserved atyp h =>
      exact ⟨1, .otherVersion spoken command reserved atyp h⟩
  | otherCommand command reserved atyp h => exact ⟨7, .otherCommand command reserved atyp h⟩
  | unnamed reserved atyp bytes reply h =>
      cases h with
      | noName name hfits hnone h =>
          subst h
          exact ⟨1, .noName reserved name hfits hnone⟩
      | otherType h => exact ⟨8, .otherType reserved atyp h⟩

/-! ### Lengths and numbers -/

section numbers

variable {bytes : List UInt8} {n : ℕ}

theorem bigEndian_octets (count n : ℕ) : bigEndian (octets count n) = n % 256 ^ count :=
  digitsValue_octets count n

/-- A machine word is read back from its octets. -/
theorem ofNat_bigEndian_octets {width : ℕ} (h : 2 ^ width = 256 ^ n) (bits : BitVec width) :
    BitVec.ofNat width (bigEndian (octets n bits.toNat)) = bits := by
  rw [bigEndian_octets, ← h, Nat.mod_eq_of_lt bits.isLt, BitVec.ofNat_toNat, BitVec.setWidth_eq]

theorem octets_ofNat_bigEndian {width : ℕ} (h : 2 ^ width = 256 ^ n) (hlength : bytes.length = n) :
    octets n (BitVec.ofNat width (bigEndian bytes)).toNat = bytes := by
  subst hlength
  have hlt : bigEndian bytes < 2 ^ width := by
    rw [h]
    exact digitsValue_lt bytes
  rw [BitVec.toNat_ofNat, Nat.mod_eq_of_lt hlt]
  exact octets_digitsValue bytes

/-- The length in one octet is that of what follows. -/
theorem toNat_ofNat_length (h : bytes.length ≤ 255) :
    (UInt8.ofNat bytes.length).toNat = bytes.length :=
  UInt8.toNat_ofNat_of_lt' (Nat.lt_succ_of_le h)

theorem ofNat_length {len : UInt8} (h : bytes.length = len.toNat) :
    bytes.length ≤ 255 ∧ UInt8.ofNat bytes.length = len := by
  refine ⟨?_, ?_⟩
  · have hlt := len.toNat_lt
    omega
  · rw [h, UInt8.ofNat_toNat]

end numbers

/-! ### The greeting -/

theorem Opening.length {bytes : List UInt8} {answer : Greeting} (h : Opening bytes answer) :
    2 ≤ bytes.length := by
  cases h <;> simp [greetingBytes]

/-- A greeting of the version served holds as many methods as it counts. -/
theorem opening_version {count : UInt8} {bytes : List UInt8} {answer : Greeting} :
    Opening (version :: count :: bytes) answer ↔ bytes.length = count.toNat ∧
      answer = if noAuth ∈ bytes then .noAuth else .rejected := by
  constructor
  · generalize hall : version :: count :: bytes = all
    intro h
    cases h with
    | noAuth methods h =>
        cases hall
        exact ⟨(toNat_ofNat_length methods.fits).symm, (if_pos h).symm⟩
    | noMethod methods h =>
        cases hall
        exact ⟨(toNat_ofNat_length methods.fits).symm, (if_neg h).symm⟩
    | otherVersion spoken count h =>
        cases hall
        exact absurd rfl h
  · rintro ⟨hcount, rfl⟩
    obtain ⟨hfits, rfl⟩ := ofNat_length hcount
    split_ifs with hno
    · exact .noAuth ⟨bytes, hfits⟩ hno
    · exact .noMethod ⟨bytes, hfits⟩ hno

theorem opening_otherVersion {spoken count : UInt8} {bytes : List UInt8} {answer : Greeting}
    (hversion : spoken ≠ version) :
    Opening (spoken :: count :: bytes) answer ↔ bytes = [] ∧ answer = .rejected := by
  constructor
  · generalize hall : spoken :: count :: bytes = all
    intro h
    cases h with
    | noAuth methods h =>
        cases hall
        exact absurd rfl hversion
    | noMethod methods h =>
        cases hall
        exact absurd rfl hversion
    | otherVersion spoken' count' h =>
        cases hall
        exact ⟨rfl, rfl⟩
  · rintro ⟨rfl, rfl⟩
    exact .otherVersion spoken count hversion

/-- **The greeting is read exactly.** -/
theorem exact_greet : Exact greet Opening := by
  refine exact_readExact_bind 2 (fun _ _ h => h.length) fun before hlength => ?_
  obtain ⟨spoken, count, rfl⟩ := List.length_eq_two.mp hlength
  by_cases hversion : spoken = version
  · subst hversion
    exact exact_readExact_pure count.toNat _ fun bytes answer => opening_version
  · have hother : ([spoken, count] : List UInt8).head? ≠ some version := by
      simpa using hversion
    simp only [if_pos hother]
    exact exact_pure fun bytes answer => opening_otherVersion hversion

/-! ### The destination -/

section destination

variable {atyp : UInt8} {bytes : List UInt8} {named : Except Reply Host}

/-- What the front end makes of the bytes of a name. -/
def nameOf (name : List UInt8) : Except Reply Host :=
  match String.fromUTF8? ⟨name.toArray⟩ with
  | none => .error .failure
  | some name => if name.isEmpty then .error .failure else .ok ⟨name⟩

theorem fromUTF8?_eq_some {text : String} :
    String.fromUTF8? ⟨bytes.toArray⟩ = some text ↔ bytes = utf8Bytes text.toList := by
  rw [← utf8Text_eq_some, utf8Text, Option.map_eq_some_iff]
  constructor
  · intro h
    exact ⟨text, h, rfl⟩
  · rintro ⟨read, hread, hsame⟩
    rw [hread, String.toList_injective hsame]

theorem nameOf_written (name : Name) : nameOf (utf8Bytes name.text.toList) = .ok ⟨name.text⟩ := by
  have hread : String.fromUTF8? ⟨(utf8Bytes name.text.toList).toArray⟩ = some name.text :=
    fromUTF8?_eq_some.mpr rfl
  have hwritten : ¬name.text.isEmpty = true := by simpa using name.written
  rw [nameOf, hread]
  exact if_neg hwritten

theorem nameOf_eq_error (hnone : ∀ written : Name, bytes ≠ utf8Bytes written.text.toList)
    (hfits : bytes.length ≤ 255) : nameOf bytes = .error .failure := by
  unfold nameOf
  cases hread : String.fromUTF8? ⟨bytes.toArray⟩ with
  | none => rfl
  | some text =>
      have hbytes := fromUTF8?_eq_some.mp hread
      by_cases hwritten : text = ""
      · subst hwritten
        rfl
      · exact absurd hbytes (hnone ⟨text, hwritten, hbytes ▸ hfits⟩)

theorem named_ipv4 : Named atypIpv4 bytes named ↔
    bytes.length = 4 ∧ named = .ok ⟨Ipv4.display (BitVec.ofNat 32 (bigEndian bytes))⟩ := by
  constructor
  · intro h
    cases h with
    | destination destination h =>
        cases destination with
        | ipv4 bits =>
            refine ⟨length_octets 4 _, ?_⟩
            show Except.ok (Host.mk (Ipv4.display bits)) = _
            rw [Destination.bytes, ofNat_bigEndian_octets (by norm_num)]
        | domain name => cases h
        | ipv6 bits => cases h
    | noName name hfits hnone h => cases h
    | otherType h => exact absurd rfl (h (.ipv4 0))
  · rintro ⟨hlength, rfl⟩
    have hbytes : (Destination.ipv4 (BitVec.ofNat 32 (bigEndian bytes))).bytes = bytes :=
      octets_ofNat_bigEndian (by norm_num) hlength
    have hnamed : Named atypIpv4 _ _ :=
      .destination (.ipv4 (BitVec.ofNat 32 (bigEndian bytes))) rfl
    rw [hbytes] at hnamed
    exact hnamed

theorem named_ipv6 : Named atypIpv6 bytes named ↔
    bytes.length = 16 ∧ named = .ok ⟨Ipv6.display (BitVec.ofNat 128 (bigEndian bytes))⟩ := by
  constructor
  · intro h
    cases h with
    | destination destination h =>
        cases destination with
        | ipv6 bits =>
            refine ⟨length_octets 16 _, ?_⟩
            show Except.ok (Host.mk (Ipv6.display bits)) = _
            rw [Destination.bytes, ofNat_bigEndian_octets (by norm_num)]
        | domain name => cases h
        | ipv4 bits => cases h
    | noName name hfits hnone h => cases h
    | otherType h => exact absurd rfl (h (.ipv6 0))
  · rintro ⟨hlength, rfl⟩
    have hbytes : (Destination.ipv6 (BitVec.ofNat 128 (bigEndian bytes))).bytes = bytes :=
      octets_ofNat_bigEndian (by norm_num) hlength
    have hnamed : Named atypIpv6 _ _ :=
      .destination (.ipv6 (BitVec.ofNat 128 (bigEndian bytes))) rfl
    rw [hbytes] at hnamed
    exact hnamed

theorem named_domain {len : UInt8} : Named atypDomain (len :: bytes) named ↔
    bytes.length = len.toNat ∧ named = nameOf bytes := by
  constructor
  · generalize hall : len :: bytes = all
    intro h
    cases h with
    | destination destination h =>
        cases destination with
        | domain name =>
            cases hall
            exact ⟨(toNat_ofNat_length name.fits).symm, (nameOf_written name).symm⟩
        | ipv4 bits => cases h
        | ipv6 bits => cases h
    | noName name hfits hnone h =>
        cases hall
        exact ⟨(toNat_ofNat_length hfits).symm, (nameOf_eq_error hnone hfits).symm⟩
    | otherType h => exact absurd rfl (h (.domain ⟨"a", by decide, by decide⟩))
  · rintro ⟨hcount, rfl⟩
    obtain ⟨hfits, rfl⟩ := ofNat_length hcount
    by_cases hnone : ∀ written : Name, bytes ≠ utf8Bytes written.text.toList
    · rw [nameOf_eq_error hnone hfits]
      exact .noName bytes hfits hnone rfl
    · push Not at hnone
      obtain ⟨name, rfl⟩ := hnone
      rw [nameOf_written]
      exact .destination (.domain name) rfl

theorem named_otherType (h : ∀ destination : Destination, destination.atyp ≠ atyp) :
    Named atyp bytes named ↔ bytes = [] ∧ named = .error .addressNotSupported := by
  constructor
  · intro hnamed
    cases hnamed with
    | destination destination hsame => exact absurd hsame (h destination)
    | noName name hfits hnone hsame =>
        exact absurd hsame.symm (h (.domain ⟨"a", by decide, by decide⟩))
    | otherType _ => exact ⟨rfl, rfl⟩
  · rintro ⟨rfl, rfl⟩
    exact .otherType h

/-- **The destination is read exactly.** -/
theorem exact_destination (atyp : UInt8) : Exact (destination atyp) (Named atyp) := by
  unfold destination
  split_ifs with hv4 hdomain hv6
  · subst hv4
    exact exact_readExact_pure 4 _ fun bytes named => named_ipv4
  · subst hdomain
    refine exact_readExact_bind 1 (fun bytes named h => ?_) fun before hlength => ?_
    · cases h with
      | destination destination h =>
          cases destination with
          | domain name => simp [Destination.bytes]
          | ipv4 bits => cases h
          | ipv6 bits => cases h
      | noName name hfits hnone h => simp
      | otherType h => exact absurd rfl (h (.domain ⟨"a", by decide, by decide⟩))
    · obtain ⟨len, rfl⟩ := List.length_eq_one_iff.mp hlength
      have hlen : bigEndian [len] = len.toNat := by simp [bigEndian, digitsValue]
      rw [hlen]
      exact exact_readExact_pure _ nameOf fun bytes named => named_domain
  · subst hv6
    exact exact_readExact_pure 16 _ fun bytes named => named_ipv6
  · refine exact_pure fun bytes named => named_otherType fun destination => ?_
    cases destination with
    | ipv4 bits => exact Ne.symm hv4
    | domain name => exact Ne.symm hdomain
    | ipv6 bits => exact Ne.symm hv6

end destination

/-! ### The request -/

section request

variable {bytes : List UInt8} {asked : Requested} {spoken command reserved atyp : UInt8}

theorem Asking.length (h : Asking bytes asked) : 4 ≤ bytes.length := by
  cases h <;> simp [requestBytes]

theorem asking_otherVersion (hversion : spoken ≠ version) :
    Asking (spoken :: command :: reserved :: atyp :: bytes) asked ↔
      bytes = [] ∧ asked = .refused .failure := by
  constructor
  · generalize hall : spoken :: command :: reserved :: atyp :: bytes = all
    intro h
    cases h with
    | otherVersion spoken command reserved atyp h =>
        cases hall
        exact ⟨rfl, rfl⟩
    | connect reserved destination port =>
        cases hall
        exact absurd rfl hversion
    | otherCommand command reserved atyp h =>
        cases hall
        exact absurd rfl hversion
    | unnamed reserved atyp bytes reply h =>
        cases hall
        exact absurd rfl hversion
  · rintro ⟨rfl, rfl⟩
    exact .otherVersion spoken command reserved atyp hversion

theorem asking_otherCommand (hcommand : command ≠ connect) :
    Asking (version :: command :: reserved :: atyp :: bytes) asked ↔
      bytes = [] ∧ asked = .refused .commandNotSupported := by
  constructor
  · generalize hall : version :: command :: reserved :: atyp :: bytes = all
    intro h
    cases h with
    | otherVersion spoken command reserved atyp h =>
        cases hall
        exact absurd rfl h
    | connect reserved destination port =>
        cases hall
        exact absurd rfl hcommand
    | otherCommand command reserved atyp h =>
        cases hall
        exact ⟨rfl, rfl⟩
    | unnamed reserved atyp bytes reply h =>
        cases hall
        exact absurd rfl hcommand
  · rintro ⟨rfl, rfl⟩
    exact .otherCommand command reserved atyp hcommand

/-- A `CONNECT` request names its destination first, and its port behind that. -/
theorem asking_connect :
    Asking (version :: connect :: reserved :: atyp :: bytes) asked ↔
      (∃ reply, Named atyp bytes (.error reply) ∧ asked = .refused reply) ∨
        ∃ before host port, Named atyp before (.ok host) ∧
          bytes = before ++ octets 2 port.toNat ∧ asked = .connect host port := by
  constructor
  · generalize hall : version :: connect :: reserved :: atyp :: bytes = all
    intro h
    cases h with
    | otherVersion spoken command reserved atyp h =>
        cases hall
        exact absurd rfl h
    | connect reserved destination port =>
        cases hall
        exact .inr ⟨destination.bytes, destination.host, port, .destination destination rfl,
          rfl, rfl⟩
    | otherCommand command reserved atyp h =>
        cases hall
        exact absurd rfl h
    | unnamed reserved atyp bytes reply h =>
        cases hall
        exact .inl ⟨reply, h, rfl⟩
  · rintro (⟨reply, hnamed, rfl⟩ | ⟨before, host, port, hnamed, rfl, rfl⟩)
    · exact .unnamed reserved atyp bytes reply hnamed
    · cases hnamed with
      | destination destination h =>
          subst h
          exact .connect reserved destination port

theorem port_octets (port : Port) : UInt16.ofNat (bigEndian (octets 2 port.toNat)) = port := by
  have hlt : port.toNat < 256 ^ 2 := port.toNat_lt
  rw [bigEndian_octets, Nat.mod_eq_of_lt hlt, UInt16.ofNat_toNat]

theorem octets_port (h : bytes.length = 2) :
    octets 2 (UInt16.ofNat (bigEndian bytes)).toNat = bytes := by
  have hlt : bigEndian bytes < 2 ^ 16 := by
    have hvalue := digitsValue_lt bytes
    rw [h] at hvalue
    exact hvalue
  rw [UInt16.toNat_ofNat_of_lt' hlt, ← h]
  exact octets_digitsValue bytes

/-- Behind a destination that cannot be read nothing is read. -/
theorem asking_unnamed {before : List UInt8} {reply : Reply}
    (hnamed : Named atyp before (.error reply)) :
    Asking (version :: connect :: reserved :: atyp :: (before ++ bytes)) asked ↔
      bytes = [] ∧ asked = .refused reply := by
  rw [asking_connect]
  constructor
  · rintro (⟨reply', hnamed', rfl⟩ | ⟨before', host, port, hnamed', hbytes, rfl⟩)
    · obtain ⟨_, hrest, hreply⟩ :=
        (exact_destination atyp).unique hnamed hnamed' (List.append_nil _).symm
      cases hreply
      exact ⟨hrest, rfl⟩
    · obtain ⟨_, _, hreply⟩ := (exact_destination atyp).unique hnamed hnamed' hbytes
      cases hreply
  · rintro ⟨rfl, rfl⟩
    rw [List.append_nil]
    exact .inl ⟨reply, hnamed, rfl⟩

/-- Behind the destination of a `CONNECT` request is its port. -/
theorem asking_named {before : List UInt8} {host : Host} (hnamed : Named atyp before (.ok host)) :
    Asking (version :: connect :: reserved :: atyp :: (before ++ bytes)) asked ↔
      bytes.length = 2 ∧ asked = .connect host (UInt16.ofNat (bigEndian bytes)) := by
  rw [asking_connect]
  constructor
  · rintro (⟨reply', hnamed', rfl⟩ | ⟨before', host', port, hnamed', hbytes, rfl⟩)
    · obtain ⟨_, _, hreply⟩ :=
        (exact_destination atyp).unique hnamed hnamed' (List.append_nil _).symm
      cases hreply
    · obtain ⟨_, rfl, hhost⟩ := (exact_destination atyp).unique hnamed hnamed' hbytes
      cases hhost
      rw [length_octets, port_octets]
      exact ⟨rfl, rfl⟩
  · rintro ⟨hlength, rfl⟩
    exact .inr ⟨before, host, _, hnamed, by rw [octets_port hlength], rfl⟩

/-- **The request is read exactly.** -/
theorem exact_request : Exact request Asking := by
  refine exact_readExact_bind 4 (fun _ _ h => h.length) fun before hlength => ?_
  obtain ⟨spoken, command, reserved, atyp, rfl⟩ := List.length_eq_four.mp hlength
  by_cases hversion : spoken = version
  · subst hversion
    rw [if_neg (by simp)]
    by_cases hcommand : command = connect
    · subst hcommand
      rw [if_neg (by simp)]
      refine (exact_destination atyp).bind (fun bytes asked h => ?_) fun before named hnamed => ?_
      · rcases asking_connect.mp h with ⟨reply, hnamed, _⟩ | ⟨before, host, port, hnamed, rfl, _⟩
        · exact ⟨bytes, [], _, (List.append_nil bytes).symm, hnamed⟩
        · exact ⟨before, octets 2 port.toNat, _, rfl, hnamed⟩
      · cases named with
        | error reply => exact exact_pure fun bytes asked => asking_unnamed hnamed
        | ok host => exact exact_readExact_pure 2 _ fun bytes asked => asking_named hnamed
    · have hother : ([version, command, reserved, atyp] : List UInt8).getD 1 0 ≠ connect := hcommand
      rw [if_pos hother]
      exact exact_pure fun bytes asked => asking_otherCommand hcommand
  · have hother : ([spoken, command, reserved, atyp] : List UInt8).head? ≠ some version := by
      simpa using hversion
    rw [if_pos hother]
    exact exact_pure fun bytes asked => asking_otherVersion hversion

end request

/-! ### Both messages -/

/-- What the front end reads before it routes: nothing behind a greeting it rejects. -/
def handshake : Session (Option Requested) := do
  match ← greet with
  | .rejected => pure none
  | .noAuth => do
      let asked ← request
      pure (some asked)

/-- What a stream begins with, as far as the front end reads it before it routes. -/
inductive Encodes : List UInt8 → Option Requested → Prop
  | rejected {bytes : List UInt8} (h : Opening bytes .rejected) : Encodes bytes none
  | asked {bytes more : List UInt8} {asked : Requested} (h : Opening bytes .noAuth)
      (h' : Asking more asked) : Encodes (bytes ++ more) (some asked)

section handshake

variable {bytes before more : List UInt8} {decoded : Option Requested} {asked : Requested}

theorem encodes_rejected (hopening : Opening before .rejected) :
    Encodes (before ++ bytes) decoded ↔ bytes = [] ∧ decoded = none := by
  constructor
  · generalize hall : before ++ bytes = all
    intro h
    cases h with
    | rejected h =>
        obtain ⟨_, hrest, _⟩ := exact_greet.unique hopening h
          (hall.trans (List.append_nil _).symm)
        exact ⟨hrest, rfl⟩
    | asked h h' =>
        obtain ⟨_, _, hanswer⟩ := exact_greet.unique hopening h hall
        cases hanswer
  · rintro ⟨rfl, rfl⟩
    rw [List.append_nil]
    exact .rejected hopening

theorem encodes_asked (hopening : Opening before .noAuth) (hasking : Asking more asked) :
    Encodes (before ++ (more ++ bytes)) decoded ↔ bytes = [] ∧ decoded = some asked := by
  constructor
  · generalize hall : before ++ (more ++ bytes) = all
    intro h
    cases h with
    | rejected h =>
        obtain ⟨_, _, hanswer⟩ := exact_greet.unique hopening h
          (hall.trans (List.append_nil _).symm)
        cases hanswer
    | asked h h' =>
        obtain ⟨_, hmore, _⟩ := exact_greet.unique hopening h hall
        obtain ⟨_, hrest, rfl⟩ := exact_request.unique hasking h'
          (hmore.trans (List.append_nil _).symm)
        exact ⟨hrest, rfl⟩
  · rintro ⟨rfl, rfl⟩
    rw [List.append_nil]
    exact .asked hopening hasking

/-- **The handshake is read exactly.** -/
theorem exact_handshake : Exact handshake Encodes := by
  refine exact_greet.bind (fun bytes decoded h => ?_) fun before greeting hopening => ?_
  · cases h with
    | rejected h => exact ⟨bytes, [], _, (List.append_nil bytes).symm, h⟩
    | asked h h' => exact ⟨_, _, _, rfl, h⟩
  · cases greeting with
    | rejected => exact exact_pure fun bytes decoded => encodes_rejected hopening
    | noAuth =>
        refine exact_request.bind (fun bytes decoded h => ?_) fun more asked hasking =>
          exact_pure fun bytes decoded => encodes_asked hopening hasking
        generalize hall : before ++ bytes = all at h
        cases h with
        | rejected h =>
            obtain ⟨_, _, hanswer⟩ := exact_greet.unique hopening h
              (hall.trans (List.append_nil _).symm)
            cases hanswer
        | asked h h' =>
            obtain ⟨_, rfl, _⟩ := exact_greet.unique hopening h hall
            exact ⟨bytes, [], _, (List.append_nil bytes).symm, h'⟩

/-- A destination is encoded in a stream the way the front end decodes it. -/
theorem encodes_connect_iff {stream rest : List UInt8} {host : Host} {port : Port} :
    (∃ bytes, stream = bytes ++ rest ∧ Encodes bytes (some (.connect host port))) ↔
      ∃ methods reserved destination, noAuth ∈ methods.offered ∧ host = destination.host ∧
        destination.SpelledBy host ∧
          stream = greetingBytes methods ++ requestBytes reserved destination port ++ rest := by
  constructor
  · rintro ⟨_, rfl, hencodes⟩
    generalize hconnect : some (Requested.connect host port) = decoded at hencodes
    cases hencodes with
    | rejected hopening => cases hconnect
    | asked hopening hasking =>
        cases hopening with
        | noAuth methods hno =>
            cases hasking with
            | connect reserved destination port =>
                cases hconnect
                exact ⟨methods, reserved, destination, hno, rfl, destination.spelledBy_host, rfl⟩
            | otherVersion => cases hconnect
            | otherCommand => cases hconnect
            | unnamed => cases hconnect
  · rintro ⟨methods, reserved, destination, hno, rfl, _, rfl⟩
    exact ⟨_, rfl, .asked (.noAuth methods hno) (.connect reserved destination port)⟩

end handshake

/-! ### Serving -/

/-- How telling the client something ends. -/
def outcome : Option OsError → Except Failure Unit
  | none => .ok ()
  | some failure => .error (.os failure)

theorem tell_eq (word : Word) (bytes : List UInt8) (wire : Wire) (conn : Connection) :
    tell word bytes wire conn = (outcome (wire.hears word),
      { conn with trace := conn.trace ++ [.told word bytes (wire.hears word)] }) := by
  have hheard : (Script.ask fun wire _ => wire.hears word : Session _) wire conn =
      (.ok (wire.hears word), conn) := rfl
  unfold tell
  rw [Script.bind_of_ok hheard]
  cases wire.hears word <;> rfl

theorem chosen_of_hears {wire : Wire} (hhears : wire.hears .chosen = none) (method : UInt8)
    (conn : Connection) : chosen method wire conn =
      (.ok (), { conn with trace := conn.trace ++ [.told .chosen [version, method] none] }) := by
  rw [chosen, tell_eq, hhears]
  rfl

section serve

variable [External] [SocksText] {ctx : ConnCtx} {hop : NextHop} {wire : Wire}
  {stream rest bytes : List UInt8} {decoded : Option Requested}

/-- What the front end does about a request: the reply to one that cannot be served,
or the route. -/
def goOn (ctx : ConnCtx) (hop : NextHop) : Requested → Session Unit
  | .refused reply => answer reply
  | .connect host port => route ctx hop host port refuseLoop (relay host port hop)

/-- What it does once it read all that it reads. -/
def answered (ctx : ConnCtx) (hop : NextHop) : Option Requested → Session Unit
  | none => chosen noAcceptableMethod
  | some asked => do
      chosen noAuth
      goOn ctx hop asked

/-- A connection whose greeting was read and answered. -/
def greeted (rest : List UInt8) (reads : ℕ) : Connection :=
  ⟨rest, reads, none, [.told .chosen [version, noAuth] none]⟩

theorem serve_of_noAuth (hhears : wire.hears .chosen = none) {reads : ℕ}
    (hgreet : greet wire (.accepted stream) = (.ok .noAuth, ⟨rest, reads, none, []⟩)) :
    serve ctx hop wire (.accepted stream) = (request >>= goOn ctx hop) wire (greeted rest reads) := by
  have hserve : serve ctx hop = greet >>= fun
      | .rejected => chosen noAcceptableMethod
      | .noAuth => chosen noAuth >>= fun _ => request >>= goOn ctx hop := rfl
  rw [hserve, Script.bind_of_ok hgreet]
  exact Script.bind_of_ok (chosen_of_hears hhears noAuth _)

/-- Once the messages are read, the connection is as if they had never been there. -/
theorem serve_of_encodes (hsteady : Steady wire) (hhears : wire.hears .chosen = none)
    (h : Encodes bytes decoded) :
    ∃ reads, serve ctx hop wire (.accepted (bytes ++ rest)) =
      answered ctx hop decoded wire ⟨rest, reads, none, []⟩ := by
  cases h with
  | rejected hopening =>
      obtain ⟨reads, hgreet⟩ := exact_greet.yields _ _ hopening wire hsteady
        (.accepted (bytes ++ rest)) rest rfl
      exact ⟨reads, by rw [serve, Script.bind_of_ok hgreet]; rfl⟩
  | @asked before more asked hopening hasking =>
      obtain ⟨reads, hgreet⟩ := exact_greet.yields _ _ hopening wire hsteady
        (.accepted ((before ++ more) ++ rest)) (more ++ rest) (List.append_assoc ..)
      obtain ⟨reads', hrequest⟩ := exact_request.yields _ _ hasking wire hsteady
        (greeted (more ++ rest) reads) rest rfl
      have hanswered : answered ctx hop (some asked) wire ⟨rest, reads', none, []⟩ =
          goOn ctx hop asked wire (greeted rest reads') :=
        Script.bind_of_ok (chosen_of_hears hhears noAuth ⟨rest, reads', none, []⟩)
      refine ⟨reads', ?_⟩
      rw [serve_of_noAuth hhears hgreet, Script.bind_of_ok hrequest, hanswered]
      rfl

theorem serve_of_truncated (hsteady : Steady wire) (hhears : wire.hears .chosen = none)
    (h : Truncated Encodes stream) :
    (serve ctx hop wire (.accepted stream)).1 = .error (.os earlyEof) := by
  rcases exact_greet.complete stream with ⟨bytes, rest, greeting, rfl, hopening⟩ | ⟨hshort, _⟩
  · obtain ⟨reads, hgreet⟩ := exact_greet.yields _ _ hopening wire hsteady
      (.accepted (bytes ++ rest)) rest rfl
    cases greeting with
    | rejected => exact absurd h (exact_handshake.not_truncated (.rejected hopening))
    | noAuth =>
        rcases exact_request.complete rest with ⟨more, rest, asked, rfl, hasking⟩ | ⟨hshort, _⟩
        · rw [← List.append_assoc] at h
          exact absurd h (exact_handshake.not_truncated (.asked hopening hasking))
        · obtain ⟨reads', hrun⟩ := hshort wire hsteady (greeted rest reads) rfl
          rw [serve_of_noAuth hhears hgreet, Script.bind_of_error hrun]
  · obtain ⟨reads, hrun⟩ := hshort wire hsteady (.accepted stream) rfl
    rw [serve, Script.bind_of_error hrun]

omit [External] [SocksText] in
theorem answer_eq (reply : Reply) (hword : reply.word = .refusal) (conn : Connection) :
    answer reply wire conn = (outcome (wire.hears .refusal),
      { conn with
        trace := conn.trace ++ [.told .refusal (answerBytes reply) (wire.hears .refusal)] }) := by
  rw [answer, hword, tell_eq]

/-- **SOCKS5 decoding is exact.** The handshake comes to a destination exactly on a
stream that begins with a greeting that offers no authentication and a `CONNECT`
request for that destination, and takes just these two messages off it. Every stream
is of this kind, begins with what is turned away or ends too soon. The first is
routed, the second is told so and no more than that, the third is an error, and every
byte behind what was recognised is left. -/
theorem socks5_exact (ctx : ConnCtx) (hop : NextHop) (hsteady : Steady wire)
    (stream : List UInt8) :
    (∀ host port rest, Reads handshake wire stream (some (.connect host port)) rest ↔
      ∃ methods reserved destination, 0 ∈ methods.offered ∧ host = destination.host ∧
        destination.SpelledBy host ∧
          stream = greetingBytes methods ++ requestBytes reserved destination port ++ rest) ∧
      (∀ decoded rest, Reads handshake wire stream decoded rest ↔
        ∃ bytes, stream = bytes ++ rest ∧ Encodes bytes decoded) ∧
      ((handshake wire (.accepted stream)).1 = .error (.os earlyEof) ↔
        Truncated Encodes stream) ∧
      ((∃ host port rest, Reads handshake wire stream (some (.connect host port)) rest) ∨
        (∃ bytes rest, Unserved bytes ∧ stream = bytes ++ rest) ∨
        (∃ methods bytes code rest, 0 ∈ methods.offered ∧ Refused bytes code ∧
          stream = greetingBytes methods ++ bytes ++ rest) ∨ Truncated Encodes stream) ∧
      (wire.hears .chosen = none →
        (∀ host port rest, Reads handshake wire stream (some (.connect host port)) rest →
          ∃ reads, serve ctx hop wire (.accepted stream) =
            route ctx hop host port refuseLoop (relay host port hop) wire
              ⟨rest, reads, none, [.told .chosen [5, 0] none]⟩) ∧
          (∀ bytes rest, Unserved bytes → stream = bytes ++ rest →
            ∃ reads, serve ctx hop wire (.accepted stream) =
              (.ok (), ⟨rest, reads, none, [.told .chosen [5, 0xff] none]⟩)) ∧
          (∀ methods bytes code rest, 0 ∈ methods.offered → Refused bytes code →
            stream = greetingBytes methods ++ bytes ++ rest →
              ∃ reads, serve ctx hop wire (.accepted stream) = (outcome (wire.hears .refusal),
                ⟨rest, reads, none, [.told .chosen [5, 0] none,
                  .told .refusal (refusedBytes code) (wire.hears .refusal)]⟩)) ∧
          (Truncated Encodes stream →
            (serve ctx hop wire (.accepted stream)).1 = .error (.os earlyEof))) := by
  refine ⟨fun host port rest => ?_, fun decoded rest => exact_handshake.ok_iff hsteady,
    exact_handshake.error_iff hsteady, ?_, fun hhears => ⟨?_, ?_, ?_,
      serve_of_truncated hsteady hhears⟩⟩
  · rw [exact_handshake.ok_iff hsteady, encodes_connect_iff]
    rfl
  · rcases exact_handshake.complete stream with ⟨bytes, rest, decoded, hstream, h⟩ | ⟨_, h⟩
    · have hreads := (exact_handshake.ok_iff hsteady).mpr ⟨bytes, hstream, h⟩
      cases h with
      | rejected h => exact .inr (.inl ⟨bytes, rest, unserved_iff.mpr h, hstream⟩)
      | @asked before more asked hopening hasking =>
          cases asked with
          | connect host port => exact .inl ⟨host, port, rest, hreads⟩
          | refused reply =>
              obtain ⟨code, hrefused⟩ := hasking.refused
              cases hopening with
              | noAuth methods hno =>
                  exact .inr (.inr (.inl ⟨methods, more, code, rest, hno, hrefused, hstream⟩))
    · exact .inr (.inr (.inr h))
  · intro host port rest hreads
    obtain ⟨bytes, rfl, hencodes⟩ := (exact_handshake.ok_iff hsteady).mp hreads
    obtain ⟨reads, hserve⟩ := serve_of_encodes hsteady hhears hencodes
    refine ⟨reads, hserve.trans ?_⟩
    exact Script.bind_of_ok (chosen_of_hears hhears noAuth ⟨rest, reads, none, []⟩)
  · rintro bytes rest hunserved rfl
    obtain ⟨reads, hserve⟩ :=
      serve_of_encodes hsteady hhears (.rejected (unserved_iff.mp hunserved))
    refine ⟨reads, hserve.trans ?_⟩
    exact chosen_of_hears hhears noAcceptableMethod ⟨rest, reads, none, []⟩
  · rintro methods bytes code rest hno hrefused rfl
    obtain ⟨reply, hasking, hword, hbytes⟩ := hrefused.asking
    obtain ⟨reads, hserve⟩ :=
      serve_of_encodes hsteady hhears (.asked (.noAuth methods hno) hasking)
    refine ⟨reads, hserve.trans ?_⟩
    rw [← hbytes]
    refine (Script.bind_of_ok (chosen_of_hears hhears noAuth ⟨rest, reads, none, []⟩)).trans ?_
    exact answer_eq reply hword _

end serve

/-- A client that asks for `"a.b"`, and its first byte of the tunnel. -/
def asking : List UInt8 := [5, 2, 2, 0, 5, 1, 0, 3, 3, 0x61, 0x2e, 0x62, 1, 187, 0x16]

theorem socks5_exact_asking :
    Reads handshake (.smooth (.v4 0x7f000001#32 7891)) asking (some (.connect ⟨"a.b"⟩ 443))
        [0x16] ∧
      ∃ reads, @serve .ascii .silent ⟨Rules.Ruleset.empty⟩
        (upstreamHop openNetwork 0 .unconfigured .unconfigured)
        (.smooth (.v4 0x7f000001#32 7891)) (.accepted asking) =
          @route .ascii .silent ⟨Rules.Ruleset.empty⟩
            (upstreamHop openNetwork 0 .unconfigured .unconfigured) ⟨"a.b"⟩ 443 refuseLoop
            (relay ⟨"a.b"⟩ 443 (upstreamHop openNetwork 0 .unconfigured .unconfigured))
            (.smooth (.v4 0x7f000001#32 7891))
            ⟨[0x16], reads, none, [.told .chosen [5, 0] none]⟩ := by
  obtain ⟨hconnect, _, _, _, hserve⟩ := @socks5_exact .ascii .silent _
    ⟨Rules.Ruleset.empty⟩ (upstreamHop openNetwork 0 .unconfigured .unconfigured)
    (steady_smooth (.v4 0x7f000001#32 7891)) asking
  have hreads : Reads handshake (.smooth (.v4 0x7f000001#32 7891)) asking
      (some (.connect ⟨"a.b"⟩ 443)) [0x16] :=
    (hconnect _ _ _).mpr ⟨⟨[2, 0], by decide⟩, 0, .domain ⟨"a.b", by decide, by decide⟩,
      by decide, rfl, rfl, by decide⟩
  exact ⟨hreads, (hserve rfl).1 _ _ _ hreads⟩

end Nhop.Proxy.Socks5
