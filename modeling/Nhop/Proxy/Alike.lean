import Nhop.Rules.Labels
import Nhop.Proxy.Routed

/-!
Whether two spellings of an address are routed alike.

The loop guard folds an IPv4-mapped IPv6 address back to IPv4 before it compares, the
ruleset does not: a network contains addresses of its own family alone. Of the two
families an address can be written in, a network therefore sees at most one, and the
spellings part ways at the first network consulted that contains either of them,
unless a rule on the port has decided before.
-/

namespace Nhop.Proxy

open Foundation Ipc Rules

section search

variable {α : Type*} {l before after : List α} {p q : α → Bool} {x : α}

theorem find?_behind (hbefore : ∀ y ∈ before, p y = false) :
    (before ++ x :: after).find? p = if p x then some x else after.find? p := by
  have hnone : before.find? p = none := by
    rw [List.find?_eq_none]
    intro y hmem
    rw [hbefore y hmem]
    exact Bool.false_ne_true
  rw [List.find?_append, hnone, Option.none_or, List.find?_cons]
  cases p x <;> rfl

/-- Two searches find the same element exactly when they agree on the first one that
either of them accepts. -/
theorem find?_eq_find?_iff : l.find? p = l.find? q ↔
    ∀ before x after, l = before ++ x :: after →
      (∀ y ∈ before, p y = false ∧ q y = false) → p x = q x := by
  constructor
  · rintro h before x after rfl hbefore
    rw [find?_behind fun y hmem => (hbefore y hmem).1,
      find?_behind fun y hmem => (hbefore y hmem).2] at h
    cases hp : p x with
    | true =>
        cases hq : q x with
        | true => rfl
        | false =>
            simp only [hp, hq, if_true, Bool.false_eq_true, if_false] at h
            have hfound := List.find?_some h.symm
            rw [hq] at hfound
            cases hfound
    | false =>
        cases hq : q x with
        | false => rfl
        | true =>
            simp only [hp, hq, if_true, Bool.false_eq_true, if_false] at h
            have hfound := List.find?_some h
            rw [hp] at hfound
            cases hfound
  · intro h
    induction l with
    | nil => rfl
    | cons first rest ih =>
        have hsame : p first = q first := h [] first rest rfl (by simp)
        rw [List.find?_cons, List.find?_cons, ← hsame]
        cases hfirst : p first with
        | true => rfl
        | false =>
            apply ih
            intro before x after hsplit hbefore
            apply h (first :: before) x after (by rw [hsplit, List.cons_append])
            intro y hmem
            rcases List.mem_cons.mp hmem with rfl | hmem
            · exact ⟨hfirst, hsame ▸ hfirst⟩
            · exact hbefore y hmem

end search

/-- A rule on networks or on ports. -/
def OnAddress (rules : Ruleset) : Prop :=
  ∀ rule ∈ rules.rules, (∃ network, rule.matcher = .cidr network) ∨
    ∃ port, rule.matcher = .port port

/-- Every network that contains either address is consulted behind a rule on the
port. -/
def Shielded [External] (rules : Ruleset) (port : Port) (address address' : IpAddr) : Prop :=
  ∀ before rule after, rules.consulted = before ++ rule :: after →
    ∀ network, rule.matcher = .cidr network →
      External.contains network address = true ∨ External.contains network address' = true →
      ∃ earlier ∈ before, earlier.matcher = .port port

section contains

variable {network : IpNet} {address address' : IpAddr} {bits bits' : BitVec 128}

theorem toIpv4Mapped_injective {inside : BitVec 32} (h : Ipv6.toIpv4Mapped bits = some inside)
    (h' : Ipv6.toIpv4Mapped bits' = some inside) : bits = bits' := by
  have hparts : ∀ b : BitVec 128, Ipv6.toIpv4Mapped b = some inside →
      b.toNat = 2 ^ 32 * 0xffff + inside.toNat := by
    intro b hb
    unfold Ipv6.toIpv4Mapped at hb
    split_ifs at hb with htop
    have htop := congrArg BitVec.toNat htop
    have hlow := congrArg BitVec.toNat (Option.some.inj hb)
    rw [BitVec.toNat_ushiftRight, Nat.shiftRight_eq_div_pow] at htop
    rw [BitVec.truncate_eq_setWidth, BitVec.toNat_setWidth] at hlow
    have hsplit := Nat.div_add_mod b.toNat (2 ^ 32)
    rw [← hsplit, hlow, htop]
    rfl
  apply BitVec.eq_of_toNat_eq
  rw [hparts bits h, hparts bits' h']

/-- Addresses that fold to one but differ are of different families, and a network
sees one family. -/
theorem contains_of_canonical [External] (h : canonical address = canonical address')
    (hne : address ≠ address') (hcontains : External.contains network address = true) :
    External.contains network address' = false := by
  have halike := External.alike_of_contains network address hcontains
  refine Bool.eq_false_iff.mpr fun hcontains' => ?_
  have halike' := External.alike_of_contains network address' hcontains'
  cases address with
  | v4 bits =>
      cases address' with
      | v4 bits' => exact absurd h hne
      | v6 bits' => cases network <;> simp [IpNet.alike] at halike halike'
  | v6 bits =>
      cases address' with
      | v4 bits' => cases network <;> simp [IpNet.alike] at halike halike'
      | v6 bits' =>
          apply hne
          simp only [canonical] at h
          cases hbits : Ipv6.toIpv4Mapped bits with
          | some inside =>
              cases hbits' : Ipv6.toIpv4Mapped bits' with
              | some inside' =>
                  simp only [hbits, hbits', IpAddr.v4.injEq] at h
                  subst h
                  rw [toIpv4Mapped_injective hbits hbits']
              | none => simp [hbits, hbits'] at h
          | none =>
              cases hbits' : Ipv6.toIpv4Mapped bits' with
              | some inside' => simp [hbits, hbits'] at h
              | none => simpa [hbits, hbits'] using h

end contains

section alike

variable [External] {rules : Ruleset} {host host' : Host} {port : Port} {address address' : IpAddr}

/-- **Two literals of one address are routed alike exactly when they are spelled in one
family or every network that contains either is consulted behind a rule on the port.**
The address of a host is what its text reads as (`NormalizedHost.address_of_parse`). -/
theorem decide_alike_iff (hrules : OnAddress rules)
    (haddress : (NormalizedHost.new host).address = some address)
    (haddress' : (NormalizedHost.new host').address = some address')
    (hsame : canonical address = canonical address') :
    rules.decide host port = rules.decide host' port ↔
      address = address' ∨ Shielded rules port address address' := by
  have hcidr : ∀ rule : Rule, ∀ network, rule.matcher = .cidr network →
      rule.matcher.matches (NormalizedHost.new host) port = External.contains network address ∧
        rule.matcher.matches (NormalizedHost.new host') port = External.contains network address' := by
    intro rule network hrule
    rw [hrule]
    exact ⟨by simp [Matcher.matches, haddress], by simp [Matcher.matches, haddress']⟩
  have hport : ∀ rule : Rule, ∀ expected, rule.matcher = .port expected →
      rule.matcher.matches (NormalizedHost.new host) port = (expected == port) ∧
        rule.matcher.matches (NormalizedHost.new host') port = (expected == port) := by
    intro rule expected hrule
    rw [hrule]
    exact ⟨rfl, rfl⟩
  rw [Ruleset.decide_eq_iff, find?_eq_find?_iff]
  constructor
  · intro h
    by_cases heq : address = address'
    · exact Or.inl heq
    right
    intro before rule after hsplit network hnetwork hcontains
    -- the first rule that matches either spelling matches both, so it is on the port
    let either : Rule → Bool := fun r =>
      r.matcher.matches (NormalizedHost.new host) port ||
        r.matcher.matches (NormalizedHost.new host') port
    have hrule : either rule = true := by
      show (_ || _) = true
      rw [(hcidr rule network hnetwork).1, (hcidr rule network hnetwork).2, Bool.or_eq_true]
      exact hcontains
    obtain ⟨first, hfirst⟩ : ∃ first, (before ++ [rule]).find? either = some first := by
      rw [← Option.isSome_iff_exists, List.find?_isSome]
      exact ⟨rule, by simp, hrule⟩
    obtain ⟨hmatches, ahead, behind, hahead, hnone⟩ := List.find?_eq_some_iff_append.mp hfirst
    have hboth := h ahead first (behind ++ after) (by
      rw [hsplit, ← List.singleton_append, ← List.append_assoc, hahead]
      simp) (by
      intro y hy
      have hnot := hnone y hy
      simpa [either] using hnot)
    have hmem : first ∈ before ++ [rule] := List.mem_of_find?_eq_some hfirst
    have hin : first ∈ rules.rules := by
      rw [← Ruleset.mem_consulted, hsplit, ← List.singleton_append, ← List.append_assoc]
      exact List.mem_append_left _ hmem
    have hmatches : first.matcher.matches (NormalizedHost.new host) port = true := by
      have hor : (first.matcher.matches (NormalizedHost.new host) port ||
        first.matcher.matches (NormalizedHost.new host') port) = true := hmatches
      rwa [← hboth, Bool.or_self] at hor
    rcases hrules first hin with ⟨other, hother⟩ | ⟨expected, hexpected⟩
    · rw [(hcidr first other hother).1] at hmatches hboth
      rw [(hcidr first other hother).2, contains_of_canonical hsame heq hmatches,
        hmatches] at hboth
      cases hboth
    · rw [(hport first expected hexpected).1, beq_iff_eq] at hmatches
      subst hmatches
      rcases List.mem_append.mp hmem with hearlier | hlast
      · exact ⟨first, hearlier, hexpected⟩
      · obtain rfl : first = rule := List.mem_singleton.mp hlast
        rw [hnetwork] at hexpected
        cases hexpected
  · rintro (rfl | hshielded)
    · intro before rule after hsplit _
      have hmem : rule ∈ rules.rules := by
        rw [← Ruleset.mem_consulted, hsplit]
        simp
      rcases hrules rule hmem with ⟨network, hnetwork⟩ | ⟨expected, hexpected⟩
      · rw [(hcidr rule network hnetwork).1, (hcidr rule network hnetwork).2]
      · rw [(hport rule expected hexpected).1, (hport rule expected hexpected).2]
    · intro before rule after hsplit hbefore
      have hmem : rule ∈ rules.rules := by
        rw [← Ruleset.mem_consulted, hsplit]
        simp
      rcases hrules rule hmem with ⟨network, hnetwork⟩ | ⟨expected, hexpected⟩
      · -- a network that contained either would stand behind a rule on the port
        have hneither : ¬(External.contains network address = true ∨
            External.contains network address' = true) := by
          intro hcontains
          obtain ⟨earlier, hearlier, hon⟩ :=
            hshielded before rule after hsplit network hnetwork hcontains
          have hmatches := (hbefore earlier hearlier).1
          rw [(hport earlier port hon).1] at hmatches
          simp at hmatches
        rw [not_or, Bool.not_eq_true, Bool.not_eq_true] at hneither
        rw [(hcidr rule network hnetwork).1, (hcidr rule network hnetwork).2, hneither.1,
          hneither.2]
      · rw [(hport rule expected hexpected).1, (hport rule expected hexpected).2]

end alike

/-! ### A network that is stepped around -/

/-- A require rule for the network `10.0.0.0/8`. -/
def tenNet : Ruleset := Ruleset.empty.append .require (.cidr (.v4 0x0a000000#32 8)) ⟨"10.0.0.0/8"⟩

/-- The same behind a rule on port 22. -/
def tenNetBehindPort : Ruleset :=
  (Ruleset.empty.append .prefer (.port 22) ⟨"22"⟩).append .require (.cidr (.v4 0x0a000000#32 8))
    ⟨"10.0.0.0/8"⟩

def plain : Host := ⟨"10.1.2.3"⟩

def mapped : Host := ⟨"::ffff:10.1.2.3"⟩

theorem address_plain :
    (@NormalizedHost.new External.ascii plain).address = some (.v4 0x0a010203#32) := by
  decide +kernel

theorem address_mapped : (@NormalizedHost.new External.ascii mapped).address =
    some (.v6 0x00000000000000000000ffff0a010203#128) := by
  decide +kernel

theorem decide_alike_iff_behindPort :
    @Ruleset.decide External.ascii tenNetBehindPort plain 22 =
      @Ruleset.decide External.ascii tenNetBehindPort mapped 22 := by
  have hrules : OnAddress tenNetBehindPort := by
    intro rule hmem
    rcases List.mem_cons.mp hmem with rfl | hmem
    · exact Or.inr ⟨22, rfl⟩
    · obtain rfl := List.mem_singleton.mp hmem
      exact Or.inl ⟨_, rfl⟩
  refine (@decide_alike_iff External.ascii _ plain mapped 22 _ _ hrules address_plain
    address_mapped (by decide +kernel)).mpr (Or.inr ?_)
  intro before rule after hsplit network hnetwork _
  cases before with
  | nil =>
      obtain ⟨rfl, _⟩ := List.cons.inj hsplit
      cases hnetwork
  | cons first before =>
      obtain ⟨rfl, _⟩ := List.cons.inj hsplit
      exact ⟨_, List.mem_cons_self .., rfl⟩

/-- The mapped spelling steps around the network. -/
theorem decide_not_alike :
    ¬∀ (_ : External) (rules : Ruleset) (host host' : Host) (port : Port)
      (address address' : IpAddr), OnAddress rules →
      IpAddr.parse host.name = some address → IpAddr.parse host'.name = some address' →
      canonical address = canonical address' →
      rules.decide host port = rules.decide host' port := by
  intro h
  have hrules : OnAddress tenNet := by
    intro rule hmem
    obtain rfl := List.mem_singleton.mp hmem
    exact Or.inl ⟨_, rfl⟩
  have hsame := h External.ascii tenNet plain mapped 443 (.v4 0x0a010203#32)
    (.v6 0x00000000000000000000ffff0a010203#128) hrules (by decide +kernel) (by decide +kernel)
    (by decide +kernel)
  revert hsame
  decide +kernel

end Nhop.Proxy
