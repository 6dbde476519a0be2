import Nhop.Foundation.Spelling

/-!
Addresses that are written and read back.

A number is written without superfluous zeros, so that the readers of octets and
groups take it. An IPv6 address has no dot unless it is a mapped one, and no
IPv4 literal is found in it then; what is compressed in it are groups of zero, and
the reader fills up as many as were left out.
-/

namespace Nhop.Foundation

/-! ### Numbers -/

section numbers

variable {radix n bound : ℕ} {cs rest : List Char}

theorem digitOf_digitChar (hn : n < radix) (hradix : radix ≤ 16) :
    digitOf radix n.digitChar = some n := by
  have hlow : n < 16 := by omega
  unfold digitOf
  interval_cases n <;> simp [Nat.digitChar, Char.le_def, Char.toNat] <;> omega

/-- The digits of a number are read, and on into what follows them. The induction
is on the number. -/
theorem takeDigits_toDigits (hradix : 1 < radix) (hhigh : radix ≤ 16) (n : ℕ) :
    ∃ digits, (∀ cs, takeDigits radix (Nat.toDigits radix n ++ cs) =
        (digits ++ (takeDigits radix cs).1, (takeDigits radix cs).2)) ∧
      digits.length = (Nat.toDigits radix n).length ∧ digitsValue radix digits = n ∧
      (digits.head? = some 0 → n = 0) := by
  induction n using Nat.strong_induction_on with
  | _ n ih =>
      rw [Nat.toDigits_eq_if hradix]
      split_ifs with hone
      · refine ⟨[n], ?_, rfl, by simp [digitsValue], by simp⟩
        intro cs
        simp [takeDigits, digitOf_digitChar hone hhigh]
      · have hless : n / radix < n := Nat.div_lt_self (by omega) hradix
        obtain ⟨digits, hread, hlength, hvalue, hhead⟩ := ih (n / radix) hless
        have hlast : digitOf radix (n % radix).digitChar = some (n % radix) :=
          digitOf_digitChar (Nat.mod_lt n (by omega)) hhigh
        refine ⟨digits ++ [n % radix], ?_, ?_, ?_, ?_⟩
        · intro cs
          rw [List.append_assoc, hread]
          simp [takeDigits, hlast]
        · rw [List.length_append, List.length_append, hlength]
          rfl
        · unfold digitsValue at hvalue ⊢
          rw [List.foldl_append, hvalue]
          exact Nat.div_add_mod' n radix
        · intro hzero
          have hsome : digits ≠ [] := by
            rintro rfl
            exact Nat.toDigits_ne_nil (List.length_eq_zero_iff.mp hlength.symm)
          rw [List.head?_append_of_ne_nil _ hsome] at hzero
          have hdiv := hhead hzero
          rw [Nat.div_eq_zero_iff] at hdiv
          omega

/-- Text that no digit begins. -/
def NoDigit (radix : ℕ) (rest : List Char) : Prop := rest.head?.bind (digitOf radix) = none

theorem takeDigits_of_noDigit (h : NoDigit radix rest) : takeDigits radix rest = ([], rest) := by
  cases rest with
  | nil => rfl
  | cons c rest =>
      have hc : digitOf radix c = none := h
      simp only [takeDigits, hc]

/-- **A number is read back from its digits.** -/
theorem readNumber_toDigits {maxDigits : Option ℕ} {zeroPrefix : Bool} (hradix : 1 < radix)
    (hhigh : radix ≤ 16) (hn : n < bound)
    (hmax : ∀ most ∈ maxDigits, (Nat.toDigits radix n).length ≤ most)
    (hrest : NoDigit radix rest) :
    readNumber radix maxDigits zeroPrefix bound (Nat.toDigits radix n ++ rest) =
      some (n, rest) := by
  obtain ⟨digits, hread, hlength, hvalue, hhead⟩ := takeDigits_toDigits hradix hhigh n
  have hsome : digits ≠ [] := by
    rintro rfl
    exact Nat.toDigits_ne_nil (List.length_eq_zero_iff.mp hlength.symm)
  have hwithin : maxDigits.any (· < digits.length) = false := by
    rw [hlength]
    cases maxDigits with
    | none => rfl
    | some most => simpa using hmax most rfl
  have hleading : (!zeroPrefix && digits.head? == some 0 && digits.length != 1) = false := by
    by_cases hzero : digits.head? = some 0
    · have hone : digits.length = 1 := by
        rw [hlength, hhead hzero, Nat.toDigits_zero]
        rfl
      simp [hone]
    · simp [hzero]
  simp only [readNumber, hread, takeDigits_of_noDigit hrest, List.append_nil, hsome, hwithin,
    hleading, hvalue, hn, if_true, if_false, Bool.false_eq_true]

theorem toList_toString (n : ℕ) : (toString n).toList = Nat.toDigits 10 n := by
  rw [Nat.toString_eq_ofList_toDigits, String.toList_ofList]

end numbers

/-! ### IPv4 -/

section ipv4

variable {bits : BitVec 32} {n : ℕ} {cs rest : List Char}

theorem readOctet_toDigits (hn : n < 256) (hrest : NoDigit 10 rest) :
    readOctet (Nat.toDigits 10 n ++ rest) = some (n, rest) := by
  apply readNumber_toDigits (by omega) (by omega) hn _ hrest
  intro most hmost
  cases hmost
  rw [Nat.length_toDigits_le_iff (by omega) (by omega)]
  omega

theorem noDigit_dot : NoDigit 10 ('.' :: rest) := by
  show digitOf 10 '.' = none
  decide

theorem toList_ipv4 (bits : BitVec 32) :
    (Ipv4.display bits).toList =
      Nat.toDigits 10 (bits.toNat / 256 ^ 3 % 256) ++ '.' ::
        (Nat.toDigits 10 (bits.toNat / 256 ^ 2 % 256) ++ '.' ::
          (Nat.toDigits 10 (bits.toNat / 256 ^ 1 % 256) ++ '.' ::
            Nat.toDigits 10 (bits.toNat / 256 ^ 0 % 256))) := by
  simp [Ipv4.display]

/-- **An IPv4 address is read back** in front of anything but a digit. -/
theorem readIpv4_display (hrest : NoDigit 10 rest) :
    readIpv4 ((Ipv4.display bits).toList ++ rest) = some (bits, rest) := by
  have hoctet (i : ℕ) : bits.toNat / 256 ^ i % 256 < 256 := Nat.mod_lt _ (by omega)
  have hbits : BitVec.ofNat 32 (((bits.toNat / 256 ^ 3 % 256 * 256 + bits.toNat / 256 ^ 2 % 256) *
      256 + bits.toNat / 256 ^ 1 % 256) * 256 + bits.toNat / 256 ^ 0 % 256) = bits := by
    have hlt := bits.isLt
    apply BitVec.eq_of_toNat_eq
    rw [BitVec.toNat_ofNat]
    omega
  rw [toList_ipv4]
  simp only [List.append_assoc, List.cons_append, readIpv4, readSeparated, readGiven,
    readOctet_toDigits (hoctet _) noDigit_dot, readOctet_toDigits (hoctet _) hrest,
    Option.bind_eq_bind, Option.bind_some, if_true, Bool.false_eq_true, if_false, hbits]
  rfl

theorem readIpv4_eq_none (h : '.' ∉ cs) : readIpv4 cs = none := by
  cases hread : readOctet cs with
  | none => simp [readIpv4, hread]
  | some read =>
      obtain ⟨used, hsplit, _⟩ := consumes_readNumber cs read.1 read.2 hread
      have hdot : readGiven '.' read.2 = none := by
        cases hrest : read.2 with
        | nil => rfl
        | cons c rest =>
            have hc : c ≠ '.' := by
              rintro rfl
              apply h
              rw [hsplit, hrest]
              simp
            simp [readGiven, hc]
      simp [readIpv4, hread, readSeparated, hdot]

end ipv4

/-! ### Groups -/

/-- Groups as they are written, with a colon in front of every one but the first. -/
def groupsText : Bool → List ℕ → List Char
  | _, [] => []
  | true, group :: groups => Nat.toDigits 16 group ++ groupsText false groups
  | false, group :: groups => ':' :: Nat.toDigits 16 group ++ groupsText false groups

/-- Text that ends the groups in front of it. -/
def EndsGroups (rest : List Char) : Prop := rest = [] ∨ ∃ more, rest = ':' :: ':' :: more

section groups

variable {first : Bool} {groups : List ℕ} {limit : ℕ} {rest : List Char}

theorem toList_displayGroups (groups : List ℕ) :
    (displayGroups groups).toList = groupsText true groups := by
  have hlater : ∀ (group : ℕ) (groups : List ℕ),
      (":".intercalate ((group :: groups).map fun group =>
        String.ofList (Nat.toDigits 16 group))).toList =
      Nat.toDigits 16 group ++ groupsText false groups := by
    intro group groups
    induction groups generalizing group with
    | nil => simp [groupsText]
    | cons next groups ih =>
        have hnext := ih next
        rw [List.map_cons] at hnext
        rw [List.map_cons, List.map_cons, String.intercalate_cons_cons, String.toList_append,
          String.toList_append, hnext]
        simp [groupsText]
  cases groups with
  | nil => rfl
  | cons group groups => exact hlater group groups

theorem mem_toDigits {c : Char} {radix n : ℕ} (hradix : 1 < radix) (hhigh : radix ≤ 16)
    (h : c ∈ Nat.toDigits radix n) : c ∈ "0123456789abcdef".toList := by
  induction n using Nat.strong_induction_on with
  | _ n ih =>
      have hdigit : ∀ d < 16, d.digitChar ∈ "0123456789abcdef".toList := by decide
      have hlast := Nat.mod_lt n (show 0 < radix by omega)
      rw [Nat.toDigits_eq_if hradix] at h
      split_ifs at h with hone
      · obtain rfl := List.mem_singleton.mp h
        exact hdigit n (by omega)
      · rcases List.mem_append.mp h with hfirst | hmem
        · exact ih (n / radix) (Nat.div_lt_self (by omega) hradix) hfirst
        · obtain rfl := List.mem_singleton.mp hmem
          exact hdigit _ (by omega)

theorem mem_groupsText {c : Char} (h : c ∈ groupsText first groups) :
    c ∈ ":0123456789abcdef".toList := by
  have hhex {n : ℕ} (h : c ∈ Nat.toDigits 16 n) : c ∈ ":0123456789abcdef".toList :=
    List.mem_cons_of_mem _ (mem_toDigits (by omega) (by omega) h)
  induction groups generalizing first with
  | nil => cases first <;> cases h
  | cons group groups ih =>
      cases first with
      | true =>
          rcases List.mem_append.mp h with hgroup | hrest
          · exact hhex hgroup
          · exact ih hrest
      | false =>
          rcases List.mem_cons.mp h with rfl | h
          · decide
          · rcases List.mem_append.mp h with hgroup | hrest
            · exact hhex hgroup
            · exact ih hrest

theorem noDigit_colon : NoDigit 16 (':' :: rest) := by
  show digitOf 16 ':' = none
  decide

theorem EndsGroups.noDigit (h : EndsGroups rest) :
    NoDigit 16 (groupsText false groups ++ rest) := by
  cases groups with
  | nil =>
      rcases h with rfl | ⟨more, rfl⟩
      · rfl
      · exact noDigit_colon
  | cons group groups => exact noDigit_colon

theorem readGroup_toDigits {n : ℕ} (hn : n < 65536) (hrest : NoDigit 16 rest) :
    readNumber 16 (some 4) true 65536 (Nat.toDigits 16 n ++ rest) = some (n, rest) := by
  apply readNumber_toDigits (by omega) (by omega) hn _ hrest
  intro most hmost
  cases hmost
  rw [Nat.length_toDigits_le_iff (by omega) (by omega)]
  omega

theorem EndsGroups.readGroup (h : EndsGroups rest) :
    readSeparated ':' first (readNumber 16 (some 4) true 65536) rest = none := by
  rcases h with rfl | ⟨more, rfl⟩
  · cases first <;> rfl
  · have hcolon (more : List Char) :
        readNumber 16 (some 4) true 65536 (':' :: more) = none := by
      simp [readNumber, takeDigits_of_noDigit noDigit_colon]
    cases first with
    | true => exact hcolon (':' :: more)
    | false => simp [readSeparated, readGiven, hcolon]

theorem readSeparated_readIpv4 {cs : List Char} (h : '.' ∉ cs) :
    readSeparated ':' first readIpv4 cs = none := by
  cases first with
  | true => exact readIpv4_eq_none h
  | false =>
      cases cs with
      | nil => rfl
      | cons c cs =>
          have hcs : '.' ∉ cs := fun hmem => h (List.mem_cons_of_mem c hmem)
          by_cases hc : c = ':'
          · simp [readSeparated, readGiven, hc, readIpv4_eq_none hcs]
          · simp [readSeparated, readGiven, hc]

/-- **Groups are read back**, as many as there is room for. The induction is on
them. -/
theorem readGroups_text (hlimit : groups.length ≤ limit) (hgroups : ∀ g ∈ groups, g < 65536)
    (hrest : EndsGroups rest) (hdot : '.' ∉ rest) :
    readGroups first limit (groupsText first groups ++ rest) = (groups, false, rest) := by
  have hcolon : '.' ∉ ":0123456789abcdef".toList := by decide
  induction groups generalizing first limit with
  | nil =>
      cases limit with
      | zero => cases first <;> rfl
      | succ limit =>
          have hv4 : (if limit = 0 then none else readSeparated ':' first readIpv4 rest) = none := by
            split_ifs
            · rfl
            · exact readSeparated_readIpv4 hdot
          cases first <;> simp [groupsText, readGroups, hv4, hrest.readGroup]
  | cons group groups ih =>
      obtain ⟨limit, rfl⟩ : ∃ room, limit = room + 1 := ⟨limit - 1, by simp at hlimit; omega⟩
      obtain ⟨hgroup, hgroups⟩ := List.forall_mem_cons.mp hgroups
      have hmore := @ih false limit (Nat.le_of_succ_le_succ hlimit) hgroups
      have hplain : '.' ∉ groupsText first (group :: groups) ++ rest := by
        rw [List.mem_append, not_or]
        exact ⟨fun hmem => hcolon (mem_groupsText hmem), hdot⟩
      have hv4 : (if limit = 0 then none else
          readSeparated ':' first readIpv4 (groupsText first (group :: groups) ++ rest)) = none := by
        split_ifs
        · rfl
        · exact readSeparated_readIpv4 hplain
      have hread : readSeparated ':' first (readNumber 16 (some 4) true 65536)
          (groupsText first (group :: groups) ++ rest) =
            some (group, groupsText false groups ++ rest) := by
        cases first with
        | true =>
            rw [groupsText, List.append_assoc]
            exact readGroup_toDigits hgroup hrest.noDigit
        | false =>
            rw [groupsText, List.cons_append, List.cons_append, List.append_assoc]
            simp [readSeparated, readGiven, readGroup_toDigits hgroup hrest.noDigit]
      simp only [readGroups, hv4, hread, hmore]

end groups

/-! ### IPv6 -/

section ipv6

variable {bits : BitVec 128}

theorem lt_of_mem_groupsOf : ∀ g ∈ groupsOf bits, g < 65536 := by
  intro g hg
  obtain ⟨i, _, rfl⟩ := List.mem_map.mp hg
  exact Nat.mod_lt _ (by omega)

theorem length_groupsOf (bits : BitVec 128) : (groupsOf bits).length = 8 := by
  simp [groupsOf]

theorem ofGroups_groupsOf (bits : BitVec 128) : ofGroups (groupsOf bits) = bits := by
  have hlt := bits.isLt
  apply BitVec.eq_of_toNat_eq
  rw [ofGroups, BitVec.toNat_ofNat, digitsValue]
  simp only [groupsOf, List.range_succ, List.range_zero, List.nil_append, List.cons_append,
    List.map_cons, List.map_nil, List.foldl_cons, List.foldl_nil]
  norm_num only at hlt ⊢
  omega

/-- What is left out is a run of zero groups. -/
theorem longestZeros_run (groups : List ℕ) :
    (longestZeros groups).1 + (longestZeros groups).2 ≤ groups.length ∧
      (groups.drop (longestZeros groups).1).take (longestZeros groups).2 =
        List.replicate (longestZeros groups).2 0 := by
  unfold longestZeros
  apply List.foldlRecOn (motive := fun best : ℕ × ℕ => best.1 + best.2 ≤ groups.length ∧
    (groups.drop best.1).take best.2 = List.replicate best.2 0)
  · simp
  · intro best hbest start hstart
    rw [List.mem_range] at hstart
    have hprefix := List.takeWhile_prefix (l := groups.drop start) (· == 0)
    have hlength := hprefix.length_le
    rw [List.length_drop] at hlength
    dsimp only
    split_ifs
    · refine ⟨by dsimp only; omega, ?_⟩
      rw [← List.prefix_iff_eq_take.mp hprefix, List.eq_replicate_iff]
      refine ⟨rfl, ?_⟩
      intro g hg
      simpa using List.mem_takeWhile_imp hg
    · exact hbest

theorem groups_eq (groups : List ℕ) (start run : ℕ)
    (hzeros : (groups.drop start).take run = List.replicate run 0) :
    groups = groups.take start ++ List.replicate run 0 ++ groups.drop (start + run) := by
  rw [← hzeros, List.append_assoc, ← List.drop_drop, List.take_append_drop,
    List.take_append_drop]

theorem readIpv6_groups : readIpv6 (displayGroups (groupsOf bits)).toList = some (bits, []) := by
  have hread := @readGroups_text true (groupsOf bits) 8 [] (length_groupsOf bits).le
    lt_of_mem_groupsOf (Or.inl rfl) (by simp)
  rw [List.append_nil] at hread
  simp only [readIpv6, toList_displayGroups, hread, length_groupsOf, if_true, ofGroups_groupsOf]

/-- An address of which a run of zero groups is left out. -/
theorem readIpv6_compressed {start run : ℕ} (hrun : 1 < run) (hinside : start + run ≤ 8)
    (hzeros : ((groupsOf bits).drop start).take run = List.replicate run 0) :
    readIpv6 (displayGroups ((groupsOf bits).take start) ++ "::" ++
      displayGroups ((groupsOf bits).drop (start + run))).toList = some (bits, []) := by
  let head := (groupsOf bits).take start
  let tail := (groupsOf bits).drop (start + run)
  have hhead : head.length = start := by
    rw [List.length_take, length_groupsOf]
    omega
  have htail : tail.length = 8 - (start + run) := by
    rw [List.length_drop, length_groupsOf]
  have hcolon : '.' ∉ ":0123456789abcdef".toList := by decide
  have hbehind : '.' ∉ ':' :: ':' :: groupsText true tail := by
    intro hmem
    rcases List.mem_cons.mp hmem with hdot | hmem
    · cases hdot
    · rcases List.mem_cons.mp hmem with hdot | hmem
      · cases hdot
      · exact hcolon (mem_groupsText hmem)
  have hfirst := @readGroups_text true head 8 (':' :: ':' :: groupsText true tail) (by omega)
    (fun g hg => lt_of_mem_groupsOf g (List.mem_of_mem_take hg)) (Or.inr ⟨_, rfl⟩) hbehind
  have hsecond := @readGroups_text true tail (8 - (head.length + 1)) [] (by omega)
    (fun g hg => lt_of_mem_groupsOf g (List.mem_of_mem_drop hg)) (Or.inl rfl) (by simp)
  have hfill : 8 - head.length - tail.length = run := by omega
  have hnot : ¬head.length = 8 := by omega
  have hall : head ++ List.replicate run 0 ++ tail = groupsOf bits :=
    (groups_eq (groupsOf bits) start run hzeros).symm
  have htext : (displayGroups head ++ "::" ++ displayGroups tail).toList =
      groupsText true head ++ ':' :: ':' :: groupsText true tail := by
    simp [toList_displayGroups]
  rw [List.append_nil] at hsecond
  rw [htext]
  simp only [readIpv6, hfirst, hnot, if_false, Bool.false_eq_true, readGiven, if_true,
    Option.bind_eq_bind, Option.bind_some, hsecond, hfill, hall, ofGroups_groupsOf]
  rfl

/-- The groups of a mapped address behind its zeros. -/
theorem readGroups_mapped {low : BitVec 32} :
    readGroups true 7 ('f' :: 'f' :: 'f' :: 'f' :: ':' :: (Ipv4.display low).toList) =
      ([65535, low.toNat / 65536, low.toNat % 65536], true, []) := by
  have hlow : readIpv4 (Ipv4.display low).toList = some (low, []) := by
    have hread := @readIpv4_display low [] rfl
    rwa [List.append_nil] at hread
  have hmark (rest : List Char) : readIpv4 ('f' :: rest) = none := rfl
  have hgroup : readNumber 16 (some 4) true 65536
      ('f' :: 'f' :: 'f' :: 'f' :: ':' :: (Ipv4.display low).toList) =
        some (65535, ':' :: (Ipv4.display low).toList) := by
    have hdigits : Nat.toDigits 16 65535 = ['f', 'f', 'f', 'f'] := by decide
    have hread := @readGroup_toDigits (':' :: (Ipv4.display low).toList) 65535 (by omega)
      noDigit_colon
    rwa [hdigits] at hread
  have hlast : readGroups false 6 (':' :: (Ipv4.display low).toList) =
      ([low.toNat / 65536, low.toNat % 65536], true, []) := by
    simp [readGroups, readSeparated, readGiven, hlow]
  rw [readGroups]
  simp [readSeparated, hmark, hgroup, hlast]

/-- A mapped address. -/
theorem readIpv6_mapped (hmapped : bits.toNat / 2 ^ 32 = 0xffff) :
    readIpv6 ("::ffff:" ++ Ipv4.display (BitVec.ofNat 32 (bits.toNat % 2 ^ 32))).toList =
      some (bits, []) := by
  let low := BitVec.ofNat 32 (bits.toNat % 2 ^ 32)
  have htext : ("::ffff:" ++ Ipv4.display low).toList =
      ':' :: ':' :: 'f' :: 'f' :: 'f' :: 'f' :: ':' :: (Ipv4.display low).toList := by simp
  have hempty (rest : List Char) : readGroups true 8 (':' :: rest) = ([], false, ':' :: rest) := rfl
  have hbits : ofGroups [0, 0, 0, 0, 0, 65535, low.toNat / 65536, low.toNat % 65536] = bits := by
    have hlow : low.toNat = bits.toNat % 2 ^ 32 := by
      rw [BitVec.toNat_ofNat, Nat.mod_mod]
    have hlt := bits.isLt
    apply BitVec.eq_of_toNat_eq
    rw [ofGroups, BitVec.toNat_ofNat, digitsValue, hlow]
    simp only [List.foldl_cons, List.foldl_nil]
    omega
  rw [htext]
  simp [readIpv6, hempty, readGiven, readGroups_mapped, hbits, List.replicate]

/-- **An IPv6 address is read back.** -/
theorem readIpv6_display : readIpv6 (Ipv6.display bits).toList = some (bits, []) := by
  unfold Ipv6.display
  split_ifs with hmapped
  · exact readIpv6_mapped hmapped
  · obtain ⟨hinside, hzeros⟩ := longestZeros_run (groupsOf bits)
    rw [length_groupsOf] at hinside
    dsimp only
    split_ifs with hrun
    · exact readIpv6_compressed hrun hinside hzeros
    · exact readIpv6_groups

end ipv6

/-! ### Either family -/

section ipAddr

variable {c : Char}

theorem mem_ipv4 {bits : BitVec 32} (h : c ∈ (Ipv4.display bits).toList) :
    c ∈ ".:0123456789abcdef".toList := by
  have hdigit {n : ℕ} (h : c ∈ Nat.toDigits 10 n) : c ∈ ".:0123456789abcdef".toList :=
    List.mem_cons_of_mem _ (List.mem_cons_of_mem _ (mem_toDigits (by omega) (by omega) h))
  rw [toList_ipv4] at h
  simp only [List.mem_append, List.mem_cons] at h
  rcases h with h | rfl | h | rfl | h | rfl | h
  · exact hdigit h
  · decide
  · exact hdigit h
  · decide
  · exact hdigit h
  · decide
  · exact hdigit h

theorem mem_ipv6 {bits : BitVec 128} (hmapped : ¬bits.toNat / 2 ^ 32 = 0xffff)
    (h : c ∈ (Ipv6.display bits).toList) : c ∈ ":0123456789abcdef".toList := by
  unfold Ipv6.display at h
  rw [if_neg hmapped] at h
  dsimp only at h
  split_ifs at h with hrun
  · rw [String.toList_append, String.toList_append, toList_displayGroups,
      toList_displayGroups] at h
    rcases List.mem_append.mp h with h | h
    · rcases List.mem_append.mp h with h | h
      · exact mem_groupsText h
      · obtain rfl : c = ':' := by simpa using h
        decide
    · exact mem_groupsText h
  · rw [toList_displayGroups] at h
    exact mem_groupsText h

theorem mem_display {address : IpAddr} (h : c ∈ address.display.toList) :
    c ∈ ".:0123456789abcdef".toList := by
  cases address with
  | v4 bits => exact mem_ipv4 h
  | v6 bits =>
      by_cases hmapped : bits.toNat / 2 ^ 32 = 0xffff
      · have hmark : ∀ c ∈ "::ffff:".toList, c ∈ ".:0123456789abcdef".toList := by simp
        rw [IpAddr.display, Ipv6.display, if_pos hmapped, String.toList_append] at h
        rcases List.mem_append.mp h with h | h
        · exact hmark c h
        · exact mem_ipv4 h
      · exact List.mem_cons_of_mem _ (mem_ipv6 hmapped h)

/-- **An address is read back from its text.** -/
theorem parse_display (address : IpAddr) : IpAddr.parse address.display = some address := by
  cases address with
  | v4 bits =>
      have hread := @readIpv4_display bits [] rfl
      rw [List.append_nil] at hread
      simp [IpAddr.parse, parseWith, IpAddr.display, readIpAddr, hread]
  | v6 bits =>
      have hv4 : readIpv4 (Ipv6.display bits).toList = none := by
        by_cases hmapped : bits.toNat / 2 ^ 32 = 0xffff
        · have hcolon (rest : List Char) : readIpv4 (':' :: rest) = none := rfl
          unfold Ipv6.display
          rw [if_pos hmapped, String.toList_append]
          exact hcolon _
        · apply readIpv4_eq_none
          intro hdot
          have hmem := mem_ipv6 hmapped hdot
          revert hmem
          decide
      simp [IpAddr.parse, parseWith, IpAddr.display, readIpAddr, hv4, readIpv6_display]

end ipAddr

end Nhop.Foundation
