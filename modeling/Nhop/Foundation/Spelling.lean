import Nhop.Foundation.Standard

/-!
How an IP literal may be spelled.

The readers take either case of a hexadecimal digit and no other letter, so that
a literal reads the same in lower case. What a reader consumes is ASCII and ends
in something else than a dot, so that neither lower-casing nor stripping a
trailing dot can tell a literal from what it reads as (`parse_lowered`,
`stripEnd_dot_of_parse`).
-/

namespace Nhop.Foundation

/-! ### Lower case -/

def lowered (cs : List Char) : List Char := cs.map Char.toLower

theorem toLower_cases (c : Char) :
    c.toLower = c ∨ ∃ k < 26, c = Char.ofNat (65 + k) ∧ c.toLower = Char.ofNat (97 + k) := by
  by_cases h : 65 ≤ c.toNat ∧ c.toNat ≤ 90
  · obtain ⟨k, hk⟩ : ∃ k, c.toNat = 65 + k := ⟨c.toNat - 65, by omega⟩
    have hc : c = Char.ofNat (65 + k) := by rw [← hk, Char.ofNat_toNat]
    have hlt : k < 26 := by omega
    refine Or.inr ⟨k, hlt, hc, ?_⟩
    rw [hc]
    interval_cases k <;> rfl
  · refine Or.inl ?_
    unfold Char.toLower
    exact dif_neg h

theorem digitOf_toLower (radix : ℕ) (c : Char) : digitOf radix c.toLower = digitOf radix c := by
  rcases toLower_cases c with h | ⟨k, hk, hc, hlower⟩
  · rw [h]
  · rw [hlower, hc]
    interval_cases k <;> rfl

/-- A reader takes a text in either case, and hands on the same rest. -/
def CaseBlind {α : Type} (read : Reader α) : Prop :=
  ∀ cs, read (lowered cs) = (read cs).map fun taken => (taken.1, lowered taken.2)

section caseBlind

variable {α β : Type} {read : Reader α} {radix : ℕ}

theorem takeDigits_lowered (cs : List Char) :
    takeDigits radix (lowered cs) = ((takeDigits radix cs).1, lowered (takeDigits radix cs).2) := by
  induction cs with
  | nil => rfl
  | cons c cs ih =>
      show takeDigits radix (c.toLower :: lowered cs) = _
      simp only [takeDigits, digitOf_toLower, ih]
      cases digitOf radix c <;> rfl

theorem caseBlind_readNumber {maxDigits : Option ℕ} {zeroPrefix : Bool} {bound : ℕ} :
    CaseBlind (readNumber radix maxDigits zeroPrefix bound) := by
  intro cs
  simp only [readNumber, takeDigits_lowered]
  split_ifs <;> rfl

/-- Separators are no letters. -/
theorem caseBlind_readGiven {c : Char} (hc : c = '.' ∨ c = ':') : CaseBlind (readGiven c) := by
  intro cs
  cases cs with
  | nil => rfl
  | cons c' cs =>
      have hsame : c'.toLower = c ↔ c' = c := by
        rcases toLower_cases c' with h | ⟨k, hk, hc', hlower⟩
        · rw [h]
        · rw [hlower, hc']
          rcases hc with rfl | rfl <;> interval_cases k <;> decide
      show (if c'.toLower = c then some ((), lowered cs) else none) = _
      simp only [hsame, readGiven]
      split_ifs <;> rfl

theorem CaseBlind.bind {next : α → Reader β} (hread : CaseBlind read)
    (hnext : ∀ a, CaseBlind (next a)) :
    CaseBlind fun cs => (read cs).bind fun taken => next taken.1 taken.2 := by
  intro cs
  show (read (lowered cs)).bind _ = ((read cs).bind _).map _
  rw [hread]
  cases read cs with
  | none => rfl
  | some taken => exact hnext taken.1 taken.2

theorem caseBlind_pure (a : α) : CaseBlind fun cs => some (a, cs) := fun _ => rfl

theorem CaseBlind.separated (hread : CaseBlind read) {c : Char} (hc : c = '.' ∨ c = ':')
    {first : Bool} : CaseBlind (readSeparated c first read) := by
  cases first with
  | true => exact hread
  | false => exact (caseBlind_readGiven hc).bind fun _ => hread

theorem caseBlind_readIpv4 : CaseBlind readIpv4 := by
  have hoctet : CaseBlind readOctet := caseBlind_readNumber
  have hnext : CaseBlind (readSeparated '.' false readOctet) := hoctet.separated (Or.inl rfl)
  exact hoctet.bind fun a => hnext.bind fun b => hnext.bind fun c => hnext.bind fun d =>
    caseBlind_pure (BitVec.ofNat 32 (((a * 256 + b) * 256 + c) * 256 + d))

/-- The groups read are the same in either case. The induction is on the room left
for them. -/
theorem readGroups_lowered (first : Bool) (limit : ℕ) (cs : List Char) :
    readGroups first limit (lowered cs) =
      ((readGroups first limit cs).1, (readGroups first limit cs).2.1,
        lowered (readGroups first limit cs).2.2) := by
  induction limit generalizing first cs with
  | zero => rfl
  | succ limit ih =>
      have hv4 : CaseBlind (readSeparated ':' first readIpv4) :=
        caseBlind_readIpv4.separated (Or.inr rfl)
      have hgroup : CaseBlind (readSeparated ':' first (readNumber 16 (some 4) true 65536)) :=
        caseBlind_readNumber.separated (Or.inr rfl)
      have htry : (if limit = 0 then none else readSeparated ':' first readIpv4 (lowered cs)) =
          (if limit = 0 then none else readSeparated ':' first readIpv4 cs).map
            fun taken => (taken.1, lowered taken.2) := by
        split_ifs
        · rfl
        · exact hv4 cs
      simp only [readGroups, htry, hgroup cs]
      cases if limit = 0 then none else readSeparated ':' first readIpv4 cs with
      | some taken => rfl
      | none =>
          cases readSeparated ':' first (readNumber 16 (some 4) true 65536) cs with
          | none => rfl
          | some taken => simp [ih]

theorem caseBlind_readIpv6 : CaseBlind readIpv6 := by
  intro cs
  have hgiven : CaseBlind (readGiven ':') := caseBlind_readGiven (Or.inr rfl)
  let head := (readGroups true 8 cs).1
  have htail : CaseBlind fun cs =>
      let taken := readGroups true (8 - (head.length + 1)) cs
      some (ofGroups (head ++ List.replicate (8 - head.length - taken.1.length) 0 ++ taken.1),
        taken.2.2) := by
    intro cs
    simp only [readGroups_lowered]
    rfl
  have hzeros := (hgiven.bind fun _ => hgiven.bind fun _ => htail) (readGroups true 8 cs).2.2
  simp only [readIpv6, readGroups_lowered]
  split_ifs
  · rfl
  · rfl
  · exact hzeros

theorem caseBlind_readIpAddr : CaseBlind readIpAddr := by
  intro cs
  simp only [readIpAddr, caseBlind_readIpv4 cs, caseBlind_readIpv6 cs]
  cases readIpv4 cs with
  | some taken => rfl
  | none => cases readIpv6 cs <;> rfl

end caseBlind

/-! ### What is consumed -/

/-- ASCII text that does not end in a dot. -/
def Literal (used : List Char) : Prop := (∀ c ∈ used, c.toNat < 128) ∧ used.getLast? ≠ some '.'

/-- What a reader consumes is a literal, and not empty. -/
def Consumes {α : Type} (read : Reader α) : Prop :=
  ∀ cs a rest, read cs = some (a, rest) → ∃ used, cs = used ++ rest ∧ Literal used ∧ used ≠ []

section consumes

variable {α β : Type} {read : Reader α} {radix : ℕ}

theorem literal_nil : Literal [] := by simp [Literal]

theorem Literal.append {before behind : List Char} (hbefore : Literal before)
    (hbehind : Literal behind) : Literal (before ++ behind) := by
  refine ⟨fun c hmem => ?_, ?_⟩
  · rcases List.mem_append.mp hmem with hmem | hmem
    · exact hbefore.1 c hmem
    · exact hbehind.1 c hmem
  · rw [List.getLast?_append]
    intro h
    cases hlast : behind.getLast? with
    | none =>
        rw [hlast] at h
        exact hbefore.2 h
    | some c =>
        rw [hlast] at h
        exact hbehind.2 (hlast.trans h)

theorem digitOf_eq_some {c : Char} {d : ℕ} (h : digitOf radix c = some d) :
    c.toNat < 128 ∧ c ≠ '.' := by
  constructor
  · by_contra hbig
    have hno (last : Char) (hlast : last.toNat < 128) : ¬c ≤ last := fun hle => by
      have : c.toNat ≤ last.toNat := hle
      omega
    simp [digitOf, hno '9' (by decide), hno 'z' (by decide), hno 'Z' (by decide)] at h
  · rintro rfl
    simp [digitOf] at h

theorem takeDigits_consumes (cs : List Char) : ∃ used,
    cs = used ++ (takeDigits radix cs).2 ∧ used.length = (takeDigits radix cs).1.length ∧
      ∀ c ∈ used, c.toNat < 128 ∧ c ≠ '.' := by
  induction cs with
  | nil => exact ⟨[], rfl, rfl, by simp⟩
  | cons c cs ih =>
      cases hdigit : digitOf radix c with
      | none => exact ⟨[], by simp [takeDigits, hdigit], by simp [takeDigits, hdigit], by simp⟩
      | some d =>
          obtain ⟨used, hsplit, hlength, hused⟩ := ih
          refine ⟨c :: used, ?_, ?_, ?_⟩
          · simp only [takeDigits, hdigit, List.cons_append]
            rw [← hsplit]
          · simp [takeDigits, hdigit, hlength]
          · intro c' hmem
            rcases List.mem_cons.mp hmem with rfl | hmem
            · exact digitOf_eq_some hdigit
            · exact hused c' hmem

theorem consumes_readNumber {maxDigits : Option ℕ} {zeroPrefix : Bool} {bound : ℕ} :
    Consumes (readNumber radix maxDigits zeroPrefix bound) := by
  intro cs n rest h
  obtain ⟨used, hsplit, hlength, hused⟩ := @takeDigits_consumes radix cs
  simp only [readNumber] at h
  split_ifs at h with hempty
  cases h
  refine ⟨used, hsplit, ⟨fun c hmem => (hused c hmem).1, fun hlast => ?_⟩, ?_⟩
  · exact (hused '.' (List.mem_of_getLast? hlast)).2 rfl
  · rintro rfl
    exact hempty (List.length_eq_zero_iff.mp hlength.symm)

/-- A separator in front of what a reader consumes. -/
theorem Consumes.separated (hread : Consumes read) {c : Char} (hc : c.toNat < 128)
    {first : Bool} : Consumes (readSeparated c first read) := by
  cases first with
  | true => exact hread
  | false =>
      intro cs a rest h
      cases cs with
      | nil => cases h
      | cons c' cs =>
          by_cases hgiven : c' = c
          · subst hgiven
            obtain ⟨used, rfl, hliteral, hne⟩ :=
              hread cs a rest (by simpa [readSeparated, readGiven] using h)
            refine ⟨c' :: used, rfl, ⟨?_, ?_⟩, by simp⟩
            · intro c hmem
              rcases List.mem_cons.mp hmem with rfl | hmem
              · exact hc
              · exact hliteral.1 c hmem
            · rw [List.getLast?_cons_of_ne_nil hne]
              exact hliteral.2
          · simp [readSeparated, readGiven, hgiven] at h

theorem Consumes.bind {next : α → Reader β} (hread : Consumes read)
    (hnext : ∀ a, Consumes (next a)) :
    Consumes fun cs => (read cs).bind fun taken => next taken.1 taken.2 := by
  intro cs b rest h
  obtain ⟨⟨a, behind⟩, hfirst, hsecond⟩ := Option.bind_eq_some_iff.mp h
  obtain ⟨used, rfl, hliteral, hne⟩ := hread cs a behind hfirst
  obtain ⟨more, rfl, hmore, _⟩ := hnext a behind b rest hsecond
  exact ⟨used ++ more, by simp, hliteral.append hmore, by simp [hne]⟩

theorem Consumes.map (f : α → β) (hread : Consumes read) :
    Consumes fun cs => (read cs).bind fun taken => some (f taken.1, taken.2) := by
  intro cs b rest h
  obtain ⟨⟨a, behind⟩, hfirst, hsecond⟩ := Option.bind_eq_some_iff.mp h
  cases hsecond
  exact hread cs a _ hfirst

theorem consumes_readIpv4 : Consumes readIpv4 := by
  have hoctet : Consumes readOctet := consumes_readNumber
  have hnext : Consumes (readSeparated '.' false readOctet) := hoctet.separated (by decide)
  exact hoctet.bind fun a => hnext.bind fun b => hnext.bind fun c =>
    hnext.map fun d => BitVec.ofNat 32 (((a * 256 + b) * 256 + c) * 256 + d)

theorem readGroups_consumes (first : Bool) (limit : ℕ) (cs : List Char) :
    ∃ used, cs = used ++ (readGroups first limit cs).2.2 ∧ Literal used := by
  induction limit generalizing first cs with
  | zero => exact ⟨[], rfl, literal_nil⟩
  | succ limit ih =>
      have hv4 : Consumes (readSeparated ':' first readIpv4) :=
        consumes_readIpv4.separated (by decide)
      have hgroup : Consumes (readSeparated ':' first (readNumber 16 (some 4) true 65536)) :=
        consumes_readNumber.separated (by decide)
      unfold readGroups
      cases htry : if limit = 0 then none else readSeparated ':' first readIpv4 cs with
      | some taken =>
          have hread : readSeparated ':' first readIpv4 cs = some (taken.1, taken.2) := by
            split_ifs at htry
            exact htry
          obtain ⟨used, hsplit, hliteral, _⟩ := hv4 cs taken.1 taken.2 hread
          exact ⟨used, hsplit, hliteral⟩
      | none =>
          cases hread : readSeparated ':' first (readNumber 16 (some 4) true 65536) cs with
          | none => exact ⟨[], rfl, literal_nil⟩
          | some taken =>
              obtain ⟨used, hsplit, hliteral, _⟩ := hgroup cs taken.1 taken.2 hread
              obtain ⟨more, hrest, hmore⟩ := ih false taken.2
              refine ⟨used ++ more, ?_, hliteral.append hmore⟩
              rw [hsplit, List.append_assoc]
              exact congrArg (used ++ ·) hrest

theorem readGiven_eq_some {c : Char} {cs rest : List Char} {u : Unit}
    (h : readGiven c cs = some (u, rest)) : cs = c :: rest := by
  cases cs with
  | nil => cases h
  | cons c' cs =>
      by_cases hgiven : c' = c
      · rw [readGiven, if_pos hgiven] at h
        cases h
        rw [hgiven]
      · rw [readGiven, if_neg hgiven] at h
        cases h

theorem readIpv6_consumes {cs rest : List Char} {bits : BitVec 128}
    (h : readIpv6 cs = some (bits, rest)) : ∃ used, cs = used ++ rest ∧ Literal used := by
  obtain ⟨used, hsplit, hliteral⟩ := readGroups_consumes true 8 cs
  simp only [readIpv6] at h
  split_ifs at h
  · cases h
    exact ⟨used, hsplit, hliteral⟩
  · obtain ⟨⟨_, one⟩, hone, h⟩ := Option.bind_eq_some_iff.mp h
    obtain ⟨⟨_, two⟩, htwo, h⟩ := Option.bind_eq_some_iff.mp h
    obtain ⟨more, htail, hmore⟩ :=
      readGroups_consumes true (8 - ((readGroups true 8 cs).1.length + 1)) two
    cases h
    have hcolons : Literal [':', ':'] := ⟨by simp, by simp⟩
    refine ⟨used ++ [':', ':'] ++ more, ?_, (hliteral.append hcolons).append hmore⟩
    calc cs = used ++ (readGroups true 8 cs).2.2 := hsplit
      _ = used ++ ':' :: one := congrArg (used ++ ·) (readGiven_eq_some hone)
      _ = used ++ ':' :: ':' :: two :=
        congrArg (fun behind => used ++ ':' :: behind) (readGiven_eq_some htwo)
      _ = used ++ ':' :: ':' :: (more ++ _) :=
        congrArg (fun behind => used ++ ':' :: ':' :: behind) htail
      _ = used ++ [':', ':'] ++ more ++ _ := by simp

theorem literal_of_parse {text : String} {address : IpAddr}
    (h : IpAddr.parse text = some address) : Literal text.toList := by
  unfold IpAddr.parse parseWith at h
  split at h
  · next value hread =>
      unfold readIpAddr at hread
      cases hv4 : readIpv4 text.toList with
      | some taken =>
          obtain ⟨bits, rest⟩ := taken
          rw [hv4] at hread
          cases hread
          obtain ⟨used, hsplit, hliteral, _⟩ := consumes_readIpv4 _ _ _ hv4
          rw [hsplit, List.append_nil]
          exact hliteral
      | none =>
          rw [hv4] at hread
          obtain ⟨⟨bits, rest⟩, hv6, heq⟩ := Option.map_eq_some_iff.mp hread
          cases heq
          obtain ⟨used, hsplit, hliteral⟩ := readIpv6_consumes hv6
          rw [hsplit, List.append_nil]
          exact hliteral
  · cases h

end consumes

/-! ### Spellings -/

section spellings

variable {text : String} {address : IpAddr}

theorem toNat_of_toLower {c : Char} (h : c.toLower.toNat < 128) : c.toNat < 128 := by
  rcases toLower_cases c with hc | ⟨k, hk, hc, _⟩
  · rwa [hc] at h
  · rw [hc]
    interval_cases k <;> decide

/-- A text that is ASCII in lower case is ASCII. -/
theorem lowercase_eq [External] {lower : String} (h : text.toList.map Char.toLower = lower.toList)
    (hascii : ∀ c ∈ lower.toList, c.toNat < 128) : External.lowercase text = lower := by
  rw [External.lowercase_ascii, h, String.ofList_toList]
  intro c hmem
  exact toNat_of_toLower (hascii _ (h ▸ List.mem_map_of_mem hmem))

/-- A literal reads the same in lower case. -/
theorem parse_lowered [External] (h : IpAddr.parse text = some address) :
    IpAddr.parse (External.lowercase text) = some address := by
  rw [External.lowercase_ascii text (literal_of_parse h).1, ← h]
  unfold IpAddr.parse parseWith
  rw [String.toList_ofList, show text.toList.map Char.toLower = lowered text.toList from rfl,
    caseBlind_readIpAddr]
  cases readIpAddr text.toList with
  | none => rfl
  | some taken =>
      obtain ⟨address, rest⟩ := taken
      cases rest <;> rfl

/-- A literal has no trailing dot to strip. -/
theorem stripEnd_dot_of_parse (h : IpAddr.parse text = some address) :
    stripEnd "." text = none := by
  have hlast := (literal_of_parse h).2
  unfold stripEnd
  refine if_neg fun hsuffix => hlast ?_
  obtain ⟨before, hsplit⟩ := List.isSuffixOf_iff_suffix.mp hsuffix
  rw [← hsplit]
  exact List.getLast?_concat

end spellings

end Nhop.Foundation
