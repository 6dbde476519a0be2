import Nhop.Foundation.Spelling
import Nhop.Foundation.Split
import Nhop.Rules.Precedence

/-!
Suffix rules compare whole labels.

A name is the list of labels between its dots, once a trailing dot is dropped and
case is ignored; labels may be empty. A suffix rule tests for the end of a text and
for the dot before it, which comes to the labels of the rule being the last labels of
the host. A decision reads a host as it is normalized, so that hosts whose folded
texts agree are routed alike.
-/

namespace Nhop.Rules

open Foundation Ipc

/-! ### Names as labels -/

/-- A text without one trailing dot, in lower case. -/
def folded (text : String) : List Char :=
  (if text.toList.getLast? = some '.' then text.toList.dropLast else text.toList).map Char.toLower

/-- The labels between the dots of a name. -/
def labels (text : String) : List (List Char) := pieces ['.'] (folded text)

def Ascii (text : String) : Prop := ∀ c ∈ text.toList, c.toNat < 128

section folded

variable {text text' : String}

theorem dot_of_toLower {c : Char} (h : c.toLower = '.') : c = '.' := by
  rcases toLower_cases c with hc | ⟨k, hk, _, hlower⟩
  · rw [← hc, h]
  · rw [hlower] at h
    interval_cases k <;> simp at h

theorem toList_stripDot : ((stripEnd "." text).getD text).toList =
    if text.toList.getLast? = some '.' then text.toList.dropLast else text.toList := by
  have hdot : (".".toList.isSuffixOf text.toList = true) ↔ text.toList.getLast? = some '.' := by
    rw [List.isSuffixOf_iff_suffix]
    show ['.'] <:+ text.toList ↔ _
    constructor
    · rintro ⟨before, hsplit⟩
      rw [← hsplit]
      exact List.getLast?_concat
    · intro hlast
      obtain ⟨before, hsplit⟩ := List.getLast?_eq_some_iff.mp hlast
      exact ⟨before, hsplit.symm⟩
  unfold stripEnd
  by_cases hlast : text.toList.getLast? = some '.'
  · rw [if_pos (hdot.mpr hlast), if_pos hlast, Option.getD_some, String.toList_ofList,
      List.dropLast_eq_take]
    rfl
  · rw [if_neg fun hsuffix => hlast (hdot.mp hsuffix), if_neg hlast, Option.getD_none]

theorem toList_lowercase [External] (h : Ascii text) :
    (External.lowercase ((stripEnd "." text).getD text)).toList = folded text := by
  have hascii : ∀ c ∈ ((stripEnd "." text).getD text).toList, c.toNat < 128 := by
    intro c hmem
    rw [toList_stripDot] at hmem
    split_ifs at hmem
    · exact h c (List.dropLast_subset _ hmem)
    · exact h c hmem
  rw [External.lowercase_ascii _ hascii, String.toList_ofList, toList_stripDot, folded]

theorem folded_eq : folded text =
    if (text.toList.map Char.toLower).getLast? = some '.' then
      (text.toList.map Char.toLower).dropLast
    else text.toList.map Char.toLower := by
  have hlast : (text.toList.map Char.toLower).getLast? = some '.' ↔
      text.toList.getLast? = some '.' := by
    rw [List.getLast?_map, Option.map_eq_some_iff]
    constructor
    · rintro ⟨c, hc, hlower⟩
      rw [hc, dot_of_toLower hlower]
    · intro h
      exact ⟨'.', h, rfl⟩
  unfold folded
  by_cases h : text.toList.getLast? = some '.'
  · rw [if_pos h, if_pos (hlast.mpr h), List.map_dropLast]
  · rw [if_neg h, if_neg fun hmap => h (hlast.mp hmap)]

theorem folded_of_case (h : text.toList.map Char.toLower = text'.toList.map Char.toLower) :
    folded text = folded text' := by
  rw [folded_eq, folded_eq, h]

end folded

/-! ### Suffix rules -/

section suffix

variable [External] {value : RuleValue} {suffix : Suffix} {host : Host}

theorem Suffix.text_of_parse (h : Suffix.parse value = .ok suffix) (hascii : Ascii value.text) :
    suffix.text.toList = folded value.text := by
  unfold Suffix.parse at h
  simp only at h
  split at h
  · cases h
  · cases h
    exact toList_lowercase hascii

omit [External] in
theorem stripEnd_eq_some {tail text head : String} :
    stripEnd tail text = some head ↔ text.toList = head.toList ++ tail.toList := by
  unfold stripEnd
  split
  · next hsuffix =>
      obtain ⟨before, hsplit⟩ := List.isSuffixOf_iff_suffix.mp hsuffix
      rw [Option.some.injEq, ← hsplit, String.ext_iff]
      simp
  · next hsuffix =>
      simp only [reduceCtorEq, false_iff]
      intro hsplit
      apply hsuffix
      rw [hsplit]
      exact List.isSuffixOf_iff_suffix.mpr (List.suffix_append _ _)

omit [External] in
/-- A suffix matches the text itself and what ends in it behind a dot. -/
theorem Suffix.matches_iff {normalized : NormalizedHost} :
    suffix.matches normalized = true ↔ normalized.host.toList = suffix.text.toList ∨
      '.' :: suffix.text.toList <:+ normalized.host.toList := by
  unfold Suffix.matches
  by_cases hsame : normalized.host = suffix.text
  · simp [hsame]
  · have hne : normalized.host.toList ≠ suffix.text.toList := fun h => hsame (String.ext h)
    rw [if_neg hsame]
    simp only [hne, false_or]
    cases hstrip : stripEnd suffix.text normalized.host with
    | some head =>
        rw [stripEnd_eq_some.mp hstrip]
        show List.isSuffixOf ['.'] head.toList = true ↔ _
        rw [List.isSuffixOf_iff_suffix, ← List.singleton_append]
        exact List.suffix_append_self_iff.symm
    | none =>
        simp only [Bool.false_eq_true, false_iff]
        rintro ⟨before, hsplit⟩
        have hsome : stripEnd suffix.text normalized.host =
            some (String.ofList (before ++ ['.'])) := by
          rw [stripEnd_eq_some, ← hsplit]
          simp
        rw [hstrip] at hsome
        cases hsome

/-- **A suffix rule matches whole labels.** -/
theorem Suffix.matches_iff_labels (h : Suffix.parse value = .ok suffix)
    (hvalue : Ascii value.text) (hhost : Ascii host.name) :
    suffix.matches (NormalizedHost.new host) = true ↔ labels value.text <:+ labels host.name := by
  have hfolded : (NormalizedHost.new host).host.toList = folded host.name := toList_lowercase hhost
  rw [Suffix.matches_iff, Suffix.text_of_parse h hvalue, hfolded, labels, labels,
    pieces_suffix_iff]

end suffix

/-! ### Spellings of a host -/

section decisions

variable [External] {host host' : Host}

theorem NormalizedHost.address_of_parse {address : IpAddr}
    (h : IpAddr.parse host.name = some address) :
    (NormalizedHost.new host).address = some address := by
  show IpAddr.parse (External.lowercase ((stripEnd "." host.name).getD host.name)) = _
  rw [stripEnd_dot_of_parse h]
  exact parse_lowered h

theorem NormalizedHost.new_of_folded (hhost : Ascii host.name) (hhost' : Ascii host'.name)
    (h : folded host.name = folded host'.name) :
    NormalizedHost.new host = NormalizedHost.new host' := by
  have hsame : External.lowercase ((stripEnd "." host.name).getD host.name) =
      External.lowercase ((stripEnd "." host'.name).getD host'.name) := by
    apply String.ext
    rw [toList_lowercase hhost, toList_lowercase hhost', h]
  simp only [NormalizedHost.new, hsame]

theorem NormalizedHost.new_of_dot (hdot : host.name.toList.getLast? ≠ some '.') :
    NormalizedHost.new ⟨host.name ++ "."⟩ = NormalizedHost.new host := by
  have hsame : (stripEnd "." (host.name ++ ".")).getD (host.name ++ ".") =
      (stripEnd "." host.name).getD host.name := by
    apply String.ext
    have hlast : (host.name ++ ".").toList.getLast? = some '.' := by simp
    rw [toList_stripDot, toList_stripDot, if_pos hlast, if_neg hdot, String.toList_append]
    exact List.dropLast_concat
  simp only [NormalizedHost.new, hsame]

theorem decide_of_folded (hhost : Ascii host.name) (hhost' : Ascii host'.name)
    (h : folded host.name = folded host'.name) (rules : Ruleset) (port : Port) :
    rules.decide host port = rules.decide host' port := by
  simp only [Ruleset.decide, NormalizedHost.new_of_folded hhost hhost' h]

/-- **Suffix rules match whole labels**, and a ruleset decides alike on two hosts that
differ in case only, or in a dot behind one that does not end in a dot itself. -/
theorem suffix_whole_labels :
    (∀ (value : RuleValue) (matcher : Matcher) (host : Host) (port : Port),
      Matcher.parse .suffix value = .ok matcher → Ascii value.text → Ascii host.name →
      (matcher.matches (NormalizedHost.new host) port = true ↔
        labels value.text <:+ labels host.name)) ∧
    (∀ (rules : Ruleset) (host host' : Host) (port : Port), Ascii host.name → Ascii host'.name →
      host.name.toList.map Char.toLower = host'.name.toList.map Char.toLower →
      rules.decide host port = rules.decide host' port) ∧
    ∀ (rules : Ruleset) (host : Host) (port : Port), host.name.toList.getLast? ≠ some '.' →
      rules.decide host port = rules.decide ⟨host.name ++ "."⟩ port := by
  refine ⟨?_, ?_, ?_⟩
  · intro value matcher host port hparse hvalue hhost
    simp only [Matcher.parse] at hparse
    cases hsuffix : Suffix.parse value with
    | error failure =>
        rw [hsuffix] at hparse
        cases hparse
    | ok suffix =>
        rw [hsuffix] at hparse
        cases hparse
        exact Suffix.matches_iff_labels hsuffix hvalue hhost
  · intro rules host host' port hhost hhost' hcase
    exact decide_of_folded hhost hhost' (folded_of_case hcase) rules port
  · intro rules host port hdot
    simp only [Ruleset.decide, NormalizedHost.new_of_dot hdot]

end decisions

/-- A rule for `Example.com.` and a host below it. -/
theorem suffix_whole_labels_example :
    @Matcher.matches External.ascii (.suffix ⟨"example.com"⟩)
        (@NormalizedHost.new External.ascii ⟨"www.EXAMPLE.com"⟩) 443 = true ∧
      labels "Example.com." <:+ labels "www.EXAMPLE.com" := by
  have hmatches : @Matcher.matches External.ascii (.suffix ⟨"example.com"⟩)
      (@NormalizedHost.new External.ascii ⟨"www.EXAMPLE.com"⟩) 443 = true := by decide +kernel
  refine ⟨hmatches, ?_⟩
  exact ((@suffix_whole_labels External.ascii).1 ⟨"Example.com."⟩ (.suffix ⟨"example.com"⟩)
    ⟨"www.EXAMPLE.com"⟩ 443 (by decide +kernel) (by simp [Ascii])
      (by simp [Ascii])).mp hmatches

/-- A second trailing dot is not stripped: of two hosts that differ in it, only one is
the label a rule names. -/
theorem decide_second_dot :
    ¬∀ (_ : External) (rules : Ruleset) (host : Host) (port : Port), Ascii host.name →
      rules.decide host port = rules.decide ⟨host.name ++ "."⟩ port := by
  intro h
  have hsame := h External.ascii
    (@Ruleset.declared External.ascii [⟨.require, .suffix, ⟨"a"⟩⟩]) ⟨"a."⟩ 80 (by simp [Ascii])
  revert hsame
  decide +kernel

end Nhop.Rules
