import Nhop.Proxy.Http.Head

/-!
What a rebuilt head says, read by the reader it was read by.

The rebuilt target is never absolute, so that the reader takes the destination
from the `Host` field the rewriting put in front of all others. That field is
the name as it was read, and the port unless it is 80: it is read back as it was
meant exactly when the name is one the reader leaves alone, which a bracketed
IPv6 literal without its brackets is not (`Legible`).
-/

namespace Nhop.Proxy.Http

open Foundation Ipc

/-- The first character of a name is neither a blank nor a bracket; and of a name
that stands alone, the last one is no blank and there is no colon. -/
def Legible (host : Host) (port : Port) : Prop :=
  (∀ c ∈ host.name.toList.head?, isWhitespace c = false ∧ c ≠ '[') ∧
    (port = defaultPort →
      (∀ c ∈ host.name.toList.getLast?, isWhitespace c = false) ∧ ':' ∉ host.name.toList)

/-! ### Blanks -/

section trimmed

variable {text : Text} {c : Char}

theorem trimmed_within (text : Text) : trimmed text <:+: text := by
  have hleft : text.dropWhile isWhitespace <:+ text := List.dropWhile_suffix _
  have hright : trimmed text <+: text.dropWhile isWhitespace := by
    rw [← List.reverse_suffix, trimmed, List.reverse_reverse]
    exact List.dropWhile_suffix _
  exact hright.isInfix.trans hleft.isInfix

/-- A text without blanks at its ends stays as it is. -/
theorem trimmed_eq_self (hhead : ∀ c ∈ text.head?, isWhitespace c = false)
    (hlast : ∀ c ∈ text.getLast?, isWhitespace c = false) : trimmed text = text := by
  have hleft : text.dropWhile isWhitespace = text := by
    rw [List.dropWhile_eq_self_iff]
    intro hlength
    rw [hhead _ (List.head?_eq_getElem? ▸ List.getElem?_eq_getElem hlength)]
    simp
  have hright : text.reverse.dropWhile isWhitespace = text.reverse := by
    rw [List.dropWhile_eq_self_iff]
    intro hlength
    have hmem : text.reverse[0] ∈ text.getLast? := by
      rw [← List.head?_reverse, List.head?_eq_getElem?]
      exact List.getElem?_eq_getElem hlength
    rw [hlast _ hmem]
    simp
  rw [trimmed, hleft, hright, List.reverse_reverse]

theorem head?_trimmed (h : c ∈ (trimmed text).head?) : isWhitespace c = false := by
  have hright : trimmed text <+: text.dropWhile isWhitespace := by
    rw [← List.reverse_suffix, trimmed, List.reverse_reverse]
    exact List.dropWhile_suffix _
  obtain ⟨rest, hrest⟩ := hright
  have hhead : (text.dropWhile isWhitespace).head? = some c := by
    rw [← hrest, List.head?_append]
    simp [Option.mem_def.mp h]
  have hnot := List.head?_dropWhile_not isWhitespace text
  rw [hhead] at hnot
  simpa using hnot

theorem getLast?_trimmed (h : c ∈ (trimmed text).getLast?) : isWhitespace c = false := by
  rw [trimmed, List.getLast?_reverse] at h
  have hnot := List.head?_dropWhile_not isWhitespace (text.dropWhile isWhitespace).reverse
  rw [Option.mem_def.mp h] at hnot
  simpa using hnot

theorem trimmed_cons (h : isWhitespace c = true) : trimmed (c :: text) = trimmed text := by
  rw [trimmed, List.dropWhile_cons_of_pos h, trimmed]

end trimmed

/-! ### Authorities -/

section authority

variable {authority target text : Text} {fallback : Option Port} {host : Host} {port : Port}

theorem append_of_stripHead {head rest : Text} (h : stripHead head text = some rest) :
    text = head ++ rest := by
  unfold stripHead at h
  split_ifs at h with hbegins
  obtain ⟨tail, rfl⟩ := List.isPrefixOf_iff_prefix.mp hbegins
  cases h
  simp

theorem named_eq_some {name : Text} {at_ : Port} (h : named name at_ = some (host, port)) :
    name ≠ [] ∧ host.name.toList = name ∧ port = at_ := by
  unfold named at h
  split_ifs at h with hempty
  obtain ⟨rfl, rfl⟩ := Prod.mk.inj (Option.some.inj h)
  exact ⟨hempty, String.toList_ofList, rfl⟩

theorem named_toList (h : host.name.toList ≠ []) :
    named host.name.toList port = some (host, port) := by
  simp only [named, h, if_false, String.ofList_toList]

/-- What an authority is made of when it is read. -/
theorem splitAuthority_eq_some (h : splitAuthority authority fallback = some (host, port)) :
    host.name.toList ≠ [] ∧
      ((∃ rest, authority = '[' :: host.name.toList ++ ']' :: rest) ∨
        (stripHead ['['] authority = none ∧ authority = host.name.toList ∧ ':' ∉ authority ∧
          fallback = some port) ∨
        (stripHead ['['] authority = none ∧
          ∃ digits, authority = host.name.toList ++ ':' :: digits)) := by
  unfold splitAuthority at h
  cases hstrip : stripHead ['['] authority with
  | none =>
      rw [hstrip] at h
      cases hlast : splitOnceLast ':' authority with
      | none =>
          rw [hlast] at h
          obtain ⟨only, hfallback, hnamed⟩ := Option.bind_eq_some_iff.mp h
          obtain ⟨hne, hname, rfl⟩ := named_eq_some hnamed
          refine ⟨hname ▸ hne, Or.inr (Or.inl ⟨rfl, hname.symm, ?_, hfallback⟩)⟩
          exact splitOnceLast_eq_none.mp hlast
      | some split =>
          rw [hlast] at h
          obtain ⟨read, _, hnamed⟩ := Option.bind_eq_some_iff.mp h
          obtain ⟨hne, hname, rfl⟩ := named_eq_some hnamed
          refine ⟨hname ▸ hne, Or.inr (Or.inr ⟨rfl, split.2, ?_⟩)⟩
          rw [hname]
          exact append_of_splitOnceLast hlast
  | some bracketed =>
      rw [hstrip] at h
      obtain ⟨⟨name, behind⟩, hsplit, h⟩ := Option.bind_eq_some_iff.mp h
      have hauthority : authority = '[' :: name ++ ']' :: behind := by
        rw [append_of_stripHead hstrip, append_of_splitOnce hsplit]
        simp
      simp only at h
      cases hport : stripHead [':'] behind with
      | none =>
          rw [hport] at h
          obtain ⟨only, _, hnamed⟩ := Option.bind_eq_some_iff.mp h
          obtain ⟨hne, hname, rfl⟩ := named_eq_some hnamed
          exact ⟨hname ▸ hne, Or.inl ⟨behind, by rw [hname]; exact hauthority⟩⟩
      | some digits =>
          rw [hport] at h
          obtain ⟨read, _, hnamed⟩ := Option.bind_eq_some_iff.mp h
          obtain ⟨hne, hname, rfl⟩ := named_eq_some hnamed
          exact ⟨hname ▸ hne, Or.inl ⟨behind, by rw [hname]; exact hauthority⟩⟩

theorem infix_of_splitAuthority (h : splitAuthority authority fallback = some (host, port)) :
    host.name.toList <:+: authority := by
  rcases (splitAuthority_eq_some h).2 with ⟨rest, rfl⟩ | ⟨_, rfl, _⟩ | ⟨_, digits, rfl⟩
  · exact ⟨['['], ']' :: rest, by simp⟩
  · exact List.infix_refl _
  · exact ⟨[], ':' :: digits, by simp⟩

theorem stripHead_singleton_eq_none {c : Char} :
    stripHead [c] text = none ↔ ∀ c' ∈ text.head?, c' ≠ c := by
  unfold stripHead
  cases text with
  | nil => simp
  | cons c' cs =>
      simp only [List.isPrefixOf, Bool.and_true, beq_iff_eq, List.head?_cons, Option.mem_def,
        Option.some.injEq, forall_eq']
      split_ifs with h
      · simp [h]
      · simpa using fun hsame : c' = c => h hsame.symm

theorem parseU16_toString : parseU16 (toString port.toNat).toList = some port := by
  rw [parseU16, String.ofList_toList, parseUnsigned_toString (UInt16.toNat_lt port)]
  simp

/-- An authority without brackets that names a port of its own. -/
theorem splitAuthority_port (hne : host.name.toList ≠ [])
    (hhead : ∀ c ∈ host.name.toList.head?, c ≠ '[') :
    splitAuthority (host.name.toList ++ ':' :: (toString port.toNat).toList) fallback =
      some (host, port) := by
  have hstrip :
      stripHead ['['] (host.name.toList ++ ':' :: (toString port.toNat).toList) = none := by
    rw [stripHead_singleton_eq_none]
    intro c hmem
    apply hhead c
    rw [List.head?_append_of_ne_nil _ hne] at hmem
    exact hmem
  have hcolon : ':' ∉ (toString port.toNat).toList := by
    intro hmem
    cases isDigit_of_mem_toString hmem
  unfold splitAuthority
  rw [hstrip, splitOnceLast_append hcolon]
  simp only [parseU16_toString, Option.bind_some, named_toList hne]

theorem splitAuthority_name (hne : host.name.toList ≠ [])
    (hhead : ∀ c ∈ host.name.toList.head?, c ≠ '[') (hcolon : ':' ∉ host.name.toList) :
    splitAuthority host.name.toList (some port) = some (host, port) := by
  unfold splitAuthority
  rw [stripHead_singleton_eq_none.mpr hhead, splitOnceLast_eq_none.mpr hcolon]
  simp only [Option.bind_some, named_toList hne]

theorem getLast?_digits {name : Text} :
    ∀ c ∈ (name ++ ':' :: (toString port.toNat).toList).getLast?,
    isWhitespace c = false := by
  intro c hmem
  rw [List.getLast?_append_cons] at hmem
  have hin : c ∈ ':' :: (toString port.toNat).toList := List.mem_of_getLast? hmem
  rcases List.mem_cons.mp hin with rfl | hdigit
  · decide
  · exact isWhitespace_of_isDigit (isDigit_of_mem_toString hdigit)

/-- **The field a destination is told in is read back exactly when it is
legible.** -/
theorem splitAuthority_hostField (hne : host.name.toList ≠ []) :
    splitAuthority (trimmed (hostField host port)) (some defaultPort) = some (host, port) ↔
      Legible host port := by
  by_cases hport : port = defaultPort
  · subst hport
    have hfield : hostField host defaultPort = host.name.toList := by simp [hostField]
    rw [hfield]
    constructor
    · intro h
      have hlength := (trimmed_within host.name.toList).length_le
      rcases (splitAuthority_eq_some h).2 with ⟨rest, heq⟩ | ⟨hstrip, heq, hcolon, _⟩ |
        ⟨_, digits, heq⟩
      · rw [heq] at hlength
        simp only [List.length_append, List.length_cons] at hlength
        omega
      · rw [heq] at hcolon hstrip
        refine ⟨fun c hmem => ⟨?_, stripHead_singleton_eq_none.mp hstrip c hmem⟩,
          fun _ => ⟨fun c hmem => ?_, hcolon⟩⟩
        · rw [← heq] at hmem
          exact head?_trimmed hmem
        · rw [← heq] at hmem
          exact getLast?_trimmed hmem
      · rw [heq] at hlength
        simp only [List.length_append, List.length_cons] at hlength
        omega
    · rintro ⟨hhead, hlast⟩
      obtain ⟨hlast, hcolon⟩ := hlast rfl
      rw [trimmed_eq_self (fun c hmem => (hhead c hmem).1) hlast]
      exact splitAuthority_name hne (fun c hmem => (hhead c hmem).2) hcolon
  · have hfield : hostField host port =
        host.name.toList ++ ':' :: (toString port.toNat).toList := by simp [hostField, hport]
    rw [hfield]
    constructor
    · intro h
      rcases (splitAuthority_eq_some h).2 with ⟨rest, heq⟩ | ⟨_, _, _, hfallback⟩ |
        ⟨hstrip, digits, heq⟩
      · -- the field would close one bracket more than the name does
        have hcount := (trimmed_within (host.name.toList ++ ':' :: (toString port.toNat).toList)
          ).sublist.count_le ']'
        have hdigits : ']' ∉ (toString port.toNat).toList := by
          intro hmem
          cases isDigit_of_mem_toString hmem
        rw [heq] at hcount
        generalize (toString port.toNat).toList = digits at hcount hdigits
        have hnone : digits.count ']' = 0 := List.count_eq_zero_of_not_mem hdigits
        simp [hnone] at hcount
      · exact absurd (Option.some.inj hfallback).symm hport
      · have hhead : ∀ c ∈ host.name.toList.head?,
            c ∈ (trimmed (host.name.toList ++ ':' :: (toString port.toNat).toList)).head? := by
          intro c hmem
          rw [heq, List.head?_append_of_ne_nil _ hne]
          exact hmem
        refine ⟨fun c hmem => ⟨head?_trimmed (hhead c hmem), ?_⟩, fun h => absurd h hport⟩
        exact stripHead_singleton_eq_none.mp hstrip c (hhead c hmem)
    · rintro ⟨hhead, _⟩
      rw [trimmed_eq_self _ getLast?_digits]
      · exact splitAuthority_port hne fun c hmem => (hhead c hmem).2
      · intro c hmem
        rw [List.head?_append_of_ne_nil _ hne] at hmem
        exact (hhead c hmem).1

end authority

/-! ### Lines -/

/-- A text that is part of one line. -/
def OneLine (text : Text) : Prop := ¬crlf <:+: text

section lines

variable {text part target authority name line headers method : Text} {lines : List Text}

theorem OneLine.within (h : OneLine text) (hpart : part <:+: text) : OneLine part :=
  fun hcrlf => h (hcrlf.trans hpart)

theorem OneLine.append (hbefore : OneLine text) (hbehind : OneLine part) {c : Char}
    (hcr : c ≠ '\r') (hlf : c ≠ '\n') : OneLine (text ++ c :: part) :=
  notInfix_pair_append hcr hlf hbefore hbehind

theorem oneLine_of_notMem (h : '\r' ∉ text) : OneLine text := by
  intro hcrlf
  exact h (hcrlf.subset (List.mem_cons_self ..))

theorem infix_of_absoluteAuthority (h : absoluteAuthority target = some authority) :
    authority <:+: target := by
  obtain ⟨rest, hstrip, heq⟩ := Option.map_eq_some_iff.mp h
  rw [append_of_stripHead hstrip]
  have hrest : authority <:+: rest := by
    rw [← heq]
    cases hsplit : splitOnce ['/'] rest with
    | none => exact List.infix_refl _
    | some split =>
        rw [append_of_splitOnce hsplit]
        exact ⟨[], ['/'] ++ split.2, by simp⟩
  exact hrest.trans (List.suffix_append _ _).isInfix

/-- The value of a field is found in one of the lines. -/
theorem infix_of_headerIn (h : headerIn lines name = some part) :
    ∃ line ∈ lines, part <:+: line := by
  induction lines with
  | nil => cases h
  | cons line lines ih =>
      have hlater : headerIn lines name = some part → ∃ line' ∈ line :: lines, part <:+: line' := by
        intro hheader
        obtain ⟨line', hmem, hwithin⟩ := ih hheader
        exact ⟨line', List.mem_cons_of_mem _ hmem, hwithin⟩
      unfold headerIn at h
      cases hsplit : splitOnce [':'] line with
      | none =>
          rw [hsplit] at h
          exact hlater h
      | some split =>
          rw [hsplit] at h
          simp only at h
          split_ifs at h
          · cases h
            refine ⟨line, List.mem_cons_self .., (trimmed_within split.2).trans ?_⟩
            rw [append_of_splitOnce hsplit]
            exact (List.suffix_append _ _).isInfix
          · exact hlater h

theorem oneLine_of_header (h : header headers name = some part) : OneLine part := by
  obtain ⟨line, hmem, hwithin⟩ := infix_of_headerIn h
  have hline : OneLine line := pieces_notInfix (by simp [crlf]) line hmem
  exact hline.within hwithin

/-- The rebuilt target is the target itself, the root, or a path found in it. -/
theorem originForm_cases (target : Text) :
    (stripHead http target = none ∧ originForm target = target) ∨ originForm target = ['/'] ∨
      ∃ path, originForm target = '/' :: path ∧ '/' :: path <:+: target := by
  unfold originForm
  cases hstrip : stripHead http target with
  | none => exact Or.inl ⟨rfl, rfl⟩
  | some rest =>
      simp only
      cases hsplit : splitOnce ['/'] rest with
      | none => exact Or.inr (Or.inl rfl)
      | some split =>
          refine Or.inr (Or.inr ⟨split.2, rfl, ?_⟩)
          rw [append_of_stripHead hstrip, append_of_splitOnce hsplit]
          exact ⟨http ++ split.1, [], by simp⟩

theorem oneLine_originForm (h : OneLine target) : OneLine (originForm target) := by
  rcases originForm_cases target with ⟨_, heq⟩ | heq | ⟨path, heq, hpath⟩ <;> rw [heq]
  · exact h
  · exact oneLine_of_notMem (by simp)
  · exact h.within hpath

theorem notMem_originForm {c : Char} (hc : c ≠ '/') (h : c ∉ target) : c ∉ originForm target := by
  rcases originForm_cases target with ⟨_, heq⟩ | heq | ⟨path, heq, hpath⟩ <;> rw [heq]
  · exact h
  · simpa using hc
  · exact fun hmem => h (hpath.subset hmem)

/-- The field a destination is told in is one line, as its name is. -/
theorem oneLine_hostField {host : Host} {port : Port} (h : OneLine host.name.toList) :
    OneLine (' ' :: hostField host port) := by
  have hfield : OneLine (hostField host port) := by
    unfold hostField
    split_ifs
    · apply h.append (oneLine_of_notMem _) (by decide) (by decide)
      intro hmem
      cases isDigit_of_mem_toString hmem
    · simpa using h
  exact (oneLine_of_notMem List.not_mem_nil).append hfield (by decide) (by decide)

/-- The rebuilt target names no authority. -/
theorem absoluteAuthority_originForm (target : Text) :
    absoluteAuthority (originForm target) = none := by
  have hroot : ∀ path, absoluteAuthority ('/' :: path) = none := fun path => rfl
  rcases originForm_cases target with ⟨hnone, heq⟩ | heq | ⟨path, heq, _⟩ <;> rw [heq]
  · rw [absoluteAuthority, hnone]
    rfl
  · exact hroot []
  · exact hroot path

end lines

/-! ### The rebuilt head -/

theorem fromUtf8_intoBytes (text : Text) : fromUtf8 (intoBytes text) = some text := by
  have hbytes : (⟨(intoBytes text).toArray⟩ : ByteArray) = (String.ofList text).toUTF8 := by
    simp [intoBytes]
  have hread : String.fromUTF8? (String.ofList text).toUTF8 = some (String.ofList text) :=
    dif_pos (String.ofList text).isValidUTF8
  rw [fromUtf8, hbytes, hread, Option.map_some, String.toList_ofList]

/-- The `Host` field of a head. -/
def hostOf (head : List UInt8) : Option Text := do
  let head ← fromUtf8 head
  let (_, headers) ← splitOnce crlf head
  header headers "host".toList

section rebuilt

variable {head : List UInt8} {host : Host} {port : Port} {body : Body}

/-- What a head that is read as a request of its own is made of. -/
structure Reads (head : List UInt8) (host : Host) (port : Port) (line headers method target version
    authority : Text) : Prop where
  text : fromUtf8 head = some (line ++ crlf ++ headers)
  split : splitOnce crlf (line ++ crlf ++ headers) = some (line, headers)
  fields : pieces [' '] line = [method, target, version]
  notConnect : method ≠ "CONNECT".toList
  source : absoluteAuthority target = some authority ∨ header headers "host".toList = some authority
  destination : splitAuthority authority (some defaultPort) = some (host, port)

theorem reads_of_parseHead (h : parseHead head = some ⟨.absolute, host, port, body⟩) :
    ∃ line headers method target version authority,
      Reads head host port line headers method target version authority := by
  unfold parseHead at h
  obtain ⟨text, htext, hsplits⟩ := Option.bind_eq_some_iff.mp h
  obtain ⟨⟨line, headers⟩, hsplit, hfields⟩ := Option.bind_eq_some_iff.mp hsplits
  clear h hsplits
  obtain rfl := append_of_splitOnce hsplit
  simp only at hfields
  split at hfields
  · next method target version hpieces =>
      split_ifs at hfields with hversion hmethod
      · obtain ⟨destination, _, hmade⟩ := Option.bind_eq_some_iff.mp hfields
        cases hmade
      · obtain ⟨authority, hauthority, hnamed⟩ := Option.bind_eq_some_iff.mp hfields
        obtain ⟨destination, hdestination, hmade⟩ := Option.bind_eq_some_iff.mp hnamed
        cases hmade
        refine ⟨line, headers, method, target, version, authority, htext, hsplit, hpieces, hmethod,
          ?_, hdestination⟩
        rcases Option.or_eq_some_iff.mp hauthority with habsolute | ⟨_, hheader⟩
        · exact Or.inl habsolute
        · exact Or.inr hheader
  · cases hfields

/-- The request line of a rebuilt head. -/
def requestLine (method target : Text) : Text :=
  method ++ " ".toList ++ originForm target ++ " HTTP/1.1".toList

/-- The field that is regenerated. -/
def hostLine (host : Host) (port : Port) : Text := "Host: ".toList ++ hostField host port

/-- The field that is added. -/
def closeLine : Text := "Connection: close".toList

section reads

variable {line headers method target version authority : Text}

theorem requestLine_eq :
    requestLine method target = method ++ ' ' :: (originForm target ++ ' ' :: "HTTP/1.1".toList) := by
  simp [requestLine]

theorem hostLine_eq : hostLine host port = "Host".toList ++ ':' :: ' ' :: hostField host port := by
  unfold hostLine
  simp

theorem Reads.rewritten_eq (h : Reads head host port line headers method target version authority) :
    rewritten head host port =
      some (intoBytes (requestLine method target ++ crlf ++ (hostLine host port ++ crlf ++
        (keptFields (pieces crlf headers) ++ closeLine ++ crlf ++ crlf)))) := by
  have hlines : requestLine method target ++ crlf ++ (hostLine host port ++ crlf ++
      (keptFields (pieces crlf headers) ++ closeLine ++ crlf ++ crlf)) =
        method ++ " ".toList ++ originForm target ++ " HTTP/1.1".toList ++ crlf ++ "Host: ".toList ++
          hostField host port ++ crlf ++ keptFields (pieces crlf headers) ++
            "Connection: close".toList ++ crlf ++ crlf := by
    unfold requestLine hostLine closeLine
    simp only [List.append_assoc]
  rw [hlines]
  simp only [rewritten, h.text, h.split, h.fields, Option.bind_eq_bind, Option.bind_some]
  rfl

theorem Reads.oneLine_piece
    (h : Reads head host port line headers method target version authority) :
    (OneLine method ∧ ' ' ∉ method) ∧ OneLine target ∧ ' ' ∉ target := by
  have hline : OneLine line := notInfix_of_splitOnce (by simp [crlf]) h.split
  have hpiece : ∀ piece ∈ pieces [' '] line, OneLine piece ∧ ' ' ∉ piece := fun piece hmem =>
    ⟨hline.within (infix_of_mem_pieces hmem), notMem_of_mem_pieces hmem⟩
  rw [h.fields] at hpiece
  exact ⟨hpiece method (by simp), hpiece target (by simp)⟩

theorem Reads.oneLine_requestLine
    (h : Reads head host port line headers method target version authority) :
    OneLine (requestLine method target) := by
  rw [requestLine_eq]
  have hversion : OneLine "HTTP/1.1".toList := oneLine_of_notMem (by decide)
  have hbehind : OneLine (originForm target ++ ' ' :: "HTTP/1.1".toList) :=
    (oneLine_originForm h.oneLine_piece.2.1).append hversion (by decide) (by decide)
  exact h.oneLine_piece.1.1.append hbehind (by decide) (by decide)

theorem Reads.oneLine_hostLine
    (h : Reads head host port line headers method target version authority) :
    OneLine (hostLine host port) := by
  have hauthority : OneLine authority := by
    rcases h.source with habsolute | hheader
    · exact h.oneLine_piece.2.1.within (infix_of_absoluteAuthority habsolute)
    · exact oneLine_of_header hheader
  have hname : OneLine host.name.toList :=
    hauthority.within (infix_of_splitAuthority h.destination)
  rw [hostLine_eq]
  exact (oneLine_of_notMem (by decide)).append (oneLine_hostField hname) (by decide) (by decide)

end reads

/-- **The rebuilt head is read from its `Host` field**, which says what
`hostField` wrote. -/
theorem parseHead_rewritten (h : parseHead head = some ⟨.absolute, host, port, body⟩) :
    ∃ rebuilt body', rewritten head host port = some rebuilt ∧
      hostOf rebuilt = some (trimmed (hostField host port)) ∧
      parseHead rebuilt =
        (splitAuthority (trimmed (hostField host port)) (some defaultPort)).map fun destination =>
          ⟨.absolute, destination.1, destination.2, body'⟩ := by
  obtain ⟨line, headers, method, target, version, authority, hreads⟩ := reads_of_parseHead h
  obtain ⟨⟨_, hmethod⟩, _, htarget⟩ := hreads.oneLine_piece
  set rest := keptFields (pieces crlf headers) ++ closeLine ++ crlf ++ crlf with hrest
  have hsplit : splitOnce crlf (requestLine method target ++ crlf ++
      (hostLine host port ++ crlf ++ rest)) =
        some (requestLine method target, hostLine host port ++ crlf ++ rest) :=
    splitOnce_pair (by decide) hreads.oneLine_requestLine
  have hpieces : pieces [' '] (requestLine method target) =
      [method, originForm target, "HTTP/1.1".toList] := by
    rw [requestLine_eq, pieces_append_of_notMem hmethod,
      pieces_append_of_notMem (notMem_originForm (by decide) htarget), pieces_of_notMem (by decide)]
  have hheader : header (hostLine host port ++ crlf ++ rest) "host".toList =
      some (trimmed (hostField host port)) := by
    have hfirst : splitOnce crlf (hostLine host port ++ crlf ++ rest) =
        some (hostLine host port, rest) := splitOnce_pair (by decide) hreads.oneLine_hostLine
    have hlabel : asciiLowercase (trimmed "Host".toList) = asciiLowercase "host".toList := by decide
    rw [header, pieces_of_splitOnce (by simp [crlf]) hfirst, headerIn, hostLine_eq,
      splitOnce_singleton (by decide)]
    simp only [hlabel, if_true, trimmed_cons (show isWhitespace ' ' = true by decide)]
  have hrewritten : rewritten head host port = some (intoBytes (requestLine method target ++ crlf ++
      (hostLine host port ++ crlf ++ rest))) := hreads.rewritten_eq
  refine ⟨_, bodyOf (hostLine host port ++ crlf ++ rest), hrewritten, ?_, ?_⟩
  · simp only [hostOf, fromUtf8_intoBytes, hsplit, Option.bind_eq_bind, Option.bind_some, hheader]
  · simp only [parseHead, fromUtf8_intoBytes, hsplit, Option.bind_eq_bind, Option.bind_some,
      hpieces]
    have hversion : (!"HTTP/".toList.isPrefixOf "HTTP/1.1".toList) = false := by decide
    rw [if_neg (by rw [hversion]; exact Bool.false_ne_true), if_neg hreads.notConnect,
      absoluteAuthority_originForm, Option.none_or, hheader, Option.bind_some]
    cases splitAuthority (trimmed (hostField host port)) (some defaultPort) <;> rfl

end rebuilt

/-- **A rebuilt head is read back as it was meant exactly when the destination is
legible.** -/
theorem rewritten_reads_back_iff (head : List UInt8) (host : Host) (port : Port) (body : Body)
    (h : parseHead head = some ⟨.absolute, host, port, body⟩) :
    (∃ rebuilt, rewritten head host port = some rebuilt ∧
      (∃ body', parseHead rebuilt = some ⟨.absolute, host, port, body'⟩) ∧
      (hostOf rebuilt).bind (fun field => splitAuthority field (some defaultPort)) =
        some (host, port)) ↔ Legible host port := by
  obtain ⟨rebuilt, body', hrebuilt, hhost, hparse⟩ := parseHead_rewritten h
  obtain ⟨line, headers, method, target, version, authority, hreads⟩ := reads_of_parseHead h
  have hne := (splitAuthority_eq_some hreads.destination).1
  rw [← splitAuthority_hostField hne]
  constructor
  · rintro ⟨rebuilt', hrebuilt', _, hback⟩
    obtain rfl := Option.some.inj (hrebuilt.symm.trans hrebuilt')
    rwa [hhost, Option.bind_some] at hback
  · intro hback
    refine ⟨rebuilt, hrebuilt, ⟨body', ?_⟩, ?_⟩
    · rw [hparse, hback, Option.map_some]
    · rw [hhost, Option.bind_some, hback]

/-- A request for a name, on a port of its own. -/
theorem rewritten_reads_back_iff_named :
    ∃ rebuilt, rewritten (intoBytes "GET http://example.com:8080/a HTTP/1.1\r\n\r\n".toList)
        ⟨"example.com"⟩ 8080 = some rebuilt ∧
      (∃ body', parseHead rebuilt = some ⟨.absolute, ⟨"example.com"⟩, 8080, body'⟩) ∧
      (hostOf rebuilt).bind (fun field => splitAuthority field (some defaultPort)) =
        some (⟨"example.com"⟩, 8080) := by
  apply (rewritten_reads_back_iff _ ⟨"example.com"⟩ 8080 (.sized 0) (by decide +kernel)).mpr
  refine ⟨?_, by decide⟩
  intro c hmem
  obtain rfl : 'e' = c := by simpa using hmem
  decide

/-- A request for a bracketed IPv6 literal on the default port, which the origin is
told without its brackets. -/
theorem rewritten_not_read_back :
    ¬∀ (head : List UInt8) (host : Host) (port : Port) (body : Body),
      parseHead head = some ⟨.absolute, host, port, body⟩ →
      ∃ rebuilt, rewritten head host port = some rebuilt ∧
        (∃ body', parseHead rebuilt = some ⟨.absolute, host, port, body'⟩) ∧
        (hostOf rebuilt).bind (fun field => splitAuthority field (some defaultPort)) =
          some (host, port) := by
  intro hback
  have hparse : parseHead (intoBytes "GET http://[::1]/ HTTP/1.1\r\n\r\n".toList) =
      some ⟨.absolute, ⟨"::1"⟩, 80, .sized 0⟩ := by decide +kernel
  obtain ⟨rebuilt, hrebuilt, _, hhost⟩ := hback _ _ _ _ hparse
  have hread : (rewritten (intoBytes "GET http://[::1]/ HTTP/1.1\r\n\r\n".toList) ⟨"::1"⟩ 80).bind
      (fun rebuilt => (hostOf rebuilt).bind fun field => splitAuthority field (some defaultPort)) =
        some (⟨":"⟩, 1) := by decide +kernel
  rw [hrebuilt, Option.bind_some, hhost] at hread
  revert hread
  decide

end Nhop.Proxy.Http
