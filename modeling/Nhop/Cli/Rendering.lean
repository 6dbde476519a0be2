import Nhop.Cli.Logging
import Nhop.Proxy.Decoding
import Nhop.Proxy.Http.Rewriting

/-!
What an operator is shown of the decisions: the lines of `nhop tail` and `nhop logs`.

A decision is written as one line, and what a client named stands in it as the
client wrote it. So it is one line exactly when the destination, the upstream and
the failure have no line break of their own (`rendered_iff`). Neither front end asks
that of a destination: a SOCKS5 client can name any text of up to 255 bytes
(`named_iff_socks5`), and an HTTP client any text without the break that ends a line
of its head (`named_iff_http`), so that a bare line feed is let through by both.
-/

namespace Nhop.Cli.Logging

open Foundation Ipc Proxy Upstream

/-- How instants are shown. -/
class Clock where
  /-- An instant in RFC 3339, to the second. -/
  seconds : ℤ → String
  oneLine : ∀ stamp, '\n' ∉ (seconds stamp).toList

/-! ### Rendering -/

/-- The suffix of a connection that asked for the upstream and went direct. -/
def fallenBack : Option EffectiveHop → String
  | none => ""
  | some .direct => ""
  | some .upstream => ""
  | some .fallbackDirect => " -> direct"

def ruleName (ruleIndex : Option ℕ) (ruleClass : Option RuleClass) : String :=
  match ruleIndex, ruleClass with
  | some ruleIndex, some ruleClass =>
      "rule " ++ toString ruleIndex ++ " (" ++ className ruleClass ++ ")"
  | _, _ => "no rule"

/-- How long the dial took, if there was one. -/
def dialledIn : Option ℕ → String
  | some connectMs => " (dial " ++ toString connectMs ++ "ms)"
  | none => ""

/-- The upstream that carried the connection, if one did. -/
def carriedBy : Option UpstreamAddr → String
  | some via => " @ " ++ via.text
  | none => ""

def failedWith : Option String → String
  | some error => error
  | none => "-"

/-- The line of a decision. -/
def renderEvent (event : EventView) : String :=
  event.host.name ++ ":" ++ toString event.port.toNat ++ "  " ++ decisionName event.decision ++
    " via " ++ ruleName event.ruleIndex event.ruleClass ++ carriedBy event.via ++
    fallenBack event.hop ++ "  upstream " ++ healthName event.upstream ++ "  " ++
    toString event.durationMs ++ "ms" ++ dialledIn event.connectMs ++ "  " ++
    failedWith event.error ++ "\n"

def switchedName : Option UpstreamAddr → String
  | some upstream => upstream.text
  | none => "none"

/-- The line of a log line. -/
def renderLog [Formatter] [Clock] (line : List Char) : String :=
  match logged line with
  | none => String.ofList line ++ "\n"
  | some (.decision stamp event) => Clock.seconds stamp ++ "  " ++ renderEvent event
  | some (.verdict stamp upstream left reached cause) =>
      let judged :=
        match upstream with
        | some upstream => upstream.text ++ " "
        | none => ""
      Clock.seconds stamp ++ "  verdict " ++ judged ++ healthName left ++ " -> " ++
        healthName reached ++ "  (" ++ causeName cause ++ ")\n"
  | some (.switch stamp left reached cause) =>
      Clock.seconds stamp ++ "  switch " ++ switchedName left ++ " -> " ++ switchedName reached ++
        "  (" ++ switchCauseName cause ++ ")\n"

/-! ### One line -/

/-- A text whose only line break is at its end. -/
def OneLine (text : String) : Prop :=
  text.toList.getLast? = some '\n' ∧ '\n' ∉ text.toList.dropLast

instance (text : String) : Decidable (OneLine text) := inferInstanceAs (Decidable (_ ∧ _))

def Unbroken (text : String) : Prop := '\n' ∉ text.toList

/-- What an event shows of the outside has no line break. -/
structure Plain (event : EventView) : Prop where
  host : Unbroken event.host.name
  via : ∀ via, event.via = some via → Unbroken via.text
  error : ∀ error, event.error = some error → Unbroken error

section oneLine

variable {text more : String} {event : EventView}

theorem oneLine_append : OneLine (text ++ "\n") ↔ Unbroken text := by
  simp [OneLine, Unbroken]

theorem unbroken_append : Unbroken (text ++ more) ↔ Unbroken text ∧ Unbroken more := by
  simp [Unbroken]

theorem OneLine.behind (h : OneLine more) (htext : Unbroken text) : OneLine (text ++ more) := by
  obtain ⟨hlast, hbefore⟩ := h
  have hsome : more.toList ≠ [] := by
    intro hnil
    rw [hnil] at hlast
    cases hlast
  refine ⟨?_, ?_⟩
  · rw [String.toList_append, List.getLast?_append, hlast]
    rfl
  · rw [String.toList_append, List.dropLast_append_of_ne_nil hsome, List.mem_append, not_or]
    exact ⟨htext, hbefore⟩

theorem unbroken_toString (n : ℕ) : Unbroken (toString n) := by
  intro hmem
  have hdigit := isDigit_of_mem_toString hmem
  revert hdigit
  decide

theorem unbroken_decisionName (decision : DecisionKind) : Unbroken (decisionName decision) := by
  cases decision <;> simp [Unbroken, decisionName]

theorem unbroken_healthName (state : HealthState) : Unbroken (healthName state) := by
  cases state <;> simp [Unbroken, healthName]

theorem unbroken_fallenBack (hop : Option EffectiveHop) : Unbroken (fallenBack hop) := by
  rcases hop with _ | hop
  · simp [Unbroken, fallenBack]
  · cases hop <;> simp [Unbroken, fallenBack]

theorem unbroken_ruleName (ruleIndex : Option ℕ) (ruleClass : Option RuleClass) :
    Unbroken (ruleName ruleIndex ruleClass) := by
  have hnone : Unbroken "no rule" := by simp [Unbroken]
  rcases ruleIndex with _ | ruleIndex
  · exact hnone
  · rcases ruleClass with _ | ruleClass
    · exact hnone
    · have hclass : Unbroken (className ruleClass) := by
        cases ruleClass <;> simp [Unbroken, className]
      simp only [ruleName, unbroken_append]
      exact ⟨⟨⟨⟨by simp [Unbroken], unbroken_toString _⟩, by simp [Unbroken]⟩, hclass⟩,
        by simp [Unbroken]⟩

theorem unbroken_dialledIn (connectMs : Option ℕ) : Unbroken (dialledIn connectMs) := by
  cases connectMs with
  | none => simp [Unbroken, dialledIn]
  | some connectMs =>
      rw [dialledIn, unbroken_append, unbroken_append]
      exact ⟨⟨by simp [Unbroken], unbroken_toString _⟩, by simp [Unbroken]⟩

theorem unbroken_carriedBy_iff (via : Option UpstreamAddr) :
    Unbroken (carriedBy via) ↔ ∀ upstream, via = some upstream → Unbroken upstream.text := by
  cases via with
  | none => simp [Unbroken, carriedBy]
  | some upstream => simp [carriedBy, Unbroken]

theorem unbroken_failedWith_iff (error : Option String) :
    Unbroken (failedWith error) ↔ ∀ text, error = some text → Unbroken text := by
  cases error with
  | none => simp [Unbroken, failedWith]
  | some text => simp [failedWith]

theorem unbroken_literals : Unbroken ":" ∧ Unbroken "  " ∧ Unbroken " via " ∧
    Unbroken "  upstream " ∧ Unbroken "ms" := by
  simp [Unbroken]

/-- A decision is one line when what it shows of the outside is. -/
theorem oneLine_renderEvent_iff : OneLine (renderEvent event) ↔ Plain event := by
  have hrule := unbroken_ruleName event.ruleIndex event.ruleClass
  have hhop := unbroken_fallenBack event.hop
  have hdecision := unbroken_decisionName event.decision
  have hhealth := unbroken_healthName event.upstream
  have hport := unbroken_toString event.port.toNat
  have hduration := unbroken_toString event.durationMs
  have hdial := unbroken_dialledIn event.connectMs
  obtain ⟨hcolon, hgap, hvia, hupstream, hms⟩ := unbroken_literals
  unfold renderEvent
  simp only [oneLine_append, unbroken_append, hrule, hhop, hdecision, hhealth, hport,
    hduration, hdial, hcolon, hgap, hvia, hupstream, hms, and_true, unbroken_carriedBy_iff,
    unbroken_failedWith_iff]
  constructor
  · rintro ⟨⟨hhost, hcarried⟩, hfailed⟩
    exact ⟨hhost, hcarried, hfailed⟩
  · rintro ⟨hhost, hcarried, hfailed⟩
    exact ⟨⟨hhost, hcarried⟩, hfailed⟩

end oneLine

/-! ### Tail and logs -/

section rendered

variable [Formatter] [Clock]

/-- **One decision, one line.** An event is shown as one line, by `nhop tail` and out
of its line in the log by `nhop logs`, exactly when the destination, the upstream and
the failure it names have no line break. -/
theorem rendered_iff (stamp : ℤ) (event : EventView) (hfits : Fits event) :
    (OneLine (renderEvent event) ∧
      OneLine (renderLog (Formatter.line stamp (present (decision event))))) ↔ Plain event := by
  obtain ⟨instant, hlogged⟩ := logged_decision stamp hfits
  have hseconds : Unbroken (Clock.seconds instant ++ "  ") :=
    unbroken_append.mpr ⟨Clock.oneLine instant, unbroken_literals.2.1⟩
  have hlog : renderLog (Formatter.line stamp (present (decision event))) =
      Clock.seconds instant ++ "  " ++ renderEvent event := by
    rw [renderLog, hlogged]
  rw [hlog, ← oneLine_renderEvent_iff]
  constructor
  · rintro ⟨hevent, _⟩
    exact hevent
  · intro hevent
    exact ⟨hevent, hevent.behind hseconds⟩

end rendered

/-- The numbers of an event that a connection leaves have these widths. -/
theorem fits_ended [SocksText] (routed : Routed) (failure : Option Failure) (lasted : ℕ) :
    Fits (routed.ended failure lasted) where
  ruleIndex := by
    intro index hindex
    obtain ⟨rule, _, rfl⟩ := Option.map_eq_some_iff.mp hindex
    omega
  connectMs := by
    intro length hlength
    obtain ⟨took, _, rfl⟩ := Option.map_eq_some_iff.mp hlength
    unfold millis
    omega
  durationMs := by
    show millis lasted < 2 ^ 64
    unfold millis
    omega

/-! ### What a client can name -/

section named

variable {text : String} {head : List UInt8} {request : Http.Request}

/-- The `Host` line with a text in brackets. -/
def hostLineOf (text : String) : Http.Text :=
  "Host".toList ++ ':' :: ' ' :: '[' :: text.toList ++ [']']

/-- The head of a request that has that line alone. -/
def headNaming (text : String) : List UInt8 :=
  Http.intoBytes ("GET / HTTP/1.1".toList ++ Http.crlf ++
    (hostLineOf text ++ Http.crlf ++ Http.crlf))

/-- A host read off a head is part of one line of it. -/
theorem host_of_parseHead (h : Http.parseHead head = some request) :
    request.host.name.toList ≠ [] ∧ Http.OneLine request.host.name.toList := by
  unfold Http.parseHead at h
  obtain ⟨written, _, hsplits⟩ := Option.bind_eq_some_iff.mp h
  obtain ⟨⟨line, headers⟩, hsplit, hfields⟩ := Option.bind_eq_some_iff.mp hsplits
  have hline : Http.OneLine line := notInfix_of_splitOnce (by simp [Http.crlf]) hsplit
  clear h hsplits
  simp only at hfields
  split at hfields
  · next method target version hpieces =>
      have htarget : Http.OneLine target := by
        have hmem : target ∈ pieces [' '] line := by simp [hpieces]
        exact hline.within (infix_of_mem_pieces hmem)
      split_ifs at hfields with hversion hmethod
      · obtain ⟨⟨host, port⟩, hdestination, hmade⟩ := Option.bind_eq_some_iff.mp hfields
        cases hmade
        exact ⟨(Http.splitAuthority_eq_some hdestination).1,
          htarget.within (Http.infix_of_splitAuthority hdestination)⟩
      · obtain ⟨authority, hauthority, hnamed⟩ := Option.bind_eq_some_iff.mp hfields
        obtain ⟨⟨host, port⟩, hdestination, hmade⟩ := Option.bind_eq_some_iff.mp hnamed
        cases hmade
        have hone : Http.OneLine authority := by
          rcases Option.or_eq_some_iff.mp hauthority with habsolute | ⟨_, hheader⟩
          · exact htarget.within (Http.infix_of_absoluteAuthority habsolute)
          · exact Http.oneLine_of_header hheader
        exact ⟨(Http.splitAuthority_eq_some hdestination).1,
          hone.within (Http.infix_of_splitAuthority hdestination)⟩
  · cases hfields

theorem splitAuthority_bracketed (hsome : text.toList ≠ []) (hclosed : ']' ∉ text.toList) :
    Http.splitAuthority ('[' :: text.toList ++ [']']) (some Http.defaultPort) =
      some (⟨text⟩, Http.defaultPort) := by
  have hstrip : Http.stripHead ['['] ('[' :: text.toList ++ [']']) =
      some (text.toList ++ [']']) := by
    simp [Http.stripHead]
  have hnamed : Http.named text.toList Http.defaultPort = some (⟨text⟩, Http.defaultPort) := by
    have hhost : (⟨text⟩ : Host).name.toList ≠ [] := hsome
    exact Http.named_toList hhost
  have hport : Http.stripHead [':'] [] = none := by decide
  unfold Http.splitAuthority
  rw [hstrip]
  simp only [splitOnce_singleton hclosed, Option.bind_eq_bind, Option.bind_some, hport, hnamed]

theorem oneLine_hostLineOf (h : Http.OneLine text.toList) : Http.OneLine (hostLineOf text) := by
  have hclosing : Http.OneLine (text.toList ++ [']']) :=
    h.append (Http.oneLine_of_notMem (by simp)) (by decide) (by decide)
  have hopening : Http.OneLine (" ".toList ++ '[' :: (text.toList ++ [']'])) :=
    (Http.oneLine_of_notMem (by decide)).append hclosing (by decide) (by decide)
  have hlabel : Http.OneLine
      ("Host".toList ++ ':' :: (" ".toList ++ '[' :: (text.toList ++ [']']))) :=
    (Http.oneLine_of_notMem (by decide)).append hopening (by decide) (by decide)
  simpa [hostLineOf] using hlabel

theorem pieces_hostLineOf (h : Http.OneLine text.toList) :
    pieces Http.crlf (hostLineOf text ++ Http.crlf ++ Http.crlf) = [hostLineOf text, [], []] := by
  have hsplit : splitOnce Http.crlf (hostLineOf text ++ Http.crlf ++ Http.crlf) =
      some (hostLineOf text, Http.crlf) := splitOnce_pair (by decide) (oneLine_hostLineOf h)
  have hempty : pieces Http.crlf Http.crlf = [[], []] := by decide
  rw [pieces_of_splitOnce (by simp [Http.crlf]) hsplit, hempty]

/-- What is read of that field, by its name. -/
theorem header_hostLineOf (h : Http.OneLine text.toList) (label : Http.Text) :
    Http.header (hostLineOf text ++ Http.crlf ++ Http.crlf) label =
      if "host".toList = Http.asciiLowercase label then some ('[' :: text.toList ++ [']'])
        else none := by
  have hbracketed : Http.trimmed ('[' :: text.toList ++ [']']) = '[' :: text.toList ++ [']'] := by
    refine Http.trimmed_eq_self ?_ ?_
    · intro c hmem
      cases hmem
      decide
    · intro c hmem
      rw [List.getLast?_concat] at hmem
      cases hmem
      decide
  have hlabel : Http.asciiLowercase (Http.trimmed "Host".toList) = "host".toList := by decide
  have hsplit : splitOnce [':'] (hostLineOf text) =
      some ("Host".toList, ' ' :: '[' :: text.toList ++ [']']) := by
    have hcolon : ':' ∉ "Host".toList := by decide
    rw [hostLineOf, List.append_assoc]
    exact splitOnce_singleton hcolon
  have hnone : splitOnce [':'] ([] : Http.Text) = none := by decide
  rw [Http.header, pieces_hostLineOf h]
  simp only [Http.headerIn, hsplit, hnone, hlabel]
  rw [List.cons_append, Http.trimmed_cons (by decide), hbracketed]

theorem parseHead_headNaming (hsome : text.toList ≠ []) (hline : Http.OneLine text.toList)
    (hclosed : ']' ∉ text.toList) :
    Http.parseHead (headNaming text) = some ⟨.absolute, ⟨text⟩, Http.defaultPort, .sized 0⟩ := by
  have hsplit : splitOnce Http.crlf ("GET / HTTP/1.1".toList ++ Http.crlf ++
      (hostLineOf text ++ Http.crlf ++ Http.crlf)) =
        some ("GET / HTTP/1.1".toList, hostLineOf text ++ Http.crlf ++ Http.crlf) :=
    splitOnce_pair (by decide) (Http.oneLine_of_notMem (by decide))
  have hpieces : pieces [' '] "GET / HTTP/1.1".toList =
      ["GET".toList, "/".toList, "HTTP/1.1".toList] := by decide
  have hbody : Http.bodyOf (hostLineOf text ++ Http.crlf ++ Http.crlf) = .sized 0 := by
    rw [Http.bodyOf, header_hostLineOf hline, header_hostLineOf hline]
    rfl
  have hhost : Http.header (hostLineOf text ++ Http.crlf ++ Http.crlf) "host".toList =
      some ('[' :: text.toList ++ [']']) := by
    rw [header_hostLineOf hline]
    exact if_pos (by decide)
  have hrelative : Http.absoluteAuthority "/".toList = none := by decide
  unfold Http.parseHead headNaming
  simp only [Http.fromUtf8_intoBytes, Option.bind_eq_bind, Option.bind_some, hsplit, hpieces]
  rw [if_neg (by decide), if_neg (by decide), hrelative, Option.none_or, hhost, Option.bind_some,
    splitAuthority_bracketed hsome hclosed, Option.bind_some, hbody]
  rfl

/-- **The destinations of HTTP.** A text without a closing bracket is one that some
request names exactly when it is not empty and has no line end of a head in it. -/
theorem named_iff_http (hclosed : ']' ∉ text.toList) :
    (∃ head request, Http.parseHead head = some request ∧ request.host = ⟨text⟩) ↔
      text.toList ≠ [] ∧ Http.OneLine text.toList := by
  constructor
  · rintro ⟨head, request, hread, hhost⟩
    have hnamed := host_of_parseHead hread
    rwa [hhost] at hnamed
  · rintro ⟨hsome, hline⟩
    exact ⟨headNaming text, _, parseHead_headNaming hsome hline hclosed, rfl⟩

/-- **The destinations of SOCKS5.** A text is one that some request names exactly when
it is a name of at most 255 bytes, whatever is in it, or an address as it is shown. -/
theorem named_iff_socks5 :
    (∃ bytes port, Socks5.Asking bytes (.connect ⟨text⟩ port)) ↔
      (∃ name : Socks5.Name, text = name.text) ∨ ∃ address : IpAddr, text = address.display := by
  constructor
  · rintro ⟨bytes, port, hasking⟩
    generalize hhost : (⟨text⟩ : Host) = host at hasking
    cases hasking with
    | connect reserved destination port =>
        cases destination with
        | ipv4 bits => exact Or.inr ⟨.v4 bits, congrArg Host.name hhost⟩
        | domain name => exact Or.inl ⟨name, congrArg Host.name hhost⟩
        | ipv6 bits => exact Or.inr ⟨.v6 bits, congrArg Host.name hhost⟩
  · rintro (⟨name, rfl⟩ | ⟨address, rfl⟩)
    · exact ⟨_, 0, .connect 0 (.domain name) 0⟩
    · cases address with
      | v4 bits => exact ⟨_, 0, .connect 0 (.ipv4 bits) 0⟩
      | v6 bits => exact ⟨_, 0, .connect 0 (.ipv6 bits) 0⟩

end named

/-- A clock that stands at the epoch. -/
@[reducible] def Clock.epoch : Clock where
  seconds _ := "1970-01-01T00:00:00Z"
  oneLine _ := by simp

theorem rendered_fellBack :
    OneLine (renderEvent fellBack) ∧
      OneLine (@renderLog Formatter.json Clock.epoch
        (@Formatter.line Formatter.json 0 (present (decision fellBack)))) := by
  have hfits : Fits fellBack := ⟨by decide, by decide, by decide⟩
  refine (@rendered_iff Formatter.json Clock.epoch 0 fellBack hfits).mpr ⟨?_, ?_, ?_⟩
  · simp [Unbroken, fellBack]
  · simp [fellBack]
  · simp [Unbroken, fellBack]

/-- A SOCKS5 client that names the destination `"a\nb"`. -/
def forging : List UInt8 := [5, 1, 0, 5, 1, 0, 3, 3, 0x61, 0x0a, 0x62, 0, 80]

/-- The event it leaves. -/
def forged : EventView where
  host := ⟨"a\nb"⟩
  port := 80
  decision := .direct
  ruleIndex := none
  ruleClass := none
  upstream := .down
  connectMs := some 0
  hop := some .direct
  via := none
  durationMs := 0
  error := none

/-- The event of that client is shown as two lines. -/
theorem rendered_forged :
    .published forged ∈ (@Socks5.serve .ascii .silent ⟨Rules.Ruleset.empty⟩
      (upstreamHop openNetwork 0 .unconfigured .unconfigured)
      (.smooth (.v4 0x7f000001#32 7891)) (.accepted forging)).2.trace ∧
    ¬OneLine (renderEvent forged) := by
  refine ⟨by decide +kernel, ?_⟩
  rw [oneLine_renderEvent_iff]
  intro hplain
  have hhost := hplain.host
  revert hhost
  simp [Unbroken, forged]

end Nhop.Cli.Logging
