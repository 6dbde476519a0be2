import Nhop.Proxy.Http.Framing
import Nhop.Proxy.Http.Rebuilt

/-!
Where the target of a request is split.

An absolute target is a scheme, an authority, and what is asked of it. The
authority ends where a path or a query begins. `absoluteAuthority` and
`originForm` look for a path only: of a target whose query follows its authority
the query is taken for a part of the host, and what is asked of the origin is
another thing.
-/

namespace Nhop.Proxy.Http

open Foundation Ipc

/-! ### Targets -/

/-- A host as it stands in a target. -/
inductive HostText
  /-- A name, or an IPv4 literal. -/
  | plain (name : Text)
  /-- An IPv6 literal. -/
  | bracketed (address : Text)
  deriving DecidableEq, Repr

namespace HostText

def name : HostText → Text
  | plain name => name
  | bracketed address => address

def written : HostText → Text
  | plain name => name
  | bracketed address => '[' :: address ++ [']']

/-- What delimits the parts of a target. -/
def delimiters : HostText → Text
  | plain _ => ['/', '?', '#', '@', ':', '[', ']']
  | bracketed _ => ['/', '?', '#', '@', '[', ']']

def WellFormed (host : HostText) : Prop :=
  host.name ≠ [] ∧ ∀ c ∈ host.name, c ∉ host.delimiters

end HostText

/-- The port that digits name. -/
def PortText (digits : Text) (port : Port) : Prop := decimal digits = some port.toNat

/-- An authority: a host, and a port unless it is the default one. -/
structure Authority where
  host : HostText
  digits : Option Text
  port : Port
  wellFormed : host.WellFormed
  names : match digits with
    | none => port = defaultPort
    | some digits => PortText digits port

def Authority.written (authority : Authority) : Text :=
  authority.host.written ++ (authority.digits.map (':' :: ·)).getD []

def Authority.destination (authority : Authority) : Host := ⟨String.ofList authority.host.name⟩

/-- An absolute target: what is behind the authority is nothing, a path or a query. -/
structure AbsoluteTarget where
  authority : Authority
  behind : Text
  begins : ∀ c ∈ behind.head?, c = '/' ∨ c = '?'

def AbsoluteTarget.written (target : AbsoluteTarget) : Text :=
  http ++ target.authority.written ++ target.behind

/-- What an origin is asked for: a path, in front of a query the root. -/
def asked (behind : Text) : Text := if behind.head? = some '/' then behind else '/' :: behind

/-- The head opens a request for this target, which is not a tunnel. -/
structure Opens (head : List UInt8) (method target version headers : Text) : Prop where
  text : fromUtf8 head =
    some (method ++ ' ' :: (target ++ ' ' :: version) ++ crlf ++ headers)
  oneLine : OneLine (method ++ ' ' :: (target ++ ' ' :: version))
  pieces : ' ' ∉ method ∧ ' ' ∉ target ∧ ' ' ∉ version
  notConnect : method ≠ "CONNECT".toList
  version : "HTTP/".toList <+: version

/-- The request line of a head. -/
def lineOf (head : List UInt8) : Option Text :=
  (fromUtf8 head).bind fun text => (splitOnce crlf text).map Prod.fst

/-! ### The authority -/

section authority

variable {authority : Authority} {behind text : Text}

theorem stripHead_append (head text : Text) : stripHead head (head ++ text) = some text := by
  unfold stripHead
  rw [if_pos (List.isPrefixOf_iff_prefix.mpr (List.prefix_append _ _)), List.drop_left]

theorem isDigit_of_portText {digits : Text} {port : Port} (h : PortText digits port) :
    ∀ c ∈ digits, c.isDigit = true := by
  unfold PortText decimal at h
  split_ifs at h with hdigits
  exact List.all_eq_true.mp hdigits.2

theorem parseU16_of_portText {digits : Text} {port : Port} (h : PortText digits port) :
    parseU16 digits = some port := by
  rw [parseU16, parseUnsigned_of_decimal h, if_pos (UInt16.toNat_lt port)]
  simp

theorem Authority.slash_notMem (authority : Authority) : '/' ∉ authority.written := by
  obtain ⟨host, digits, port, ⟨_, hname⟩, hport⟩ := authority
  have hdelimiter : '/' ∈ host.delimiters := by cases host <;> simp [HostText.delimiters]
  have hhost : '/' ∉ host.written := by
    have hfree : '/' ∉ host.name := fun hmem => hname '/' hmem hdelimiter
    cases host with
    | plain name => exact hfree
    | bracketed address =>
        have hfree : '/' ∉ address := hfree
        simp [HostText.written, hfree]
  cases digits with
  | none => simpa [Authority.written] using hhost
  | some digits =>
      have hdigits : '/' ∉ digits := by
        intro hmem
        cases isDigit_of_portText hport '/' hmem
      simp [Authority.written, hhost, hdigits]

/-- **An authority is read as what it names.** -/
theorem splitAuthority_written (authority : Authority) :
    splitAuthority authority.written (some defaultPort) =
      some (authority.destination, authority.port) := by
  obtain ⟨host, digits, port, ⟨hsome, hname⟩, hport⟩ := authority
  have hnamed : named host.name port = some (⟨String.ofList host.name⟩, port) := if_neg hsome
  cases host with
  | plain name =>
      have hsome : name ≠ [] := hsome
      have hhead : stripHead ['['] (name ++ (digits.map (':' :: ·)).getD []) = none := by
        rw [stripHead_singleton_eq_none, List.head?_append_of_ne_nil _ hsome]
        rintro c hmem rfl
        exact hname '[' (List.mem_of_mem_head? hmem) (by simp [HostText.delimiters])
      have hcolon : ':' ∉ name := fun hmem => hname ':' hmem (by simp [HostText.delimiters])
      show splitAuthority (name ++ (digits.map (':' :: ·)).getD []) _ = _
      unfold splitAuthority
      rw [hhead]
      cases digits with
      | none =>
          obtain rfl : port = defaultPort := hport
          simp only [Option.map_none, Option.getD_none, List.append_nil,
            splitOnceLast_eq_none.mpr hcolon, Option.bind_some]
          exact hnamed
      | some digits =>
          have hdigits : ':' ∉ digits := by
            intro hmem
            cases isDigit_of_portText hport ':' hmem
          simp only [Option.map_some, Option.getD_some, splitOnceLast_append hdigits,
            parseU16_of_portText hport, Option.bind_some]
          exact hnamed
  | bracketed address =>
      have hclose : ']' ∉ address := fun hmem => hname ']' hmem (by simp [HostText.delimiters])
      have hstrip : stripHead ['['] ('[' :: address ++ [']'] ++ (digits.map (':' :: ·)).getD []) =
          some (address ++ ']' :: (digits.map (':' :: ·)).getD []) := by
        have hcut : '[' :: address ++ [']'] ++ (digits.map (':' :: ·)).getD [] =
            ['['] ++ (address ++ ']' :: (digits.map (':' :: ·)).getD []) := by simp
        rw [hcut, stripHead_append]
      show splitAuthority ('[' :: address ++ [']'] ++ (digits.map (':' :: ·)).getD []) _ = _
      unfold splitAuthority
      rw [hstrip]
      simp only [splitOnce_singleton hclose, Option.bind_eq_bind, Option.bind_some]
      cases digits with
      | none =>
          obtain rfl : port = defaultPort := hport
          exact hnamed
      | some digits =>
          show (parseU16 digits).bind (named address) = _
          rw [parseU16_of_portText hport, Option.bind_some]
          exact hnamed

end authority

/-! ### The target -/

section target

variable {head : List UInt8} {method version headers : Text} {target : AbsoluteTarget}

theorem absoluteAuthority_written (h : target.behind.head? ≠ some '?') :
    absoluteAuthority target.written = some target.authority.written := by
  have hslash := target.authority.slash_notMem
  have hstrip : stripHead http target.written =
      some (target.authority.written ++ target.behind) := by
    rw [AbsoluteTarget.written, List.append_assoc, stripHead_append]
  rw [absoluteAuthority, hstrip, Option.map_some]
  cases hbehind : target.behind with
  | nil => rw [List.append_nil, splitOnce_singleton_eq_none.mpr hslash]
  | cons c path =>
      rcases target.begins c (by rw [hbehind]; rfl) with rfl | rfl
      · rw [splitOnce_singleton hslash]
      · exact absurd (by rw [hbehind]; rfl) h

/-- **The origin is asked for what stands behind the authority** exactly when that is
not a query. -/
theorem originForm_written_iff :
    originForm target.written = asked target.behind ↔ target.behind.head? ≠ some '?' := by
  have hslash := target.authority.slash_notMem
  have hstrip : stripHead http target.written =
      some (target.authority.written ++ target.behind) := by
    rw [AbsoluteTarget.written, List.append_assoc, stripHead_append]
  simp only [originForm, hstrip]
  cases hbehind : target.behind with
  | nil =>
      rw [List.append_nil, splitOnce_singleton_eq_none.mpr hslash]
      exact iff_of_true rfl (by simp)
  | cons c path =>
      rcases target.begins c (by rw [hbehind]; rfl) with rfl | rfl
      · rw [splitOnce_singleton hslash]
        exact iff_of_true rfl (by simp)
      · refine iff_of_false ?_ (by simp)
        intro hasked
        have hasked : _ = '/' :: '?' :: path := hasked
        cases hsplit : splitOnce ['/'] (target.authority.written ++ '?' :: path) with
        | none =>
            rw [hsplit] at hasked
            cases hasked
        | some split =>
            rw [hsplit] at hasked
            obtain ⟨_, hpath⟩ := List.cons.inj hasked
            have hcut := append_of_splitOnce hsplit
            rw [hpath] at hcut
            -- the path that was found is all of the query, so that a slash stands before it
            have hauthority := List.append_cancel_right hcut
            exact hslash (by rw [hauthority]; simp)

theorem Opens.reads (hopens : Opens head method target.written version headers)
    (h : target.behind.head? ≠ some '?') :
    Reads head target.authority.destination target.authority.port
      (method ++ ' ' :: (target.written ++ ' ' :: version)) headers method target.written version
      target.authority.written where
  text := hopens.text
  split := splitOnce_pair (by decide) hopens.oneLine
  fields := by
    obtain ⟨hmethod, htarget, hversion⟩ := hopens.pieces
    rw [pieces_append_of_notMem hmethod, pieces_append_of_notMem htarget,
      pieces_of_notMem hversion]
  notConnect := hopens.notConnect
  source := Or.inl (absoluteAuthority_written h)
  destination := splitAuthority_written target.authority

theorem Opens.parseHead_eq (hopens : Opens head method target.written version headers)
    (h : target.behind.head? ≠ some '?') :
    parseHead head = some ⟨.absolute, target.authority.destination, target.authority.port,
      bodyOf headers⟩ := by
  have hreads := hopens.reads h
  have hversion : (!"HTTP/".toList.isPrefixOf version) = false := by
    rw [List.isPrefixOf_iff_prefix.mpr hopens.version]
    rfl
  simp only [parseHead, hreads.text, hreads.split, hreads.fields, Option.bind_eq_bind,
    Option.bind_some]
  rw [if_neg (by rw [hversion]; exact Bool.false_ne_true), if_neg hopens.notConnect,
    absoluteAuthority_written h, Option.some_or, Option.bind_some,
    splitAuthority_written target.authority]
  rfl

theorem lineOf_intoBytes {line : Text} (h : OneLine line) :
    lineOf (intoBytes (line ++ crlf ++ headers)) = some line := by
  have hsplit : splitOnce crlf (line ++ crlf ++ headers) = some (line, headers) :=
    splitOnce_pair (by decide) h
  rw [lineOf, fromUtf8_intoBytes, Option.bind_some, hsplit, Option.map_some]

/-- The line a rebuilt head begins with. -/
theorem Opens.lineOf_rewritten {host : Host} {port : Port} {body : Body} {rebuilt : List UInt8}
    (hopens : Opens head method target.written version headers)
    (hparse : parseHead head = some ⟨.absolute, host, port, body⟩)
    (hrewritten : rewritten head host port = some rebuilt) :
    lineOf rebuilt = some (requestLine method target.written) := by
  obtain ⟨line, headers', method', target', version', authority, hreads⟩ :=
    reads_of_parseHead hparse
  obtain ⟨hmethod, htarget, hversion⟩ := hopens.pieces
  have htext := Option.some.inj (hopens.text.symm.trans hreads.text)
  have hsplit : splitOnce crlf (method ++ ' ' :: (target.written ++ ' ' :: version) ++ crlf ++
      headers) = some (method ++ ' ' :: (target.written ++ ' ' :: version), headers) :=
    splitOnce_pair (by decide) hopens.oneLine
  rw [htext, hreads.split] at hsplit
  obtain ⟨rfl, rfl⟩ := Prod.mk.inj (Option.some.inj hsplit)
  have hfields := hreads.fields
  rw [pieces_append_of_notMem hmethod, pieces_append_of_notMem htarget,
    pieces_of_notMem hversion] at hfields
  obtain ⟨hsame, hrest⟩ := List.cons.inj hfields
  obtain ⟨htarget', _⟩ := List.cons.inj hrest
  subst hsame htarget'
  have hline := hreads.oneLine_requestLine
  rw [hreads.rewritten_eq] at hrewritten
  obtain rfl := Option.some.inj hrewritten
  exact lineOf_intoBytes hline

/-- **An absolute target is split where its parts end**, and the origin asked for what
stands behind the authority, exactly when that is not a query. -/
theorem absoluteTarget_split_iff (target : AbsoluteTarget)
    (hopens : Opens head method target.written version headers) :
    (∃ rebuilt,
      parseHead head = some ⟨.absolute, target.authority.destination, target.authority.port,
        bodyOf headers⟩ ∧
      rewritten head target.authority.destination target.authority.port = some rebuilt ∧
      lineOf rebuilt =
        some (method ++ ' ' :: (asked target.behind ++ ' ' :: "HTTP/1.1".toList))) ↔
      target.behind.head? ≠ some '?' := by
  constructor
  · rintro ⟨rebuilt, hparse, hrewritten, hline⟩
    rw [hopens.lineOf_rewritten hparse hrewritten, requestLine_eq] at hline
    have hbehind := List.append_cancel_left (Option.some.inj hline)
    exact originForm_written_iff.mp (List.append_cancel_right (List.cons.inj hbehind).2)
  · intro h
    have hparse := hopens.parseHead_eq h
    refine ⟨_, hparse, (hopens.reads h).rewritten_eq, ?_⟩
    rw [hopens.lineOf_rewritten hparse (hopens.reads h).rewritten_eq, requestLine_eq,
      originForm_written_iff.mpr h]

end target

/-! ### A path and a query -/

theorem wellFormed_a : (HostText.plain ['a']).WellFormed := by
  simp [HostText.WellFormed, HostText.name, HostText.delimiters]

/-- A target at the host `a`. -/
def targetAtA (behind : Text) (h : ∀ c ∈ behind.head?, c = '/' ∨ c = '?') : AbsoluteTarget :=
  ⟨⟨.plain ['a'], none, defaultPort, wellFormed_a, rfl⟩, behind, h⟩

/-- A target whose path is `/b`. -/
def pathAtA : AbsoluteTarget := targetAtA ['/', 'b'] (by simp)

/-- A target with a query and no path. -/
def queryAtA : AbsoluteTarget := targetAtA ['?', 'b'] (by simp)

def getOf (target : AbsoluteTarget) : List UInt8 :=
  intoBytes ("GET".toList ++ ' ' :: (target.written ++ ' ' :: "HTTP/1.1".toList) ++ crlf ++ crlf)

theorem opens_getOf {target : AbsoluteTarget} (hline : OneLine target.written)
    (hblank : ' ' ∉ target.written) :
    Opens (getOf target) "GET".toList target.written "HTTP/1.1".toList crlf where
  text := fromUtf8_intoBytes _
  oneLine := by
    have hversion : OneLine "HTTP/1.1".toList := oneLine_of_notMem (by decide)
    have hmethod : OneLine "GET".toList := oneLine_of_notMem (by decide)
    exact hmethod.append (hline.append hversion (by decide) (by decide)) (by decide) (by decide)
  pieces := ⟨by decide, hblank, by decide⟩
  notConnect := by decide
  version := by decide

theorem absoluteTarget_split_pathAtA :
    ∃ rebuilt, parseHead (getOf pathAtA) = some ⟨.absolute, ⟨"a"⟩, 80, .sized 0⟩ ∧
      rewritten (getOf pathAtA) ⟨"a"⟩ 80 = some rebuilt ∧
      lineOf rebuilt = some "GET /b HTTP/1.1".toList := by
  have hopens : Opens (getOf pathAtA) "GET".toList pathAtA.written "HTTP/1.1".toList crlf :=
    opens_getOf (oneLine_of_notMem (by decide +kernel)) (by decide +kernel)
  exact (absoluteTarget_split_iff pathAtA hopens).mpr (by decide)

/-- The query is read as a part of the host. -/
theorem query_not_split :
    ¬∀ (head : List UInt8) (method version headers : Text) (target : AbsoluteTarget),
      Opens head method target.written version headers →
      ∃ rebuilt,
        parseHead head = some ⟨.absolute, target.authority.destination, target.authority.port,
          bodyOf headers⟩ ∧
        rewritten head target.authority.destination target.authority.port = some rebuilt ∧
        lineOf rebuilt =
          some (method ++ ' ' :: (asked target.behind ++ ' ' :: "HTTP/1.1".toList)) := by
  intro hall
  have hopens : Opens (getOf queryAtA) "GET".toList queryAtA.written "HTTP/1.1".toList crlf :=
    opens_getOf (oneLine_of_notMem (by decide +kernel)) (by decide +kernel)
  obtain ⟨_, hparse, _⟩ := hall _ _ _ _ queryAtA hopens
  have hread : parseHead (getOf queryAtA) = some ⟨.absolute, ⟨"a?b"⟩, 80, .sized 0⟩ := by
    decide +kernel
  rw [hread] at hparse
  have hhost : "a?b" = "a" := congrArg Host.name (Request.mk.inj (Option.some.inj hparse)).2.1
  revert hhost
  decide

end Nhop.Proxy.Http
