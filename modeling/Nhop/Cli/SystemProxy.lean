import Nhop.Foundation.Display
import Nhop.Foundation.Utf8
import Nhop.Proxy.Listed

/-!
`nhop proxy on`, and the check of `nhop doctor` that reads back what it wrote.

macOS keeps three proxy settings for each network service and is talked to through
`networksetup`, which is open here: what is asked of it is that for the service it
reports the host and the port it was given last (`Keeps`). The report of a setting is read line by
line, and the check compares the address it names with the one a front end
listens on, both as they are displayed. These displays agree for IPv4 only, since
a socket address puts an IPv6 one in brackets and the setting does not
(`systemProxy_passed_iff`).
-/

namespace Nhop.Cli.Settings

open Foundation Proxy

/-- A network service the settings belong to. -/
structure NetworkService where
  name : String
  deriving DecidableEq, Repr

/-- Hosts and networks macOS reaches without going through the router. -/
def bypass : List String := ["localhost", "127.0.0.1", "*.local", "169.254/16"]

/-- One of the three settings of a network service. -/
inductive ProxyKind
  | http | https | socks
  deriving DecidableEq, Repr

namespace ProxyKind

/-- The flag that reports the setting. -/
def readFlag : ProxyKind → String
  | .http => "-getwebproxy"
  | .https => "-getsecurewebproxy"
  | .socks => "-getsocksfirewallproxy"

/-- The flag that points the setting at an address and turns it on. -/
def writeFlag : ProxyKind → String
  | .http => "-setwebproxy"
  | .https => "-setsecurewebproxy"
  | .socks => "-setsocksfirewallproxy"

/-- The flag that turns the setting on or off without moving it. -/
def stateFlag : ProxyKind → String
  | .http => "-setwebproxystate"
  | .https => "-setsecurewebproxystate"
  | .socks => "-setsocksfirewallproxystate"

end ProxyKind

/-! ### Writing the settings -/

/-- One call of `networksetup`. -/
structure Invocation where
  flag : String
  /-- The network service first. -/
  arguments : List String
  deriving DecidableEq, Repr

def Invocation.argv (invocation : Invocation) : List String :=
  invocation.flag :: invocation.arguments

def invocation (flag : String) (service : NetworkService) (rest : List String) : Invocation :=
  ⟨flag, service.name :: rest⟩

def bypassFlag : String := "-setproxybypassdomains"

/-- The calls that point a service at the front ends and set the bypass list. -/
def enabling (listen : Listen) (service : NetworkService) : List Invocation :=
  ([(.http, listen.http), (.https, listen.http), (.socks, listen.socks)].map
    fun (kind, addr) =>
      invocation (ProxyKind.writeFlag kind) service
        [addr.ip.display, toString addr.port.toNat]) ++
  [invocation bypassFlag service bypass]

/-! ### Reading them back -/

/-- Address of one setting that is on. -/
structure ProxyEndpoint where
  host : String
  port : ℕ
  deriving DecidableEq, Repr

instance : ToString ProxyEndpoint :=
  ⟨fun endpoint => endpoint.host ++ ":" ++ toString endpoint.port⟩

/-- The settings of a service, each absent when it is off. -/
structure SystemProxy where
  http : Option ProxyEndpoint
  https : Option ProxyEndpoint
  socks : Option ProxyEndpoint
  deriving DecidableEq, Repr

/-- What a call of `networksetup` comes back with. -/
structure Output where
  success : Bool
  /-- The status it exited with. -/
  status : String
  stdout : List UInt8
  deriving DecidableEq, Repr

inductive ProxyFailure
  | notRun (failure : OsError)
  | refused (flag status : String)
  | unreadable (flag : String)
  deriving DecidableEq, Repr

instance : ToString ProxyFailure where
  toString
    | .notRun failure => "cannot run networksetup: " ++ toString failure
    | .refused flag status => "networksetup " ++ flag ++ " exited with " ++ status
    | .unreadable flag => "networksetup " ++ flag ++ " answered with something that is not utf-8"

/-- A line without the break that ends it. -/
def withoutBreak (line : List Char) : List Char :=
  if line.getLast? = some '\n' then
    if line.dropLast.getLast? = some '\r' then line.dropLast.dropLast else line.dropLast
  else line

def linesOf (text : List Char) : List (List Char) := (splitInclusive '\n' text).map withoutBreak

/-- What was read of a report. -/
structure Fields where
  enabled : Bool
  host : String
  port : ℕ
  deriving DecidableEq, Repr

def Fields.read (fields : Fields) (line : List Char) : Fields :=
  match splitOnce [':'] line with
  | none => fields
  | some (field, value) =>
      let field := trim (String.ofList field)
      let value := trim (String.ofList value)
      if field = "Enabled" then { fields with enabled := value == "Yes" }
      else if field = "Server" then { fields with host := value }
      else if field = "Port" then { fields with port := (parseUnsigned (2 ^ 16) value).getD 0 }
      else fields

/-- `networksetup`, by what it answers when it is called behind other calls. -/
abbrev Networksetup := List (List String) → List String → Except OsError Output

namespace SystemProxy

/-- Reads one report, absent when the setting is off or names no address that can be
dialled. -/
def parse (reported : List Char) : Option ProxyEndpoint :=
  let fields := (linesOf reported).foldl Fields.read ⟨false, "", 0⟩
  if !fields.enabled || fields.host = "" || fields.port = 0 then none
  else some ⟨fields.host, fields.port⟩

def report (networksetup : Networksetup) (ran : List (List String)) (kind : ProxyKind)
    (service : NetworkService) : Except ProxyFailure (List Char) :=
  match networksetup ran [kind.readFlag, service.name] with
  | .error failure => .error (.notRun failure)
  | .ok output =>
      if !output.success then .error (.refused kind.readFlag output.status)
      else
        match utf8Text output.stdout with
        | none => .error (.unreadable kind.readFlag)
        | some reported => .ok reported

/-- Asks for the three settings, behind the calls that were made before. -/
def read (networksetup : Networksetup) (ran : List (List String)) (service : NetworkService) :
    Except ProxyFailure SystemProxy := do
  let http ← report networksetup ran .http service
  let https ← report networksetup ran .https service
  let socks ← report networksetup ran .socks service
  return ⟨parse http, parse https, parse socks⟩

end SystemProxy

/-! ### The check -/

/-- One of the checks `doctor` runs. -/
inductive Check
  | daemonReachable | portsBound | systemProxy | upstreamReachable | initFile | lastLoad
  | logWritable
  deriving DecidableEq, Repr

inductive Outcome
  | passed | failed
  deriving DecidableEq, Repr

/-- What one check observed. -/
structure Finding where
  check : Check
  outcome : Outcome
  /-- What it observed, and the remedy when it failed. -/
  detail : String
  deriving DecidableEq, Repr

/-- What is wrong with one setting. -/
def misdirected (name : String) (configured : Option ProxyEndpoint) (wanted : SocketAddr) :
    Option String :=
  match configured with
  | none => some (name ++ " is off")
  | some configured =>
      if toString configured = toString wanted then none
      else some (name ++ " points at " ++ toString configured ++ ", not at " ++ toString wanted)

/-- Whether macOS sends traffic to the front ends. -/
def systemProxy (read : Except ProxyFailure SystemProxy) (listen : Listen)
    (service : NetworkService) : Finding :=
  match read with
  | .error failure =>
      ⟨.systemProxy, .failed,
        "cannot read the settings of " ++ service.name ++ ": " ++ toString failure⟩
  | .ok proxy =>
      let wrong := [misdirected "http" proxy.http listen.http,
        misdirected "https" proxy.https listen.http,
        misdirected "socks" proxy.socks listen.socks].filterMap id
      if wrong.isEmpty then
        ⟨.systemProxy, .passed,
          service.name ++ " sends http and https to " ++ toString listen.http ++
            " and socks to " ++ toString listen.socks⟩
      else
        ⟨.systemProxy, .failed,
          service.name ++ ": " ++ ", ".intercalate wrong ++ ", run `sudo nhop proxy on`"⟩

/-! ### What macOS is asked for -/

/-- Text without a blank in it. -/
def OneWord (text : String) : Prop := ∀ c ∈ text.toList, isWhitespace c = false

/-- A line that names none of the three fields. -/
def Beside (line : List Char) : Prop :=
  ∀ field value, splitOnce [':'] line = some (field, value) →
    trim (String.ofList field) ∉ ["Enabled", "Server", "Port"]

/-- A report that names a host and a port and says that the setting is on. -/
structure Reports (reported : List Char) (host port : String) : Prop where
  enabledLine : "Enabled: Yes".toList ∈ linesOf reported
  serverLine : ("Server: " ++ host).toList ∈ linesOf reported
  portLine : ("Port: " ++ port).toList ∈ linesOf reported
  beside : ∀ line ∈ linesOf reported,
    line ∈ ["Enabled: Yes".toList, ("Server: " ++ host).toList, ("Port: " ++ port).toList] ∨
      Beside line

/-- The call that points a setting at an address. -/
def pointing (kind : ProxyKind) (service : NetworkService) (addr : SocketAddr) : List String :=
  [kind.writeFlag, service.name, addr.ip.display, toString addr.port.toNat]

/-- One of the calls that turn the settings of a service on. -/
def Enables (service : NetworkService) (argv : List String) : Prop :=
  ∃ listen : Listen, listen.http.port ≠ 0 ∧ listen.socks.port ≠ 0 ∧
    argv ∈ (enabling listen service).map Invocation.argv

/-- Behind the calls made before, the settings of a service are turned on, and each is
reported as it was written last. -/
def Keeps (networksetup : Networksetup) (before : List (List String))
    (service : NetworkService) : Prop :=
  ∀ (earlier later : List (List String)) (kind : ProxyKind) (addr : SocketAddr), addr.port ≠ 0 →
    (∀ argv ∈ earlier ++ later, Enables service argv) →
    (∀ argv ∈ later, argv.head? ≠ some kind.writeFlag) →
    ∃ status reported,
      networksetup (before ++ (earlier ++ pointing kind service addr :: later))
          [kind.readFlag, service.name] = .ok ⟨true, status, utf8Bytes reported⟩ ∧
        Reports reported addr.ip.display (toString addr.port.toNat)

/-! ### Reading a report -/

section report

variable {reported : List Char} {host port : String} {fields : Fields}

theorem trim_oneWord (h : OneWord host) : trim (String.ofList (' ' :: host.toList)) = host := by
  have hfirst : (' ' :: host.toList).dropWhile isWhitespace = host.toList := by
    have hblank : isWhitespace ' ' = true := by decide
    rw [List.dropWhile_cons_of_pos hblank, List.dropWhile_eq_self_iff]
    intro hlength
    exact Bool.not_eq_true _ ▸ h _ (List.getElem_mem hlength)
  have hlast : host.toList.reverse.dropWhile isWhitespace = host.toList.reverse := by
    rw [List.dropWhile_eq_self_iff]
    intro hlength
    exact Bool.not_eq_true _ ▸ h _ (List.mem_reverse.mp (List.getElem_mem hlength))
  rw [trim, String.toList_ofList, hfirst, hlast, List.reverse_reverse, String.ofList_toList]

theorem read_field {field : String} {line value : List Char} (hfield : ':' ∉ field.toList)
    (hname : trim field = field) (hline : line = field.toList ++ ':' :: value) :
    fields.read line =
      if field = "Enabled" then { fields with enabled := trim (String.ofList value) == "Yes" }
      else if field = "Server" then { fields with host := trim (String.ofList value) }
      else if field = "Port" then
        { fields with port := (parseUnsigned (2 ^ 16) (trim (String.ofList value))).getD 0 }
      else fields := by
  have hsplit : splitOnce [':'] line = some (field.toList, value) := by
    rw [hline, splitOnce_singleton hfield]
  simp only [Fields.read, hsplit, String.ofList_toList, hname]

theorem read_enabled : fields.read "Enabled: Yes".toList = { fields with enabled := true } := by
  have hline : "Enabled: Yes".toList = "Enabled".toList ++ ':' :: ' ' :: "Yes".toList := by simp
  have hvalue : trim (String.ofList (' ' :: "Yes".toList)) = "Yes" := by decide +kernel
  rw [read_field (by decide) (by decide +kernel) hline, hvalue, if_pos rfl]
  rfl

theorem read_server (h : OneWord host) :
    fields.read ("Server: " ++ host).toList = { fields with host := host } := by
  have hline : ("Server: " ++ host).toList = "Server".toList ++ ':' :: ' ' :: host.toList := by
    simp
  rw [read_field (by decide) (by decide +kernel) hline, trim_oneWord h, if_neg (by decide),
    if_pos rfl]

theorem read_port {n : ℕ} (h : OneWord port) (hn : parseUnsigned (2 ^ 16) port = some n) :
    fields.read ("Port: " ++ port).toList = { fields with port := n } := by
  have hline : ("Port: " ++ port).toList = "Port".toList ++ ':' :: ' ' :: port.toList := by simp
  rw [read_field (by decide) (by decide +kernel) hline, trim_oneWord h, if_neg (by decide),
    if_neg (by decide), if_pos rfl, hn, Option.getD_some]

theorem read_beside {line : List Char} (h : Beside line) : fields.read line = fields := by
  cases hsplit : splitOnce [':'] line with
  | none => simp [Fields.read, hsplit]
  | some split =>
      have hnone := h split.1 split.2 hsplit
      simp only [List.mem_cons, List.not_mem_nil, or_false, not_or] at hnone
      simp [Fields.read, hsplit, hnone]

theorem foldl_of_mem {P : Fields → Prop} {lines : List (List Char)} {line : List Char}
    (hmem : line ∈ lines) (hsets : ∀ fields, P (Fields.read fields line))
    (hkeeps : ∀ line ∈ lines, ∀ fields, P fields → P (Fields.read fields line))
    (fields : Fields) : P (lines.foldl Fields.read fields) := by
  obtain ⟨before, behind, rfl⟩ := List.append_of_mem hmem
  rw [List.foldl_append, List.foldl_cons]
  apply List.foldlRecOn
  · exact hsets _
  · intro fields hfields later hlater
    exact hkeeps later (by simp [hlater]) fields hfields

/-- **A report is read as what it reports**, in whatever order its lines come. -/
theorem parse_of_reports {n : ℕ} (h : Reports reported host port) (hhost : OneWord host)
    (hsome : host ≠ "") (hport : OneWord port) (hn : parseUnsigned (2 ^ 16) port = some n)
    (hpos : n ≠ 0) : SystemProxy.parse reported = some ⟨host, n⟩ := by
  have hline : ∀ line ∈ linesOf reported, ∀ fields : Fields,
      fields.read line = { fields with enabled := true } ∨
        fields.read line = { fields with host := host } ∨
        fields.read line = { fields with port := n } ∨ fields.read line = fields := by
    intro line hmem fields
    rcases h.beside line hmem with hfield | hbeside
    · simp only [List.mem_cons, List.not_mem_nil, or_false] at hfield
      rcases hfield with rfl | rfl | rfl
      · exact Or.inl read_enabled
      · exact Or.inr (Or.inl (read_server hhost))
      · exact Or.inr (Or.inr (Or.inl (read_port hport hn)))
    · exact Or.inr (Or.inr (Or.inr (read_beside hbeside)))
  -- each line sets a field to the value wanted or leaves it, and one line sets it
  have henabled : ((linesOf reported).foldl Fields.read ⟨false, "", 0⟩).enabled = true := by
    apply foldl_of_mem (P := fun fields => fields.enabled = true) h.enabledLine
    · intro fields
      rw [read_enabled]
    · intro line hmem fields hfields
      rcases hline line hmem fields with hread | hread | hread | hread <;> rw [hread] <;>
        first | rfl | exact hfields
  have hserver : ((linesOf reported).foldl Fields.read ⟨false, "", 0⟩).host = host := by
    apply foldl_of_mem (P := fun fields => fields.host = host) h.serverLine
    · intro fields
      rw [read_server hhost]
    · intro line hmem fields hfields
      rcases hline line hmem fields with hread | hread | hread | hread <;> rw [hread] <;>
        first | rfl | exact hfields
  have hnumber : ((linesOf reported).foldl Fields.read ⟨false, "", 0⟩).port = n := by
    apply foldl_of_mem (P := fun fields => fields.port = n) h.portLine
    · intro fields
      rw [read_port hport hn]
    · intro line hmem fields hfields
      rcases hline line hmem fields with hread | hread | hread | hread <;> rw [hread] <;>
        first | rfl | exact hfields
  simp [SystemProxy.parse, henabled, hserver, hnumber, hsome, hpos]

end report

/-! ### What was written is read back -/

section written

variable {networksetup : Networksetup} {listen : Listen} {service : NetworkService}
  {addr : SocketAddr} {before : List (List String)}

theorem oneWord_display (address : IpAddr) : OneWord address.display := by
  intro c hc
  have hplain : ∀ c ∈ ".:0123456789abcdef".toList, isWhitespace c = false := by
    simp [isWhitespace]
  exact hplain c (mem_display hc)

theorem display_ne_empty (address : IpAddr) : address.display ≠ "" := by
  intro hempty
  have hread := parse_display address
  have hnone : IpAddr.parse "" = none := rfl
  rw [hempty, hnone] at hread
  cases hread

theorem oneWord_toString (n : ℕ) : OneWord (toString n) := by
  intro c hc
  exact isWhitespace_of_isDigit (isDigit_of_mem_toString hc)

/-- The endpoint of a setting that was pointed at an address. -/
def endpointOf (addr : SocketAddr) : ProxyEndpoint := ⟨addr.ip.display, addr.port.toNat⟩

/-- A setting that was pointed at an address, and not touched since, is read back. -/
theorem report_written (hkeeps : Keeps networksetup before service) (kind : ProxyKind)
    {earlier later : List (List String)} (hport : addr.port ≠ 0)
    (hcalls : ∀ argv ∈ earlier ++ later, Enables service argv)
    (hlater : ∀ argv ∈ later, argv.head? ≠ some kind.writeFlag) :
    ∃ reported, SystemProxy.report networksetup
        (before ++ (earlier ++ pointing kind service addr :: later)) kind service =
          .ok reported ∧
      SystemProxy.parse reported = some (endpointOf addr) := by
  obtain ⟨status, reported, hanswer, hreports⟩ :=
    hkeeps earlier later kind addr hport hcalls hlater
  refine ⟨reported, ?_, ?_⟩
  · simp only [SystemProxy.report, hanswer, utf8Text_utf8Bytes, Bool.not_true,
      Bool.false_eq_true, if_false]
  · have hpos : addr.port.toNat ≠ 0 := by
      intro hzero
      exact hport (UInt16.toNat_inj.mp hzero)
    exact parse_of_reports hreports (oneWord_display _) (display_ne_empty _) (oneWord_toString _)
      (parseUnsigned_toString addr.port.toNat_lt) hpos

/-- **The settings are those that were written.** -/
theorem read_enabling (hkeeps : Keeps networksetup before service)
    (hhttp : listen.http.port ≠ 0) (hsocks : listen.socks.port ≠ 0) :
    SystemProxy.read networksetup (before ++ (enabling listen service).map Invocation.argv)
        service =
      .ok ⟨some (endpointOf listen.http), some (endpointOf listen.http),
        some (endpointOf listen.socks)⟩ := by
  let web := pointing .http service listen.http
  let secure := pointing .https service listen.http
  let firewall := pointing .socks service listen.socks
  let passing : List String := bypassFlag :: service.name :: bypass
  have hcalls : (enabling listen service).map Invocation.argv =
      [web, secure, firewall, passing] := rfl
  have henables : ∀ argv ∈ [web, secure, firewall, passing], Enables service argv := by
    intro argv hmem
    exact ⟨listen, hhttp, hsocks, hcalls ▸ hmem⟩
  obtain ⟨http, hhttpReport, hhttpParse⟩ := @report_written networksetup service listen.http
    before hkeeps .http [] [secure, firewall, passing] hhttp
    (fun argv hmem => henables argv (List.mem_cons_of_mem _ hmem))
    (by simp [secure, firewall, passing, pointing, ProxyKind.writeFlag, bypassFlag])
  obtain ⟨https, hhttpsReport, hhttpsParse⟩ := @report_written networksetup service listen.http
    before hkeeps .https [web] [firewall, passing] hhttp
    (fun argv hmem => henables argv (by
      rcases List.mem_cons.mp hmem with rfl | hmem
      · exact List.mem_cons_self ..
      · exact List.mem_cons_of_mem _ (List.mem_cons_of_mem _ hmem)))
    (by simp [firewall, passing, pointing, ProxyKind.writeFlag, bypassFlag])
  obtain ⟨socks, hsocksReport, hsocksParse⟩ := @report_written networksetup service listen.socks
    before hkeeps .socks [web, secure] [passing] hsocks
    (fun argv hmem => henables argv (by
      simp only [List.mem_append, List.mem_cons, List.not_mem_nil, or_false] at hmem ⊢
      tauto))
    (by simp [passing, ProxyKind.writeFlag, bypassFlag])
  -- each kind was pointed by one call, and the calls behind it touch other kinds only
  have hweb : SystemProxy.report networksetup (before ++ [web, secure, firewall, passing]) .http
      service = .ok http := hhttpReport
  have hsecure : SystemProxy.report networksetup (before ++ [web, secure, firewall, passing])
      .https service = .ok https := hhttpsReport
  have hfirewall : SystemProxy.report networksetup (before ++ [web, secure, firewall, passing])
      .socks service = .ok socks := hsocksReport
  rw [hcalls, SystemProxy.read, hweb, hsecure, hfirewall, ← hhttpParse, ← hsocksParse]
  show Except.ok _ = _
  rw [hhttpsParse, ← hhttpParse]

/-- What is displayed of an endpoint is what is displayed of its address for IPv4
only. -/
theorem toString_endpointOf_iff :
    toString (endpointOf addr) = toString addr ↔ ∃ ip port, addr = .v4 ip port := by
  constructor
  · intro h
    cases addr with
    | v4 ip port => exact ⟨ip, port, rfl⟩
    | v6 ip port flowinfo scopeId =>
        have hplain : ∀ c ∈ (toString (endpointOf (.v6 ip port flowinfo scopeId))).toList,
            c ∈ ".:0123456789abcdef".toList := by
          intro c hc
          have hcolon : ':' ∈ ".:0123456789abcdef".toList := by decide
          have htext : (toString (endpointOf (.v6 ip port flowinfo scopeId))).toList =
              (IpAddr.v6 ip).display.toList ++ ':' :: Nat.toDigits 10 port.toNat := by
            simp [toString, endpointOf, SocketAddr.ip, SocketAddr.port]
          rw [htext, List.mem_append, List.mem_cons] at hc
          rcases hc with hc | rfl | hc
          · exact mem_display hc
          · exact hcolon
          · exact List.mem_cons_of_mem _ (List.mem_cons_of_mem _
              (mem_toDigits (by omega) (by omega) hc))
        have hbracket : '[' ∈ (toString (SocketAddr.v6 ip port flowinfo scopeId)).toList := by
          simp [toString, SocketAddr.display]
        rw [← h] at hbracket
        have hnot : '[' ∉ ".:0123456789abcdef".toList := by decide
        exact absurd (hplain '[' hbracket) hnot
  · rintro ⟨ip, port, rfl⟩
    rfl

theorem misdirected_eq_none_iff {name : String} :
    misdirected name (some (endpointOf addr)) addr = none ↔ ∃ ip port, addr = .v4 ip port := by
  rw [← toString_endpointOf_iff, misdirected]
  split_ifs with h <;> simp [h]

/-- **`doctor` and `proxy on`.** Behind the calls that turn the settings on, the check
passes exactly when both front ends listen on IPv4 addresses. -/
theorem systemProxy_passed_iff (before : List (List String)) (listen : Listen)
    (service : NetworkService) (hkeeps : Keeps networksetup before service)
    (hhttp : listen.http.port ≠ 0) (hsocks : listen.socks.port ≠ 0) :
    (systemProxy (SystemProxy.read networksetup
        (before ++ (enabling listen service).map Invocation.argv) service) listen service).outcome =
      .passed ↔
    (∃ ip port, listen.http = .v4 ip port) ∧ ∃ ip port, listen.socks = .v4 ip port := by
  rw [read_enabling hkeeps hhttp hsocks, ← @misdirected_eq_none_iff listen.http "http",
    ← @misdirected_eq_none_iff listen.socks "socks"]
  have hsame : misdirected "https" (some (endpointOf listen.http)) listen.http = none ↔
      misdirected "http" (some (endpointOf listen.http)) listen.http = none := by
    rw [misdirected_eq_none_iff, misdirected_eq_none_iff]
  cases hweb : misdirected "http" (some (endpointOf listen.http)) listen.http with
  | some failure => simp [systemProxy, hweb]
  | none =>
      have hsecure := hsame.mpr hweb
      cases hfirewall : misdirected "socks" (some (endpointOf listen.socks)) listen.socks with
      | some failure => simp [systemProxy, hweb, hsecure, hfirewall]
      | none => simp [systemProxy, hweb, hsecure, hfirewall]

end written

/-! ### A macOS to run the model with -/

section mac

variable {line rest : List Char} {host port : String}

/-- Whether a call writes a setting or turns it on or off. -/
def touches (kind : ProxyKind) (service : String) : List String → Bool
  | flag :: name :: _ => (flag == kind.writeFlag || flag == kind.stateFlag) && name == service
  | _ => false

def reportOf (enabled host port : String) : List Char :=
  ("Enabled: " ++ enabled).toList ++ '\n' :: (("Server: " ++ host).toList ++ '\n' ::
    (("Port: " ++ port).toList ++ '\n' :: ("Authenticated Proxy Enabled: 0".toList ++ ['\n'])))

/-- What is reported of a setting behind some calls. -/
def setting (ran : List (List String)) (kind : ProxyKind) (service : String) : List Char :=
  match ran.reverse.find? (touches kind service) with
  | some [_, _, host, port] => reportOf "Yes" host port
  | _ => reportOf "No" "" "0"

def Networksetup.mac : Networksetup := fun ran asked =>
  match asked with
  | [flag, service] =>
      match [ProxyKind.http, .https, .socks].find? fun kind => kind.readFlag == flag with
      | none => .ok ⟨false, "exit status: 4", []⟩
      | some kind => .ok ⟨true, "exit status: 0", utf8Bytes (setting ran kind service)⟩
  | _ => .ok ⟨false, "exit status: 4", []⟩

theorem linesOf_cons (hline : '\n' ∉ line) (hlast : line.getLast? ≠ some '\r') :
    linesOf (line ++ '\n' :: rest) = line :: linesOf rest := by
  have hfirst : upTo '\n' (line ++ '\n' :: rest) = line ++ ['\n'] := by
    rw [upTo_append_of_notMem hline, upTo_cons, if_pos rfl]
  have hdrop : (line ++ '\n' :: rest).drop (line ++ ['\n']).length = rest := by
    have hsplit : line ++ '\n' :: rest = (line ++ ['\n']) ++ rest := by simp
    rw [hsplit, List.drop_left]
  rw [linesOf, splitInclusive_eq_upTo (by simp), hfirst, hdrop, List.map_cons, ← linesOf]
  congr 1
  simp [withoutBreak, hlast]

theorem oneWord_field {field : String} (hfield : ∀ c ∈ field.toList, c ≠ '\n' ∧ c ≠ '\r')
    (h : OneWord host) : '\n' ∉ (field ++ host).toList ∧
      (field ++ host).toList.getLast? ≠ some '\r' := by
  have hplain : ∀ c ∈ (field ++ host).toList, c ≠ '\n' ∧ c ≠ '\r' := by
    intro c hc
    rw [String.toList_append, List.mem_append] at hc
    rcases hc with hc | hc
    · exact hfield c hc
    · have hblank := h c hc
      constructor <;> rintro rfl <;> revert hblank <;> decide
  exact ⟨fun hmem => (hplain _ hmem).1 rfl,
    fun hlast => (hplain _ (List.mem_of_getLast? hlast)).2 rfl⟩

theorem linesOf_reportOf (hhost : OneWord host) (hport : OneWord port) :
    linesOf (reportOf "Yes" host port) =
      ["Enabled: Yes".toList, ("Server: " ++ host).toList, ("Port: " ++ port).toList,
        "Authenticated Proxy Enabled: 0".toList] := by
  have hserver := @oneWord_field host "Server: " (by simp) hhost
  have hnumber := @oneWord_field port "Port: " (by simp) hport
  rw [reportOf, linesOf_cons (by simp) (by simp), linesOf_cons hserver.1 hserver.2,
    linesOf_cons hnumber.1 hnumber.2, linesOf_cons (by simp) (by simp)]
  rfl

/-- Which calls turn settings on. -/
theorem flag_of_enables {service : NetworkService} {argv : List String}
    (h : Enables service argv) : ∃ flag rest, argv = flag :: service.name :: rest ∧
      (flag = bypassFlag ∨ ∃ kind : ProxyKind, flag = kind.writeFlag) := by
  obtain ⟨listen, _, _, hmem⟩ := h
  simp only [enabling, invocation, List.map_append, List.map_cons, List.map_nil, List.mem_append,
    List.mem_cons, List.not_mem_nil, or_false, Invocation.argv] at hmem
  rcases hmem with (rfl | rfl | rfl) | rfl
  · exact ⟨_, _, rfl, Or.inr ⟨.http, rfl⟩⟩
  · exact ⟨_, _, rfl, Or.inr ⟨.https, rfl⟩⟩
  · exact ⟨_, _, rfl, Or.inr ⟨.socks, rfl⟩⟩
  · exact ⟨_, _, rfl, Or.inl rfl⟩

theorem touches_of_enables {service : NetworkService} {kind : ProxyKind} {argv : List String}
    (h : Enables service argv) (hhead : argv.head? ≠ some kind.writeFlag) :
    touches kind service.name argv = false := by
  obtain ⟨flag, rest, rfl, hflag⟩ := flag_of_enables h
  have hwrite : flag ≠ kind.writeFlag := fun hsame => hhead (congrArg some hsame)
  have hstate : flag ≠ kind.stateFlag := by
    rcases hflag with rfl | ⟨other, rfl⟩
    · cases kind <;> simp [bypassFlag, ProxyKind.stateFlag]
    · cases kind <;> cases other <;> simp [ProxyKind.writeFlag, ProxyKind.stateFlag]
  simp [touches, hwrite, hstate]

theorem keeps_mac (before : List (List String)) (service : NetworkService) :
    Keeps Networksetup.mac before service := by
  intro earlier later kind addr _ hcalls hlater
  have hhost := oneWord_display addr.ip
  have hport := oneWord_toString addr.port.toNat
  refine ⟨"exit status: 0", reportOf "Yes" addr.ip.display (toString addr.port.toNat), ?_, ?_⟩
  · have hnone : later.reverse.find? (touches kind service.name) = none := by
      rw [List.find?_eq_none]
      intro argv hargv
      have hmem := List.mem_reverse.mp hargv
      rw [touches_of_enables (hcalls argv (List.mem_append_right _ hmem)) (hlater argv hmem)]
      exact Bool.false_ne_true
    have hlast : touches kind service.name (pointing kind service addr) = true := by
      simp [touches, pointing]
    have hfind : (before ++ (earlier ++ pointing kind service addr :: later)).reverse.find?
        (touches kind service.name) = some (pointing kind service addr) := by
      rw [List.reverse_append, List.reverse_append, List.reverse_cons, List.append_assoc,
        List.append_assoc, List.find?_append, hnone]
      simp [hlast]
    have hsetting : setting (before ++ (earlier ++ pointing kind service addr :: later)) kind
        service.name = reportOf "Yes" addr.ip.display (toString addr.port.toNat) := by
      rw [setting, hfind]
      rfl
    rw [← hsetting]
    cases kind <;> rfl
  · have hlines := linesOf_reportOf hhost hport
    constructor
    · simp only [hlines, List.mem_cons, true_or]
    · simp only [hlines, List.mem_cons, true_or, or_true]
    · simp only [hlines, List.mem_cons, true_or, or_true]
    · rw [hlines]
      intro line hline
      simp only [List.mem_cons, List.not_mem_nil, or_false] at hline ⊢
      rcases hline with rfl | rfl | rfl | rfl
      · simp
      · simp
      · simp
      · right
        have hsplit : splitOnce [':'] "Authenticated Proxy Enabled: 0".toList =
            some ("Authenticated Proxy Enabled".toList, " 0".toList) := by decide +kernel
        intro field value hfield
        rw [hsplit] at hfield
        cases hfield
        decide +kernel

/-- Two front ends on IPv4. -/
def loopback : Listen := ⟨.v4 0x7f000001#32 7890, .v4 0x7f000001#32 7891⟩

theorem systemProxy_loopback :
    (systemProxy (SystemProxy.read Networksetup.mac
        ([] ++ (enabling loopback ⟨"Wi-Fi"⟩).map Invocation.argv) ⟨"Wi-Fi"⟩) loopback
        ⟨"Wi-Fi"⟩).outcome = .passed :=
  (systemProxy_passed_iff [] loopback ⟨"Wi-Fi"⟩ (keeps_mac [] _) (by decide) (by decide)).mpr
    ⟨⟨_, _, rfl⟩, ⟨_, _, rfl⟩⟩

/-- Two front ends on IPv6. -/
def loopback6 : Listen := ⟨.v6 1#128 7890 0 0, .v6 1#128 7891 0 0⟩

/-- What `proxy on` wrote for them is turned away. -/
theorem systemProxy_loopback6 :
    Keeps Networksetup.mac [] ⟨"Wi-Fi"⟩ ∧ loopback6.http.port ≠ 0 ∧ loopback6.socks.port ≠ 0 ∧
      (systemProxy (SystemProxy.read Networksetup.mac
        ([] ++ (enabling loopback6 ⟨"Wi-Fi"⟩).map Invocation.argv) ⟨"Wi-Fi"⟩) loopback6
        ⟨"Wi-Fi"⟩).outcome ≠ .passed := by
  refine ⟨keeps_mac _ _, by decide, by decide, ?_⟩
  have hwrong : misdirected "http" (some (endpointOf loopback6.http)) loopback6.http ≠ none := by
    rw [ne_eq, misdirected_eq_none_iff]
    rintro ⟨ip, port, h⟩
    cases h
  obtain ⟨failure, hfailure⟩ := Option.ne_none_iff_exists'.mp hwrong
  rw [read_enabling (keeps_mac _ _) (by decide) (by decide)]
  simp [systemProxy, hfailure]

end mac

end Nhop.Cli.Settings
