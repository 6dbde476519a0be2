import Nhop.Cli.Client
import Nhop.Cli.SystemProxy
import Nhop.Upstream.Dial

/-!
The checks of `nhop doctor`.

Seven checks are reported in one order, whatever order they were observed in, and a
check nothing observed has failed. What a check looks at outside of the daemon is
open: the files there are, the settings macOS reports, and what connecting to an
upstream comes back with.
-/

namespace Nhop.Cli

open Foundation Ipc Rules Proxy Upstream Settings

/-- One diagnostic check, as it is reported. -/
structure CheckView where
  name : String
  ok : Bool
  detail : String
  deriving DecidableEq, Repr

namespace Settings

/-- The stable identifier of a check. -/
def Check.name : Check → String
  | .daemonReachable => "daemon_reachable"
  | .portsBound => "ports_bound"
  | .systemProxy => "system_proxy"
  | .upstreamReachable => "upstream_reachable"
  | .initFile => "init_file"
  | .lastLoad => "last_load"
  | .logWritable => "log_writable"

def Outcome.isOk : Outcome → Bool
  | .passed => true
  | .failed => false

end Settings

/-- Why the client got no answer, as it is displayed. -/
def Unreachable.display : Unreachable → String
  | .noDaemon socketFile => "no daemon is listening on " ++ socketFile ++ ", run `nhop start`"
  | .closed => "the daemon closed the connection without answering"
  | .io failure => "cannot talk to the daemon: " ++ toString failure
  | .malformed failure => "the daemon answered with a line this client cannot read: " ++ failure

namespace Doctor

/-! ### The report -/

/-- The seven checks, in the order they are reported. -/
def checks : List Check :=
  [.daemonReachable, .portsBound, .systemProxy, .upstreamReachable, .initFile, .lastLoad,
    .logWritable]

/-- The detail of a check that nothing ran. -/
def notChecked : String := "not checked, the daemon did not answer"

def view (check : Check) (findings : List Finding) : CheckView :=
  match findings.find? fun finding => finding.check == check with
  | none => ⟨check.name, false, notChecked⟩
  | some finding => ⟨check.name, finding.outcome.isOk, finding.detail⟩

def report (findings : List Finding) : List CheckView :=
  checks.map fun check => view check findings

/-- How many checks failed, and how many of them are not about the upstream. -/
structure Failures where
  failed : ℕ
  beyondTheUpstream : ℕ
  deriving DecidableEq, Repr

def Failures.count (failures : Failures) (check : CheckView) : Failures :=
  if check.ok then failures
  else if check.name ≠ Check.upstreamReachable.name then
    ⟨failures.failed + 1, failures.beyondTheUpstream + 1⟩
  else ⟨failures.failed + 1, failures.beyondTheUpstream⟩

/-- The code `doctor` exits with once every check has been made: an upstream that
cannot be reached is the one routine failure. -/
def exitOf (checks : List CheckView) : Exit :=
  let failures := checks.foldl Failures.count ⟨0, 0⟩
  if failures.failed = 0 then .success
  else if failures.beyondTheUpstream = 0 then .upstreamDown
  else .failed

/-! ### The checks -/

def daemonReachable (socketFile : String) : Finding :=
  ⟨.daemonReachable, .passed, "the daemon answered on " ++ socketFile⟩

/-- Nothing answered, so that no other check could be made. -/
def unreachable (failure : String) : Finding :=
  ⟨.daemonReachable, .failed, failure ++ ", run `nhop start`"⟩

def forwarded (forwards : Forwards) : String :=
  String.join (forwards.forwards.map fun forward =>
    ", forward on " ++ toString forward.listen ++ " to " ++ forward.target.host.name ++ ":" ++
      toString forward.target.port.toNat)

/-- Whether the front ends hold the addresses they were given. -/
def portsBound (listen : Listen) (forwards : Forwards) (bound : Bool) : Finding :=
  if bound then
    ⟨.portsBound, .passed, "http on " ++ toString listen.http ++ ", socks5 on " ++
      toString listen.socks ++ forwarded forwards⟩
  else
    ⟨.portsBound, .failed, "nothing is listening on " ++ toString listen.http ++ " or " ++
      toString listen.socks ++ ", restart the daemon"⟩

/-- What one connect to an upstream came back with. -/
inductive Reach
  | answered
  | silent
  /-- The failure, and whether it is that the host cannot be reached. -/
  | refused (failure : OsError) (hostUnreachable : Bool)
  deriving DecidableEq, Repr

def Reach.isAnswered : Reach → Bool
  | .answered => true
  | .silent | .refused _ _ => false

def verdictName : HealthState → String
  | .up => "up"
  | .down => "down"

/-- What macOS hides behind a routing error. -/
def localNetwork (hostUnreachable : Bool) : String :=
  if hostUnreachable then
    " - macOS reports a denied Local Network permission as a routing error, so grant nhop " ++
      "Local Network access in System Settings > Privacy & Security and check that the binary " ++
      "is signed"
  else ""

def refusal (name : String) (upstream : SocketAddr) (failure : OsError)
    (hostUnreachable : Bool) : String :=
  "cannot reach " ++ name ++ " on " ++ toString upstream ++ ": " ++ toString failure ++
    localNetwork hostUnreachable

/-- The finding about a list of one upstream. -/
def alone (entry : UpstreamEntry) (reach : Reach) (cells : Verdicts) : Finding :=
  let name := entry.upstream.written.text
  let state := verdictName (entry.health.state cells)
  match reach with
  | .answered =>
      ⟨.upstreamReachable, .passed, name ++ " answered on " ++ toString entry.upstream.socket ++
        ", the verdict is " ++ state⟩
  | .silent =>
      ⟨.upstreamReachable, .failed, name ++ " did not answer within " ++
        toString preferConnectTimeout ++ "s, the verdict is " ++ state⟩
  | .refused failure hostUnreachable =>
      ⟨.upstreamReachable, .failed, refusal name entry.upstream.socket failure hostUnreachable⟩

/-- What is said of one upstream of several. -/
def listed (entry : UpstreamEntry) (reach : Reach) (cells : Verdicts) : String :=
  let name := entry.upstream.written.text
  let state := verdictName (entry.health.state cells)
  match reach with
  | .answered => name ++ " reachable, the verdict is " ++ state
  | .silent =>
      name ++ " unreachable, no answer within " ++ toString preferConnectTimeout ++
        "s, the verdict is " ++ state
  | .refused failure hostUnreachable =>
      name ++ " unreachable, " ++ toString failure ++ localNetwork hostUnreachable ++
        ", the verdict is " ++ state

/-- Whether any upstream answers. The verdicts are read when the connects are over. -/
def upstreamReachable (reach : SocketAddr → Reach) (list : UpstreamEntries) (cells : Verdicts) :
    Finding :=
  match list.entries.map fun entry => (entry, reach entry.upstream.socket) with
  | [] =>
      ⟨.upstreamReachable, .failed,
        "no upstream is configured, name one with `nhop upstream socks5://<ip>:<port>`"⟩
  | [(entry, reach)] => alone entry reach cells
  | reached =>
      ⟨.upstreamReachable,
        if reached.any fun dialled => dialled.2.isAnswered then .passed else .failed,
        "; ".intercalate (reached.map fun dialled => listed dialled.1 dialled.2 cells)⟩

/-- What the file system says of a path. -/
structure Metadata where
  isFile : Bool
  isDir : Bool
  mode : ℕ
  deriving DecidableEq, Repr

def ownerWrite : ℕ := 0o200

def anyExecute : ℕ := 0o111

/-- Whether the init script exists and can be executed. -/
def initFile (metadata : String → Option Metadata) (path : String) : Finding :=
  match metadata path with
  | none =>
      ⟨.initFile, .failed,
        "no init script at " ++ path ++ ", every connection is direct until one exists"⟩
  | some found =>
      if !found.isFile then ⟨.initFile, .failed, path ++ " is not a file"⟩
      else if found.mode &&& anyExecute = 0 then
        ⟨.initFile, .failed, path ++ " is not executable, run `chmod +x " ++ path ++ "`"⟩
      else ⟨.initFile, .passed, path ++ " is executable"⟩

/-- The command a run failed on, when it is known. -/
def on (command : Option String) : String :=
  match command with
  | none => ""
  | some command => " on " ++ command

/-- How the most recent run ended. The format of the time is open. -/
def lastLoad (format : ℤ → String) (last : Option LastLoadView) : Finding :=
  match last with
  | none =>
      ⟨.lastLoad, .failed,
        "no init script has been loaded, the ruleset is empty and every connection is direct"⟩
  | some ⟨stamp, outcome, command⟩ =>
      match outcome with
      | .ok => ⟨.lastLoad, .passed, "the run at " ++ format stamp ++ " committed"⟩
      | .failed =>
          ⟨.lastLoad, .failed, "the run at " ++ format stamp ++ " failed" ++ on command ++
            ", fix it and run `nhop reload`"⟩
      | .timedOut =>
          ⟨.lastLoad, .failed, "the run at " ++ format stamp ++
            " outlived the load timeout and was killed"⟩

/-- Whether the daemon can still write its log, which is in the directory `dir`. -/
def logWritable (metadata : String → Option Metadata) (logFile : String) (dir : Option String) :
    Finding :=
  match dir with
  | none => ⟨.logWritable, .failed, logFile ++ " names no directory to write into"⟩
  | some path =>
      match metadata path with
      | none => ⟨.logWritable, .failed, "no state directory at " ++ path⟩
      | some found =>
          if !found.isDir then ⟨.logWritable, .failed, path ++ " is not a directory"⟩
          else if found.mode &&& ownerWrite = 0 then
            ⟨.logWritable, .failed, path ++ " is not writable, run `chmod u+rwx " ++ path ++ "`"⟩
          else ⟨.logWritable, .passed, logFile ++ " is writable"⟩

/-! ### The command -/

/-- What the daemon answered `doctor` with. -/
inductive Reply
  | doctor (checks : List CheckView)
  | other (response : Response)
  deriving DecidableEq, Repr

/-- Runs `nhop doctor`: the checks it prints and the code it exits with. -/
def diagnose (answered : Except Unreachable Reply) : List CheckView × Exit :=
  match answered with
  | .ok (.doctor checks) => (checks, exitOf checks)
  | .ok (.other response) => ([], render response)
  | .error failure =>
      let checks := report [unreachable failure.display]
      (checks, exitOf checks)

/-! ### What the report says -/

section report

variable {findings findings' : List Finding} {check : Check}

theorem name_view : (view check findings).name = check.name := by
  unfold view
  split <;> rfl

/-- Every check is reported once, in order. -/
theorem names_report : (report findings).map CheckView.name = checks.map Check.name := by
  rw [report, List.map_map]
  exact List.map_congr_left fun _ _ => name_view

/-- Of findings about different checks the one about a check is found wherever it
stands. -/
theorem view_of_mem {finding : Finding} (hdistinct : (findings.map Finding.check).Nodup)
    (hmem : finding ∈ findings) :
    view finding.check findings = ⟨finding.check.name, finding.outcome.isOk, finding.detail⟩ := by
  obtain ⟨found, hfound⟩ : ∃ found,
      findings.find? (fun other => other.check == finding.check) = some found := by
    rw [← Option.isSome_iff_exists, List.find?_isSome]
    exact ⟨finding, hmem, by simp⟩
  have hcheck : found.check = finding.check := by simpa using List.find?_some hfound
  have hsame : found = finding :=
    List.inj_on_of_nodup_map hdistinct (List.mem_of_find?_eq_some hfound) hmem hcheck
  rw [view, hfound, hsame]

theorem view_of_notMem (h : check ∉ findings.map Finding.check) :
    view check findings = ⟨check.name, false, notChecked⟩ := by
  have hnone : findings.find? (fun finding => finding.check == check) = none := by
    rw [List.find?_eq_none]
    intro finding hmem
    simp only [beq_iff_eq]
    intro hcheck
    exact h (hcheck ▸ List.mem_map_of_mem hmem)
  rw [view, hnone]

/-- The report does not depend on the order of what was observed. -/
theorem report_perm (hdistinct : (findings.map Finding.check).Nodup)
    (hperm : findings.Perm findings') : report findings = report findings' := by
  refine List.map_congr_left fun check _ => ?_
  by_cases hmem : check ∈ findings.map Finding.check
  · obtain ⟨finding, hfinding, rfl⟩ := List.mem_map.mp hmem
    rw [view_of_mem hdistinct hfinding,
      view_of_mem ((hperm.map _).nodup_iff.mp hdistinct) (hperm.mem_iff.mp hfinding)]
  · have hmem' : check ∉ findings'.map Finding.check := fun h =>
      hmem ((hperm.map _).mem_iff.mpr h)
    rw [view_of_notMem hmem, view_of_notMem hmem']

end report

section exitOf

variable {views : List CheckView}

/-- A check that failed and is not about the upstream. -/
def isBeyond (check : CheckView) : Bool :=
  !check.ok && check.name != Check.upstreamReachable.name

theorem foldl_count (start : Failures) : views.foldl Failures.count start =
    ⟨start.failed + views.countP fun check => !check.ok,
      start.beyondTheUpstream + views.countP isBeyond⟩ := by
  induction views generalizing start with
  | nil => rfl
  | cons check views ih =>
      rw [List.foldl_cons, ih, List.countP_cons, List.countP_cons]
      unfold Failures.count isBeyond
      cases check.ok with
      | true => simp
      | false =>
          by_cases hname : check.name = Check.upstreamReachable.name
          · simp [hname]
            omega
          · simp [hname]
            omega

theorem exitOf_eq : exitOf views =
    if views.countP (fun check => !check.ok) = 0 then .success
    else if views.countP isBeyond = 0 then .upstreamDown
    else .failed := by
  simp only [exitOf, foldl_count, Nat.zero_add]

/-- `doctor` exits zero when every check passed. -/
theorem exitOf_eq_success : exitOf views = .success ↔ ∀ check ∈ views, check.ok = true := by
  rw [exitOf_eq]
  by_cases hall : views.countP (fun check => !check.ok) = 0
  · simp only [hall, if_true, true_iff]
    intro check hmem
    have := List.countP_eq_zero.mp hall check hmem
    simpa using this
  · simp only [hall, if_false]
    constructor
    · intro h
      split_ifs at h
    · intro h
      exact absurd (List.countP_eq_zero.mpr fun check hmem => by simp [h check hmem]) hall

/-- And with a code of its own when only the upstream cannot be reached. -/
theorem exitOf_eq_upstreamDown : exitOf views = .upstreamDown ↔
    (∃ check ∈ views, check.ok = false) ∧
      ∀ check ∈ views, check.ok = false → check.name = Check.upstreamReachable.name := by
  rw [exitOf_eq]
  by_cases hall : views.countP (fun check => !check.ok) = 0
  · simp only [hall, if_true]
    constructor
    · intro h
      cases h
    · rintro ⟨⟨check, hmem, hfailed⟩, _⟩
      have := List.countP_eq_zero.mp hall check hmem
      simp [hfailed] at this
  · simp only [hall, if_false]
    have hsome : ∃ check ∈ views, check.ok = false := by
      have hpos := List.countP_pos_iff.mp (Nat.pos_of_ne_zero hall)
      simpa using hpos
    by_cases hbeyond : views.countP isBeyond = 0
    · simp only [hbeyond, if_true, true_iff]
      refine ⟨hsome, fun check hmem hfailed => ?_⟩
      have := List.countP_eq_zero.mp hbeyond check hmem
      simpa [isBeyond, hfailed] using this
    · simp only [hbeyond, if_false]
      constructor
      · intro h
        cases h
      · rintro ⟨_, honly⟩
        refine absurd (List.countP_eq_zero.mpr fun check hmem => ?_) hbeyond
        cases hok : check.ok with
        | true => simp [isBeyond, hok]
        | false => simp [isBeyond, honly check hmem hok]

end exitOf

/-! ### What each check is about -/

section check

variable {listen : Listen} {metadata : String → Option Metadata}

@[simp] theorem check_daemonReachable {socketFile : String} :
    (daemonReachable socketFile).check = .daemonReachable := rfl

@[simp] theorem check_portsBound {forwards : Forwards} {bound : Bool} :
    (portsBound listen forwards bound).check = .portsBound := by
  cases bound <;> rfl

@[simp] theorem check_systemProxy {reading : Except ProxyFailure SystemProxy}
    {service : NetworkService} : (systemProxy reading listen service).check = .systemProxy := by
  unfold systemProxy
  cases reading with
  | error failure => rfl
  | ok proxy =>
      simp only
      split_ifs <;> rfl

@[simp] theorem check_alone {entry : UpstreamEntry} {reach : Reach} {cells : Verdicts} :
    (alone entry reach cells).check = .upstreamReachable := by
  cases reach <;> rfl

@[simp] theorem check_upstreamReachable {reach : SocketAddr → Reach} {list : UpstreamEntries}
    {cells : Verdicts} : (upstreamReachable reach list cells).check = .upstreamReachable := by
  unfold upstreamReachable
  rcases list.entries with _ | ⟨entry, _ | ⟨next, rest⟩⟩
  · rfl
  · exact check_alone
  · rfl

@[simp] theorem check_initFile {path : String} : (initFile metadata path).check = .initFile := by
  unfold initFile
  cases metadata path with
  | none => rfl
  | some found =>
      simp only
      split_ifs <;> rfl

@[simp] theorem check_lastLoad {format : ℤ → String} {last : Option LastLoadView} :
    (lastLoad format last).check = .lastLoad := by
  rcases last with _ | ⟨stamp, outcome, command⟩
  · rfl
  · cases outcome <;> rfl

@[simp] theorem check_logWritable {logFile : String} {dir : Option String} :
    (logWritable metadata logFile dir).check = .logWritable := by
  unfold logWritable
  cases dir with
  | none => rfl
  | some path =>
      cases hfound : metadata path with
      | none => simp only [hfound]
      | some found =>
          simp only [hfound]
          split_ifs <;> rfl

end check

/-! ### When a check passes -/

/-- The setting is on and shows the address. -/
def Shows (configured : Option ProxyEndpoint) (wanted : SocketAddr) : Prop :=
  ∃ endpoint, configured = some endpoint ∧ toString endpoint = toString wanted

/-- The three settings that were read show the front ends. -/
def Pointed (reading : Except ProxyFailure SystemProxy) (listen : Listen) : Prop :=
  ∃ proxy, reading = .ok proxy ∧ Shows proxy.http listen.http ∧ Shows proxy.https listen.http ∧
    Shows proxy.socks listen.socks

/-- There is a file at the path that can be executed. -/
def Executable (metadata : String → Option Metadata) (path : String) : Prop :=
  ∃ found, metadata path = some found ∧ found.isFile = true ∧ found.mode &&& anyExecute ≠ 0

/-- The directory is there and its owner can write into it. -/
def Writable (metadata : String → Option Metadata) (dir : Option String) : Prop :=
  ∃ path found, dir = some path ∧ metadata path = some found ∧ found.isDir = true ∧
    found.mode &&& ownerWrite ≠ 0

/-- An upstream of the list answers. -/
def SomeAnswers (reach : SocketAddr → Reach) (list : UpstreamEntries) : Prop :=
  ∃ entry ∈ list.entries, reach entry.upstream.socket = .answered

section passed

theorem misdirected_eq_none {name : String} {configured : Option ProxyEndpoint}
    {wanted : SocketAddr} :
    misdirected name configured wanted = none ↔ Shows configured wanted := by
  unfold misdirected Shows
  cases configured with
  | none => simp
  | some endpoint =>
      by_cases hshown : toString endpoint = toString wanted
      · simp [hshown]
      · simp [hshown]

theorem systemProxy_passed {reading : Except ProxyFailure SystemProxy} {listen : Listen}
    {service : NetworkService} :
    (systemProxy reading listen service).outcome = .passed ↔ Pointed reading listen := by
  unfold systemProxy Pointed
  cases reading with
  | error failure => simp
  | ok proxy =>
      have hhttp := @misdirected_eq_none "http" proxy.http listen.http
      have hhttps := @misdirected_eq_none "https" proxy.https listen.http
      have hsocks := @misdirected_eq_none "socks" proxy.socks listen.socks
      simp only [Except.ok.injEq, exists_eq_left', ← hhttp, ← hhttps, ← hsocks]
      cases misdirected "http" proxy.http listen.http <;>
        cases misdirected "https" proxy.https listen.http <;>
        cases misdirected "socks" proxy.socks listen.socks <;> simp

theorem portsBound_passed {listen : Listen} {forwards : Forwards} {bound : Bool} :
    (portsBound listen forwards bound).outcome = .passed ↔ bound = true := by
  cases bound <;> simp [portsBound]

theorem isAnswered_iff {reach : Reach} : reach.isAnswered = true ↔ reach = .answered := by
  cases reach <;> simp [Reach.isAnswered]

theorem alone_passed {entry : UpstreamEntry} {reach : Reach} {cells : Verdicts} :
    (alone entry reach cells).outcome = .passed ↔ reach = .answered := by
  cases reach <;> simp [alone]

theorem upstreamReachable_passed {reach : SocketAddr → Reach} {list : UpstreamEntries}
    {cells : Verdicts} :
    (upstreamReachable reach list cells).outcome = .passed ↔ SomeAnswers reach list := by
  unfold upstreamReachable SomeAnswers
  rcases list.entries with _ | ⟨entry, _ | ⟨next, rest⟩⟩
  · simp
  · simpa using alone_passed
  · have hany : ((entry :: next :: rest).map fun other =>
        (other, reach other.upstream.socket)).any (fun dialled => dialled.2.isAnswered) = true ↔
        ∃ other ∈ entry :: next :: rest, reach other.upstream.socket = .answered := by
      rw [List.any_map, List.any_eq_true]
      simp only [Function.comp_apply, isAnswered_iff]
    rw [← hany]
    simp only [List.map_cons]
    split_ifs with hanswered
    · simp [hanswered]
    · simp [hanswered]

theorem initFile_passed {metadata : String → Option Metadata} {path : String} :
    (initFile metadata path).outcome = .passed ↔ Executable metadata path := by
  unfold initFile Executable
  cases metadata path with
  | none => simp
  | some found =>
      by_cases hmode : found.mode &&& anyExecute = 0 <;> cases hfile : found.isFile <;>
        simp [hmode, hfile]

theorem lastLoad_passed {format : ℤ → String} {last : Option LastLoadView} :
    (lastLoad format last).outcome = .passed ↔ last.map LastLoadView.outcome = some .ok := by
  rcases last with _ | ⟨stamp, outcome, command⟩
  · simp [lastLoad]
  · cases outcome <;> simp [lastLoad]

theorem logWritable_passed {metadata : String → Option Metadata} {logFile : String}
    {dir : Option String} :
    (logWritable metadata logFile dir).outcome = .passed ↔ Writable metadata dir := by
  unfold logWritable Writable
  cases dir with
  | none => simp
  | some path =>
      cases hfound : metadata path with
      | none => simp [hfound]
      | some found =>
          by_cases hmode : found.mode &&& ownerWrite = 0 <;> cases hdir : found.isDir <;>
            simp [hfound, hmode, hdir]

end passed

end Doctor

end Nhop.Cli
