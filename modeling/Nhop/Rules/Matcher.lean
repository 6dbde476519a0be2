import Nhop.Ipc.Command

/-!
What a rule matches on. A rule value is read once, when the rule is declared,
and a destination is normalized once per decision; matching compares the two.
-/

namespace Nhop.Rules

open Foundation Ipc

variable [External]

/-- Rejection of a rule value that cannot be read as its kind. -/
structure InvalidRule where
  message : String
  deriving DecidableEq, Repr

def kindName : RuleKind → String
  | .suffix => "suffix"
  | .cidr => "cidr"
  | .port => "port"
  | .keyword => "keyword"

def InvalidRule.new (kind : RuleKind) (value : RuleValue) (expected : String) : InvalidRule :=
  ⟨"invalid " ++ kindName kind ++ " value " ++ External.debug value.text ++ ": expected " ++
    expected⟩

def InvalidRule.errKind (_ : InvalidRule) : ErrKind := .invalidArgs

/-- Destination host lowercased and stripped of a trailing dot, with its IP
literal read once. -/
structure NormalizedHost where
  host : String
  address : Option IpAddr
  deriving DecidableEq, Repr

def NormalizedHost.new (host : Host) : NormalizedHost :=
  let stripped := (stripEnd "." host.name).getD host.name
  let lowered := External.lowercase stripped
  ⟨lowered, IpAddr.parse lowered⟩

/-- Hostname suffix matched exactly or on a dot boundary. -/
structure Suffix where
  text : String
  deriving DecidableEq, Repr

def Suffix.parse (value : RuleValue) : Except InvalidRule Suffix :=
  let stripped := (stripEnd "." value.text).getD value.text
  let suffix := External.lowercase stripped
  if suffix.isEmpty || suffix.toList.any isWhitespace || ".".toList.isPrefixOf suffix.toList ||
      suffix.toList.contains '*' then
    .error (.new .suffix value "a hostname such as example.com")
  else .ok ⟨suffix⟩

def Suffix.matches (suffix : Suffix) (host : NormalizedHost) : Bool :=
  if host.host = suffix.text then true
  else
    match stripEnd suffix.text host.host with
    | none => false
    | some head => ".".toList.isSuffixOf head.toList

/-- Substring matched against the host and never against the port. -/
structure Keyword where
  text : String
  deriving DecidableEq, Repr

def Keyword.parse (value : RuleValue) : Except InvalidRule Keyword :=
  let keyword := External.lowercase value.text
  if keyword.isEmpty || keyword.toList.any isWhitespace then
    .error (.new .keyword value "a non-empty substring of a hostname")
  else .ok ⟨keyword⟩

def Keyword.matches (keyword : Keyword) (host : NormalizedHost) : Bool :=
  containsText keyword.text host.host

def parseNetwork (value : RuleValue) : Except InvalidRule IpNet :=
  match External.parseNet value.text with
  | some network => .ok network
  | none => .error (.new .cidr value "a network such as 192.0.2.0/24")

def parsePort (value : RuleValue) : Except InvalidRule Port :=
  match parseUnsigned 65536 value.text with
  | some port => .ok (UInt16.ofNat port)
  | none =>
      .error (.new .port value "a single port between 0 and 65535, ranges are not supported")

/-- Right-hand side of a rule, ready to match destinations against. -/
inductive Matcher
  | suffix (tail : Suffix)
  | cidr (network : IpNet)
  | port (expected : Port)
  | keyword (part : Keyword)
  deriving DecidableEq, Repr

namespace Matcher

/-- Reads a rule value according to its kind. -/
def parse (kind : RuleKind) (value : RuleValue) : Except InvalidRule Matcher :=
  match kind with
  | .suffix => (Suffix.parse value).map .suffix
  | .cidr => (parseNetwork value).map .cidr
  | .port => (parsePort value).map .port
  | .keyword => (Keyword.parse value).map .keyword

def kind : Matcher → RuleKind
  | .suffix _ => .suffix
  | .cidr _ => .cidr
  | .port _ => .port
  | .keyword _ => .keyword

/-- A value read as a kind matches on that kind. -/
theorem kind_parse {kind : RuleKind} {value : RuleValue} {matcher : Matcher}
    (h : parse kind value = .ok matcher) : matcher.kind = kind := by
  cases kind with
  | suffix =>
      simp only [parse] at h
      cases hread : Suffix.parse value <;> rw [hread] at h <;> simp only [Except.map] at h
      · cases h
      · cases h; rfl
  | cidr =>
      simp only [parse] at h
      cases hread : parseNetwork value <;> rw [hread] at h <;> simp only [Except.map] at h
      · cases h
      · cases h; rfl
  | port =>
      simp only [parse] at h
      cases hread : parsePort value <;> rw [hread] at h <;> simp only [Except.map] at h
      · cases h
      · cases h; rfl
  | keyword =>
      simp only [parse] at h
      cases hread : Keyword.parse value <;> rw [hread] at h <;> simp only [Except.map] at h
      · cases h
      · cases h; rfl

end Matcher

/-- Whether a destination matches. -/
def Matcher.matches (matcher : Matcher) (host : NormalizedHost) (port : Port) : Bool :=
  match matcher with
  | .suffix tail => tail.matches host
  | .cidr network => host.address.any (External.contains network)
  | .port expected => expected == port
  | .keyword part => part.matches host

end Nhop.Rules
