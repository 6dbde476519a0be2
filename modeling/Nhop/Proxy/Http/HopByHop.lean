import Nhop.Proxy.Http.Rebuilt

/-!
Fields that belong to one hop.

Some are known by their names. Others are declared: a `Connection` field lists
the names of fields that are meant for the next hop only, anywhere in the head
and in any number of such fields. The front end drops the first kind. A field
of the second kind reaches the origin, unless its name is one of those that are
dropped anyway.
-/

namespace Nhop.Proxy.Http

open Foundation Ipc

/-- What a line says behind its colon. -/
def valueOf (field : Text) : Text := ((splitOnce [':'] field).map Prod.snd).getD []

/-- The names that the `Connection` fields list, in small letters. A folded line is
read as the front end reads it: what continues a field is a line of its own. -/
def connectionOptions (headers : Text) : List Text :=
  (((fieldsOf headers).filter fun field => nameOf field == "connection".toList).flatMap fun field =>
    (pieces [','] (valueOf field)).map fun option => asciiLowercase (trimmed option)).filter
      (· != [])

/-- A field is meant for the next hop only. The one that frames the body is not, as
the body keeps its framing. -/
def BelongsToHop (headers field : Text) : Prop :=
  nameOf field ∈ hopByHop ∨
    nameOf field ∈ connectionOptions headers ∧ nameOf field ≠ "transfer-encoding".toList

/-- The fields of a rebuilt head that are the client's: those between the two the
front end writes. -/
def clientFields (headers : Text) : List Text := (fieldsOf headers).tail.dropLast

section dropped

variable {head : List UInt8} {host : Host} {port : Port} {body : Body} {headers field : Text}

theorem passedOn_iff :
    passedOn field = true ↔ nameOf field ≠ "host".toList ∧ nameOf field ∉ hopByHop := by
  simp [passedOn]

/-- Of the fields that are passed on, none belongs to the hop exactly when those that
are declared are dropped anyway. -/
theorem passedOn_belongsToHop_iff :
    (∀ field ∈ (fieldsOf headers).filter passedOn, ¬BelongsToHop headers field) ↔
      ∀ field ∈ fieldsOf headers, nameOf field ∈ connectionOptions headers →
        nameOf field ∈ "host".toList :: "transfer-encoding".toList :: hopByHop := by
  constructor
  · intro hnone field hmem hoption
    by_contra hother
    simp only [List.mem_cons, not_or] at hother
    obtain ⟨hhost, hframing, hhop⟩ := hother
    have hkept : field ∈ (fieldsOf headers).filter passedOn :=
      List.mem_filter.mpr ⟨hmem, passedOn_iff.mpr ⟨hhost, hhop⟩⟩
    exact hnone field hkept (Or.inr ⟨hoption, hframing⟩)
  · intro hdropped field hkept hbelongs
    obtain ⟨hmem, hpassed⟩ := List.mem_filter.mp hkept
    obtain ⟨hhost, hhop⟩ := passedOn_iff.mp hpassed
    rcases hbelongs with hnamed | ⟨hoption, hframing⟩
    · exact hhop hnamed
    · rcases List.mem_cons.mp (hdropped field hmem hoption) with hsame | hlater
      · exact hhost hsame
      · rcases List.mem_cons.mp hlater with hsame | hnamed
        · exact hframing hsame
        · exact hhop hnamed

/-- **No field of one hop reaches the origin** exactly when every field that a
`Connection` field declares is dropped for its name, or frames the body. -/
theorem hopByHop_dropped_iff (h : parseHead head = some ⟨.absolute, host, port, body⟩) :
    (∃ headers rebuilt headers', headersOf head = some headers ∧
      rewritten head host port = some rebuilt ∧ headersOf rebuilt = some headers' ∧
      ∀ field ∈ clientFields headers', ¬BelongsToHop headers field) ↔
      ∀ headers, headersOf head = some headers → ∀ field ∈ fieldsOf headers,
        nameOf field ∈ connectionOptions headers →
          nameOf field ∈ "host".toList :: "transfer-encoding".toList :: hopByHop := by
  obtain ⟨headers, rebuilt, headers', hheaders, hrebuilt, _, hheaders', hfields, _⟩ :=
    rewritten_delimited h
  have hclient : clientFields headers' = (fieldsOf headers).filter passedOn := by
    rw [clientFields, hfields, List.tail_cons, List.dropLast_concat]
  constructor
  · rintro ⟨found, again, read, hfound, hagain, hread, hnone⟩ headers₁ hheaders₁
    obtain rfl := Option.some.inj (hheaders.symm.trans hfound)
    obtain rfl := Option.some.inj (hheaders.symm.trans hheaders₁)
    obtain rfl := Option.some.inj (hrebuilt.symm.trans hagain)
    obtain rfl := Option.some.inj (hheaders'.symm.trans hread)
    rw [hclient] at hnone
    exact passedOn_belongsToHop_iff.mp hnone
  · intro hdropped
    refine ⟨headers, rebuilt, headers', hheaders, hrebuilt, hheaders', ?_⟩
    rw [hclient]
    exact passedOn_belongsToHop_iff.mpr (hdropped headers hheaders)

end dropped

/-- A request that declares nothing but what is dropped for its name. -/
def getUpgraded : List UInt8 :=
  intoBytes "GET http://a/ HTTP/1.1\r\nConnection: Upgrade\r\nUpgrade: h2c\r\nX: 1\r\n\r\n".toList

theorem hopByHop_dropped_getUpgraded :
    ∃ headers rebuilt headers', headersOf getUpgraded = some headers ∧
      rewritten getUpgraded ⟨"a"⟩ 80 = some rebuilt ∧ headersOf rebuilt = some headers' ∧
      ∀ field ∈ clientFields headers', ¬BelongsToHop headers field := by
  have hparse : parseHead getUpgraded = some ⟨.absolute, ⟨"a"⟩, 80, .sized 0⟩ := by decide +kernel
  refine (hopByHop_dropped_iff hparse).mpr fun headers hheaders => ?_
  have hread : headersOf getUpgraded =
      some "Connection: Upgrade\r\nUpgrade: h2c\r\nX: 1\r\n\r\n".toList := by decide +kernel
  obtain rfl := Option.some.inj (hread.symm.trans hheaders)
  decide +kernel

/-- A field that its `Connection` field declares reaches the origin. -/
theorem declared_not_dropped :
    ¬∀ (head : List UInt8) (host : Host) (port : Port) (body : Body),
      parseHead head = some ⟨.absolute, host, port, body⟩ →
      ∃ headers rebuilt headers', headersOf head = some headers ∧
        rewritten head host port = some rebuilt ∧ headersOf rebuilt = some headers' ∧
        ∀ field ∈ clientFields headers', ¬BelongsToHop headers field := by
  intro hall
  let head := intoBytes "GET http://a/ HTTP/1.1\r\nConnection: X-Key\r\nX-Key: 1\r\n\r\n".toList
  have hparse : parseHead head = some ⟨.absolute, ⟨"a"⟩, 80, .sized 0⟩ := by decide +kernel
  obtain ⟨headers, rebuilt, headers', hheaders, hrebuilt, hheaders', hnone⟩ := hall _ _ _ _ hparse
  have hread : headersOf head = some "Connection: X-Key\r\nX-Key: 1\r\n\r\n".toList := by
    decide +kernel
  have hsent : (rewritten head ⟨"a"⟩ 80).bind headersOf =
      some "Host: a\r\nX-Key: 1\r\nConnection: close\r\n\r\n".toList := by decide +kernel
  rw [hrebuilt, Option.bind_some, hheaders'] at hsent
  obtain rfl := Option.some.inj hsent
  obtain rfl := Option.some.inj (hread.symm.trans hheaders)
  refine hnone "X-Key: 1".toList (by decide +kernel) (Or.inr ⟨?_, ?_⟩) <;> decide +kernel

end Nhop.Proxy.Http
