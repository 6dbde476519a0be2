import Nhop.Foundation.Utf8
import Nhop.Proxy.Http.Rewriting
import Nhop.Proxy.Http.Serve

/-!
What the origin receives for the fields of a request.

A rebuilt head is one head: whatever bytes the request line, the host and the
fields hold, the first blank line in it is at its end. Its fields are the `Host`
that was regenerated, those of the request that are passed on, in order and as
they came, and `Connection: close`; so that the body is framed as the client
framed it.
-/

namespace Nhop.Proxy.Http

open Foundation Ipc

/-! ### Bytes -/

theorem intoBytes_eq (text : Text) : intoBytes text = text.flatMap String.utf8EncodeChar := by
  simp [intoBytes, List.utf8Encode]

theorem intoBytes_append (text more : Text) :
    intoBytes (text ++ more) = intoBytes text ++ intoBytes more := by
  rw [intoBytes_eq, intoBytes_eq, intoBytes_eq, List.flatMap_append]

theorem headEnd_intoBytes (text : Text) :
    headEnd (intoBytes text) =
      (splitOnce (crlf ++ crlf) text).map fun split => (intoBytes split.1).length + 4 := by
  have hblank : blankLine = (crlf ++ crlf).map byteOf := by decide
  have hmarked : ∀ c ∈ crlf ++ crlf, OneByte c := by simp [crlf, OneByte]
  rw [headEnd, intoBytes_eq, hblank,
    marks_utf8.splitOnce_eq utf8EncodeChar_ne_nil hmarked (by simp [crlf]), Option.map_map]
  congr 1
  funext split
  simp [intoBytes_eq, crlf]

/-! ### Fields -/

/-- The lines that have a colon. -/
def fieldsOf (headers : Text) : List Text := (pieces crlf headers).filter (·.contains ':')

/-- What a line names before its colon, without blanks and in small letters. -/
def nameOf (field : Text) : Text :=
  asciiLowercase (trimmed (((splitOnce [':'] field).map Prod.fst).getD field))

/-- A field that a hop passes on. -/
def passedOn (field : Text) : Bool :=
  !(nameOf field == "host".toList || hopByHop.contains (nameOf field))

/-- The fields behind the request line of a head. -/
def headersOf (head : List UInt8) : Option Text :=
  (fromUtf8 head).bind fun text => (splitOnce crlf text).map Prod.snd

section fields

variable {lines more : List Text} {line name field value headers : Text}

theorem contains_colon (line : Text) : line.contains ':' = (splitOnce [':'] line).isSome := by
  cases hsplit : splitOnce [':'] line with
  | none =>
      have hcolon := splitOnce_singleton_eq_none.mp hsplit
      simpa using hcolon
  | some split =>
      rw [append_of_splitOnce hsplit]
      simp

theorem nameOf_eq (h : splitOnce [':'] line = some (field, value)) :
    nameOf line = asciiLowercase (trimmed field) := by
  rw [nameOf, h]
  rfl

/-- The kept fields are those that are passed on, each on a line of its own. -/
theorem keptFields_eq (lines : List Text) :
    keptFields lines = joined crlf ((lines.filter (·.contains ':')).filter passedOn) := by
  induction lines with
  | nil => rfl
  | cons line lines ih =>
      unfold keptFields
      cases hsplit : splitOnce [':'] line with
      | none => rw [List.filter_cons_of_neg (by rw [contains_colon, hsplit]; simp), ih]
      | some split =>
          obtain ⟨label, value⟩ := split
          have hname := nameOf_eq hsplit
          rw [List.filter_cons_of_pos (by rw [contains_colon, hsplit]; rfl)]
          simp only [← hname]
          split_ifs with hdropped
          · rw [List.filter_cons_of_neg (by simpa [passedOn, or_iff_not_imp_left] using hdropped), ih]
          · rw [List.filter_cons_of_pos (by simpa [passedOn] using hdropped), ih, joined_cons]

theorem headerIn_cons (line : Text) (lines : List Text) (name : Text) :
    headerIn (line :: lines) name =
      match splitOnce [':'] line with
      | none => headerIn lines name
      | some (_, value) =>
          if nameOf line = asciiLowercase name then some (trimmed value)
          else headerIn lines name := by
  conv => lhs; unfold headerIn
  cases hsplit : splitOnce [':'] line with
  | none => rfl
  | some split => rw [nameOf_eq hsplit]

theorem headerIn_append (lines more : List Text) (name : Text) :
    headerIn (lines ++ more) name = (headerIn lines name).or (headerIn more name) := by
  induction lines with
  | nil => rfl
  | cons line lines ih =>
      rw [List.cons_append, headerIn_cons, headerIn_cons, ih]
      cases splitOnce [':'] line with
      | none => rfl
      | some split =>
          simp only
          split_ifs <;> rfl

/-- Leaving fields of other names out does not matter. -/
theorem headerIn_filter {keeps : Text → Bool}
    (h : ∀ line ∈ lines, line.contains ':' = true → nameOf line = asciiLowercase name →
      keeps line = true) :
    headerIn (lines.filter keeps) name = headerIn lines name := by
  induction lines with
  | nil => rfl
  | cons line lines ih =>
      have hrest := ih fun line hmem => h line (List.mem_cons_of_mem _ hmem)
      have hline := h line (List.mem_cons_self ..)
      rw [contains_colon] at hline
      cases hkeeps : keeps line with
      | true => rw [List.filter_cons_of_pos hkeeps, headerIn_cons, headerIn_cons, hrest]
      | false =>
          rw [List.filter_cons_of_neg (by simp [hkeeps]), hrest, headerIn_cons]
          cases hsplit : splitOnce [':'] line with
          | none => rfl
          | some split =>
              have hname : nameOf line ≠ asciiLowercase name := by
                intro hname
                rw [hline (by rw [hsplit]; rfl) hname] at hkeeps
                cases hkeeps
              simp only [hname, if_false]

theorem headerIn_cons_of_ne (h : nameOf line ≠ asciiLowercase name) :
    headerIn (line :: lines) name = headerIn lines name := by
  rw [headerIn_cons]
  cases splitOnce [':'] line with
  | none => rfl
  | some split => simp only [h, if_false]

end fields

/-! ### The rebuilt head -/

section rebuilt

variable {head : List UInt8} {host : Host} {port : Port} {body : Body}
  {line headers method target version authority : Text}

/-- The fields of a rebuilt head. -/
def rebuiltFields (headers : Text) (host : Host) (port : Port) : List Text :=
  hostLine host port :: ((fieldsOf headers).filter passedOn ++ [closeLine])

/-- The lines of a rebuilt head are not empty, and each is one line. -/
theorem Reads.oneLine_rebuilt
    (h : Reads head host port line headers method target version authority) :
    ∀ line ∈ requestLine method target :: rebuiltFields headers host port,
      OneLine line ∧ line ≠ [] := by
  intro line hmem
  rcases List.mem_cons.mp hmem with rfl | hmem
  · exact ⟨h.oneLine_requestLine, by rw [requestLine_eq]; simp⟩
  · rcases List.mem_cons.mp hmem with rfl | hmem
    · exact ⟨h.oneLine_hostLine, by rw [hostLine_eq]; simp⟩
    · rcases List.mem_append.mp hmem with hkept | hclose
      · have hfield : line ∈ fieldsOf headers := List.mem_of_mem_filter hkept
        obtain ⟨hpiece, hcolon⟩ := List.mem_filter.mp hfield
        refine ⟨pieces_notInfix (by simp [crlf]) line hpiece, ?_⟩
        rintro rfl
        cases hcolon
      · obtain rfl : line = closeLine := by simpa using hclose
        exact ⟨oneLine_of_notMem (by decide), by decide⟩

theorem Reads.rewritten_eq_joined
    (h : Reads head host port line headers method target version authority) :
    rewritten head host port = some (intoBytes (requestLine method target ++ crlf ++
      (joined crlf (rebuiltFields headers host port) ++ crlf))) := by
  rw [h.rewritten_eq, keptFields_eq, rebuiltFields, joined_cons, joined_append, joined_cons,
    joined_nil, List.append_nil, List.append_assoc (hostLine host port ++ crlf),
    List.append_assoc (joined _ _)]
  rfl

theorem Reads.headersOf_eq
    (h : Reads head host port line headers method target version authority) :
    headersOf head = some headers := by
  simp only [headersOf, h.text, h.split, Option.bind_some, Option.map_some]

theorem headersOf_intoBytes (h : OneLine line) :
    headersOf (intoBytes (line ++ crlf ++ headers)) = some headers := by
  have hsplit : splitOnce crlf (line ++ crlf ++ headers) = some (line, headers) :=
    splitOnce_pair (by decide) h
  simp only [headersOf, fromUtf8_intoBytes, hsplit, Option.bind_some, Option.map_some]

theorem fieldsOf_joined {fields : List Text} (h : ∀ field ∈ fields, OneLine field) :
    fieldsOf (joined crlf fields ++ crlf) = fields.filter (·.contains ':') := by
  have hblank : pieces crlf crlf = [[], []] := by decide
  rw [fieldsOf, crlf, pieces_joined (by decide) h, ← crlf, hblank, List.filter_append]
  simp

/-- Every field that is passed on has a colon, and so have those that are added. -/
theorem filter_rebuiltFields (headers : Text) (host : Host) (port : Port) :
    (rebuiltFields headers host port).filter (·.contains ':') = rebuiltFields headers host port := by
  rw [List.filter_eq_self]
  intro field hmem
  rcases List.mem_cons.mp hmem with rfl | hmem
  · rw [hostLine_eq]
    simp
  · rcases List.mem_append.mp hmem with hkept | hclose
    · exact (List.mem_filter.mp (List.mem_of_mem_filter hkept)).2
    · obtain rfl : field = closeLine := by simpa using hclose
      decide

/-- Of a name that is passed on, the rebuilt fields say what the request's say. -/
theorem headerIn_rebuiltFields {name : Text} (hhost : asciiLowercase name ≠ "host".toList)
    (hhop : asciiLowercase name ∉ hopByHop) :
    headerIn (rebuiltFields headers host port) name = header headers name := by
  have hhostLine : nameOf (hostLine host port) ≠ asciiLowercase name := by
    have hname : nameOf (hostLine host port) = "host".toList := by
      rw [hostLine_eq, nameOf_eq (splitOnce_singleton (by decide))]
      decide
    rw [hname]
    exact hhost.symm
  have hclose : nameOf closeLine ≠ asciiLowercase name := by
    have hname : nameOf closeLine = "connection".toList := by decide
    rw [hname]
    rintro heq
    apply hhop
    rw [← heq]
    decide
  have hpassed : headerIn ((fieldsOf headers).filter passedOn) name =
      headerIn (fieldsOf headers) name := by
    refine headerIn_filter fun line _ _ hname => ?_
    simp only [passedOn, hname, Bool.not_eq_true', Bool.or_eq_false_iff, beq_eq_false_iff_ne]
    exact ⟨hhost, by simpa using hhop⟩
  have hfields : headerIn (fieldsOf headers) name = header headers name :=
    headerIn_filter fun _ _ hcolon _ => hcolon
  rw [rebuiltFields, headerIn_cons_of_ne hhostLine, headerIn_append, headerIn_cons_of_ne hclose,
    hpassed, hfields]
  exact Option.or_none

theorem bodyOf_joined (h : ∀ field ∈ rebuiltFields headers host port, OneLine field) :
    bodyOf (joined crlf (rebuiltFields headers host port) ++ crlf) = bodyOf headers := by
  have hheader {name : Text} (hhost : asciiLowercase name ≠ "host".toList)
      (hhop : asciiLowercase name ∉ hopByHop) :
      header (joined crlf (rebuiltFields headers host port) ++ crlf) name = header headers name := by
    have hfields : header (joined crlf (rebuiltFields headers host port) ++ crlf) name =
        headerIn (fieldsOf (joined crlf (rebuiltFields headers host port) ++ crlf)) name :=
      (headerIn_filter fun _ _ hcolon _ => hcolon).symm
    rw [hfields, fieldsOf_joined h, filter_rebuiltFields, headerIn_rebuiltFields hhost hhop]
  unfold bodyOf
  rw [hheader (by decide) (by decide), hheader (by decide) (by decide)]

/-- **The rebuilt head is one head**, of the fields that are passed on, and frames the
body as the request does. -/
theorem rewritten_delimited (h : parseHead head = some ⟨.absolute, host, port, body⟩) :
    ∃ headers rebuilt headers', headersOf head = some headers ∧
      rewritten head host port = some rebuilt ∧ headEnd rebuilt = some rebuilt.length ∧
      headersOf rebuilt = some headers' ∧
      fieldsOf headers' = hostLine host port :: ((fieldsOf headers).filter passedOn ++ [closeLine]) ∧
      bodyOf headers' = bodyOf headers := by
  obtain ⟨line, headers, method, target, version, authority, hreads⟩ := reads_of_parseHead h
  have hlines := hreads.oneLine_rebuilt
  have hfields : ∀ field ∈ rebuiltFields headers host port, OneLine field := fun field hmem =>
    (hlines field (List.mem_cons_of_mem _ hmem)).1
  refine ⟨headers, _, _, hreads.headersOf_eq, hreads.rewritten_eq_joined, ?_,
    headersOf_intoBytes hreads.oneLine_requestLine, ?_, bodyOf_joined hfields⟩
  · have htext : requestLine method target ++ crlf ++
        (joined crlf (rebuiltFields headers host port) ++ crlf) =
          joined crlf (requestLine method target :: rebuiltFields headers host port) ++ crlf := by
      rw [joined_cons, List.append_assoc _ (joined _ _)]
    obtain ⟨before, hbefore⟩ := splitOnce_joined (by decide) (List.cons_ne_nil _ _) hlines
    have hbefore : splitOnce (crlf ++ crlf) (joined crlf
        (requestLine method target :: rebuiltFields headers host port) ++ crlf) =
          some (before, []) := hbefore
    have happend := append_of_splitOnce hbefore
    have hblank : (intoBytes (crlf ++ crlf)).length = 4 := by decide +kernel
    rw [htext, headEnd_intoBytes, hbefore, happend, List.append_nil, intoBytes_append,
      List.length_append, hblank]
    rfl
  · rw [fieldsOf_joined hfields, filter_rebuiltFields]
    rfl

end rebuilt

/-- A request whose fields are of every kind: regenerated, dropped and passed on. -/
def postOfAll : List UInt8 :=
  intoBytes "POST http://a/ HTTP/1.1\r\nHost: b\r\nTE: gzip\r\nContent-Length: 3\r\n\r\n".toList

theorem rewritten_delimited_postOfAll :
    ∃ headers rebuilt headers', headersOf postOfAll = some headers ∧
      rewritten postOfAll ⟨"a"⟩ 80 = some rebuilt ∧ headEnd rebuilt = some rebuilt.length ∧
      headersOf rebuilt = some headers' ∧
      fieldsOf headers' =
        hostLine ⟨"a"⟩ 80 :: ((fieldsOf headers).filter passedOn ++ [closeLine]) ∧
      bodyOf headers' = bodyOf headers := by
  have hparse : parseHead postOfAll = some ⟨.absolute, ⟨"a"⟩, 80, .sized 3⟩ := by decide +kernel
  exact rewritten_delimited hparse

end Nhop.Proxy.Http
