import Muduo.Http.Proofs.HeaderValues

set_option autoImplicit false

/-! # Requests on the wire

What a client means and sends, said without the parser: a request without a body is a request line,
header lines that each contain a colon, and a blank line. `ofLines` is what the parser makes of the
lines of such a text, and of those that are left when it has lost the first. -/

namespace Http

/-- The method as it is sent. -/
def Method.text : Method → Bytes
  | .unknown => []
  | .GET => bytes "GET"
  | .HEAD => bytes "HEAD"
  | .POST => bytes "POST"
  | .PUT => bytes "PUT"
  | .DELETE => bytes "DELETE"

/-- The version as it is sent. -/
def Version.text : Version → Bytes
  | .unknown => []
  | .http10 => bytes "HTTP/1.0"
  | .http11 => bytes "HTTP/1.1"
  | .http20 => bytes "HTTP/2.0"

end Http

/-- A well-formed request without a body. -/
structure WireRequest where
  method : Http.Method
  target : Bytes
  version : Http.Version
  /-- The name and the value of each header line. -/
  headers : List (Bytes × Bytes)
  method_known : method ≠ .unknown
  version_known : version ≠ .unknown
  target_space : (32 : Byte) ∉ target
  target_line : ¬ crlf <:+: target
  headers_field : ∀ f ∈ headers, HttpRequest.IsField f

namespace WireRequest

open HttpRequest (lastValue fieldLine headerText)

/-- `method SP target SP version`. -/
def line (w : WireRequest) : Bytes :=
  w.method.text ++ 32 :: (w.target ++ 32 :: w.version.text)

/-- The lines of the request, without the blank line. -/
def lines (w : WireRequest) : List Bytes := w.line :: w.headers.map fieldLine

/-- The bytes of the request. -/
def text (w : WireRequest) : Bytes := headerText w.lines

/-- What the client says under a name: the last value without the white space around it. -/
def header (w : WireRequest) (key : Bytes) : Option Bytes := (lastValue w.headers key).map trim

/-- A request that was read is the one that was sent: the target up to the first question mark is
    the URL, the rest is the query. -/
structure Received (w : WireRequest) (req : HttpRequest) : Prop where
  method : req.method = w.method
  version : req.version = w.version
  url : req.url = w.target.take (w.target.idxOf 63)
  query : req.query = w.target.drop (w.target.idxOf 63)
  headers : ∀ key, HeaderMap.get? req.headers key = w.header key

/-- A name that was not sent has no value. -/
theorem header_eq_none {w : WireRequest} {key : Bytes} (h : key ∉ w.headers.map Prod.fst) :
    w.header key = none := by
  rw [header, Option.map_eq_none_iff, ← Option.not_isSome_iff_eq_none,
    HttpRequest.lastValue_isSome_iff]
  exact h

/-! ## The request line -/

theorem method_text_space (m : Http.Method) : (32 : Byte) ∉ m.text := by
  cases m <;> decide

theorem setMethod_text (r : HttpRequest) {m : Http.Method} (h : m ≠ .unknown) :
    r.setMethod m.text = { r with method := m } := by
  cases m with
  | unknown => exact absurd rfl h
  | GET => rfl
  | HEAD => rfl
  | POST => rfl
  | PUT => rfl
  | DELETE => rfl

theorem not_crlf_infix_method (m : Http.Method) : ¬ crlf <:+: m.text :=
  Delimited.pair_not_infix_of_notMem (by cases m <;> decide)

theorem not_crlf_infix_version (v : Http.Version) : ¬ crlf <:+: v.text :=
  Delimited.pair_not_infix_of_notMem (by cases v <;> decide)

/-- A blank between two texts without a line break makes none. -/
theorem not_crlf_infix_space {left right : Bytes} (hleft : ¬ crlf <:+: left)
    (hright : ¬ crlf <:+: right) : ¬ crlf <:+: left ++ 32 :: right := by
  refine Delimited.pair_not_infix_append hleft ?_ (by simp)
  rw [List.infix_cons_iff, not_or]
  exact ⟨fun hpre => absurd (Delimited.pair_prefix_cons_iff.1 hpre).1 (by decide), hright⟩

theorem line_free (w : WireRequest) : ¬ crlf <:+: w.line :=
  not_crlf_infix_space (not_crlf_infix_method _)
    (not_crlf_infix_space w.target_line (not_crlf_infix_version _))

theorem isHeaderLine_of_mem (w : WireRequest) {l : Bytes} (hl : l ∈ w.headers.map fieldLine) :
    HttpRequest.IsHeaderLine l := by
  obtain ⟨f, hf, rfl⟩ := List.mem_map.1 hl
  exact (w.headers_field f hf).isHeaderLine

end WireRequest

namespace HttpRequest

/-! ## Requests read in one go -/

/-- The request that lines make when the first is read as the request line and the others as
    header lines; `none` when the first is no request line. -/
def ofLines : List Bytes → Option HttpRequest
  | [] => none
  | line :: headers =>
      match new.parseLine line with
      | (true, r) => some ((headers.foldl addLine (r.setState .parseHeader)).setState .down)
      | (false, _) => none

theorem ofLines_eq_some {lines : List Bytes} {req : HttpRequest} (h : ofLines lines = some req) :
    ∃ line headers r, lines = line :: headers ∧ new.parseLine line = (true, r) ∧
      req = (headers.foldl addLine (r.setState .parseHeader)).setState .down := by
  unfold ofLines at h
  split at h
  · exact absurd h (by simp)
  · rename_i line headers
    split at h
    · rename_i r hr
      exact ⟨line, headers, r, rfl, hr, by simpa using h.symm⟩
    · exact absurd h (by simp)

/-- Header lines touch nothing but the map. -/
theorem foldl_addLine_eq (lines : List Bytes) (r : HttpRequest) :
    lines.foldl addLine r = { r with headers := (lines.foldl addLine r).headers } := by
  induction lines generalizing r with
  | nil => rfl
  | cons line lines ih =>
      rw [List.foldl_cons]
      exact ih (r.addLine line)

theorem ofLines_eq_none {lines : List Bytes} (h : ofLines lines = none) :
    lines = [] ∨ ∃ line headers, lines = line :: headers ∧ (new.parseLine line).1 = false := by
  cases lines with
  | nil => exact Or.inl rfl
  | cons line headers =>
      refine Or.inr ⟨line, headers, rfl, ?_⟩
      rw [ofLines] at h
      split at h
      · exact absurd h (by simp)
      · rename_i r hr
        rw [hr]

/-- A text that can stand in the input buffer: lines, of which all but the first have a colon. -/
def IsText (lines : List Bytes) : Prop :=
  (∀ l ∈ lines, ¬ crlf <:+: l) ∧ ∀ l ∈ lines.tail, IsHeaderLine l

theorem isText_of_suffix {lines lines' : List Bytes} (h : IsText lines)
    (hsuffix : lines' <:+ lines) :
    IsText lines' := by
  refine ⟨fun l hl => h.1 l (hsuffix.subset hl), ?_⟩
  intro l hl
  cases lines with
  | nil =>
      rw [List.suffix_nil.1 hsuffix] at hl
      exact absurd hl (by simp)
  | cons line lines =>
      rcases List.suffix_cons_iff.1 hsuffix with rfl | hsuffix
      · exact h.2 l hl
      · exact h.2 l (hsuffix.subset (List.mem_of_mem_tail hl))

theorem isText_lines (w : WireRequest) : IsText w.lines := by
  refine ⟨fun l hl => ?_, fun l hl => w.isHeaderLine_of_mem hl⟩
  rcases List.mem_cons.1 hl with rfl | hl
  · exact w.line_free
  · exact (w.isHeaderLine_of_mem hl).2

/-- `parse` on a text that is there completely. -/
theorem parse_text {lines : List Bytes} {req : HttpRequest} (htext : IsText lines)
    (h : ofLines lines = some req) (t : Timestamp) (rest : Bytes) :
    new.parse (headerText lines ++ rest) t = (true, req.setReceiveTime t, rest) := by
  obtain ⟨line, headers, r, rfl, hr, rfl⟩ := ofLines_eq_some h
  have hlines : ∀ l ∈ headers, IsHeaderLine l := htext.2
  have hheaders := parse_headerText t (r := (r.setReceiveTime t).setState .parseHeader) hlines rest
    rfl
  rw [headerText_cons, List.append_assoc,
    parse_request_line t _ rfl (htext.1 line List.mem_cons_self) hr, hheaders]
  have hcomm : (r.setReceiveTime t).setState .parseHeader
      = (r.setState .parseHeader).setReceiveTime t := rfl
  rw [hcomm, foldl_addLine_setReceiveTime]
  rfl

/-- `parse` on the beginning of a text: the complete lines are gone, and no request is there. -/
theorem parse_partial_text {lines : List Bytes} {req : HttpRequest} (htext : IsText lines)
    (h : ofLines lines = some req) (t : Timestamp) {buffer rest more : Bytes}
    (hbuffer : buffer ++ rest = headerText lines ++ more) (hpart : ¬ headerText lines <+: buffer)
    (hbreak : crlf <:+: buffer) :
    ∃ r, new.parse buffer t = (true, r, (afterLines lines buffer).2) ∧ r.acceptable = false := by
  obtain ⟨line, headers, r, rfl, hr, rfl⟩ := ofLines_eq_some h
  have hline := htext.1 line List.mem_cons_self
  rw [headerText_cons] at hbuffer hpart
  rw [List.append_assoc] at hbuffer
  obtain ⟨left, rfl, hleft⟩ := prefix_of_append_eq hline hbuffer hbreak
  rw [List.prefix_append_right_inj] at hpart
  rw [afterLines, if_pos (List.prefix_append _ _), drop_line, parse_request_line t _ rfl hline hr]
  obtain ⟨r', hparse, hstate⟩ := parse_partial_headerText t htext.2
    (r := (r.setReceiveTime t).setState .parseHeader) rfl hleft hpart
  exact ⟨r', hparse, by simp [acceptable, hstate]⟩

/-- `parse` on a text whose first line is no request line. -/
theorem parse_bad_text {lines : List Bytes} (htext : IsText lines) (h : ofLines lines = none)
    (t : Timestamp) {buffer rest more : Bytes} (hbuffer : buffer ++ rest = headerText lines ++ more)
    (hbreak : crlf <:+: buffer) :
    (new.parse buffer t).1 = false := by
  rcases ofLines_eq_none h with rfl | ⟨line, headers, rfl, hbad⟩
  · obtain ⟨left, rfl, -⟩ := prefix_of_append_eq not_crlf_infix_nil hbuffer hbreak
    rw [parse_bad_line t _ rfl not_crlf_infix_nil rfl]
  · have hline := htext.1 line List.mem_cons_self
    rw [headerText_cons, List.append_assoc] at hbuffer
    obtain ⟨left, rfl, -⟩ := prefix_of_append_eq hline hbuffer hbreak
    rw [parse_bad_line t _ rfl hline hbad]

end HttpRequest
