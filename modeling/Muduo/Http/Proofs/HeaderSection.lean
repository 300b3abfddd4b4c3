import Muduo.Http.Proofs.HttpRequest

set_option autoImplicit false

/-! # Where the header section ends

`parse` ends the headers at the first line without a colon. That is the blank line when every line
before it has a colon, and only then. -/

namespace HttpRequest

variable {t : Timestamp} {r : HttpRequest} {buffer line rest left : Bytes} {lines : List Bytes}

/-! ## Sections -/

theorem flatMap_crlf_inj {lines lines' : List Bytes} (hlines : ∀ l ∈ lines, ¬ crlf <:+: l)
    (hlines' : ∀ l ∈ lines', ¬ crlf <:+: l)
    (h : lines.flatMap (· ++ crlf) = lines'.flatMap (· ++ crlf)) : lines = lines' :=
  Delimited.flatMap_append_inj (by decide) hlines hlines' h

theorem flatMap_concat (lines : List Bytes) (line rest : Bytes) :
    lines.flatMap (· ++ crlf) ++ (line ++ crlf ++ rest)
      = (lines ++ [line]).flatMap (· ++ crlf) ++ rest := by
  simp

/-- A request that `parse` accepts has a header section, closed by a line without a colon, and what
    stands behind that line is left. -/
theorem eq_section_of_acceptable (t : Timestamp) (hstate : r.state = .parseHeader)
    (hdown : (r.parse buffer t).2.1.acceptable = true) :
    ∃ (lines : List Bytes) (line : Bytes),
      (∀ l ∈ lines, IsHeaderLine l) ∧ ¬ crlf <:+: line ∧ (58 : Byte) ∉ line ∧
      buffer = lines.flatMap (· ++ crlf) ++ (line ++ crlf ++ (r.parse buffer t).2.2) := by
  induction r, buffer using parse_induction with
  | down r buffer hstate' => exact absurd (hstate.symm.trans hstate') (by simp)
  | noLine r buffer _ hfree =>
      rw [parse_of_no_line t r hfree] at hdown
      simp [acceptable, hstate] at hdown
  | requestLine r r' line rest hline => exact absurd (hstate.symm.trans hline) (by simp)
  | badLine r line rest hline => exact absurd (hstate.symm.trans hline) (by simp)
  | headerLine r line rest _ hline hcolon ih =>
      rw [parse_header_line t rest hstate hline hcolon] at hdown ⊢
      obtain ⟨lines, last, hlines, hlast, hcolon', hrest⟩ := ih hstate hdown
      refine ⟨line :: lines, last, fun l hl => ?_, hlast, hcolon', ?_⟩
      · rcases List.mem_cons.1 hl with rfl | hl
        · exact ⟨hcolon, hline⟩
        · exact hlines l hl
      · rw [List.flatMap_cons, List.append_assoc (line ++ crlf), ← hrest]
  | endLine r line rest _ hline hcolon =>
      rw [parse_end_line t rest hstate hline hcolon]
      exact ⟨[], line, by simp, hline, hcolon, rfl⟩

/-! ## Blank lines -/

/-- `rest` consists of lines that are not empty, the blank line and `left`. -/
def EndsAtBlankLine (rest left : Bytes) : Prop :=
  ∃ lines : List Bytes, (∀ l ∈ lines, l ≠ [] ∧ ¬ crlf <:+: l) ∧
    rest = lines.flatMap (· ++ crlf) ++ (crlf ++ left)

/-- The first complete line without a colon, if there is one, is blank. -/
def ColonlessIsBlank (rest : Bytes) : Prop :=
  ∀ (lines : List Bytes) (line more : Bytes), (∀ l ∈ lines, IsHeaderLine l) → ¬ crlf <:+: line →
    (58 : Byte) ∉ line → rest = lines.flatMap (· ++ crlf) ++ (line ++ crlf ++ more) → line = []

theorem IsHeaderLine.ne_nil (h : IsHeaderLine line) : line ≠ [] := List.ne_nil_of_mem h.1

/-- The line in front of what is left is blank. -/
theorem EndsAtBlankLine.eq_nil (h : EndsAtBlankLine rest left)
    (hlines : ∀ l ∈ lines, ¬ crlf <:+: l) (hline : ¬ crlf <:+: line)
    (hrest : rest = lines.flatMap (· ++ crlf) ++ (line ++ crlf ++ left)) : line = [] := by
  obtain ⟨lines', hlines', hrest'⟩ := h
  have hblank := flatMap_concat lines' [] left
  rw [List.nil_append] at hblank
  rw [hrest, flatMap_concat, hblank, List.append_cancel_right_eq] at hrest'
  have hsame := flatMap_crlf_inj
    (fun l hl => (List.mem_append.1 hl).elim (hlines l) fun h => List.mem_singleton.1 h ▸ hline)
    (fun l hl => (List.mem_append.1 hl).elim (fun h => (hlines' l h).2)
      fun h => List.mem_singleton.1 h ▸ not_crlf_infix_nil) hrest'
  simpa using (List.append_inj' hsame rfl).2

/-- Behind an acceptable request line: a request becomes acceptable only at a blank line, with
    nothing of the header section left in the buffer, if and only if the first line without a colon
    is blank. -/
theorem endsAtBlankLine_iff (t : Timestamp) (hstate : r.state = .parseLine)
    (hline : ¬ crlf <:+: line) (hok : (r.parseLine line).1 = true) (rest : Bytes) :
    ((r.parse (line ++ crlf ++ rest) t).2.1.acceptable = true →
        EndsAtBlankLine rest (r.parse (line ++ crlf ++ rest) t).2.2)
      ↔ ColonlessIsBlank rest := by
  rw [parse_request_line t rest hstate hline (Prod.ext hok rfl)]
  generalize hr : ((r.parseLine line).2.setReceiveTime t).setState .parseHeader = r'
  have hstate' : r'.state = .parseHeader := by
    rw [← hr]
    rfl
  constructor
  · intro hends lines last more hlines hlast hcolon hrest
    have hparse := parse_section t hlines more hstate' hlast hcolon
    rw [← hrest] at hparse
    rw [hparse] at hends
    exact (hends rfl).eq_nil (fun l hl => (hlines l hl).2) hlast hrest
  · intro hblank hdown
    obtain ⟨lines, last, hlines, hlast, hcolon, hrest⟩ := eq_section_of_acceptable t hstate' hdown
    obtain rfl := hblank lines last _ hlines hlast hcolon hrest
    exact ⟨lines, fun l hl => ⟨(hlines l hl).ne_nil, (hlines l hl).2⟩, hrest⟩

theorem endsAtBlankLine_iff_oneHeader :
    ((new.parse (bytes "GET / HTTP/1.1" ++ crlf ++ bytes "Host: a\r\n\r\n") .zero).2.1.acceptable
        = true →
      EndsAtBlankLine (bytes "Host: a\r\n\r\n")
        (new.parse (bytes "GET / HTTP/1.1" ++ crlf ++ bytes "Host: a\r\n\r\n") .zero).2.2)
      ↔ ColonlessIsBlank (bytes "Host: a\r\n\r\n") :=
  endsAtBlankLine_iff .zero rfl (Delimited.pair_not_infix_of_notMem (by decide)) (by decide) _

/-- A header line without a colon makes the request acceptable, and the header line behind it is
    left in the buffer. -/
theorem colonless_header_accepted :
    (new.parse (bytes "GET / HTTP/1.1\r\nfoo\r\nHost: a\r\n\r\n") .zero).2.1.acceptable = true ∧
      ¬ EndsAtBlankLine (bytes "foo\r\nHost: a\r\n\r\n")
        (new.parse (bytes "GET / HTTP/1.1\r\nfoo\r\nHost: a\r\n\r\n") .zero).2.2 := by
  have hparse : new.parse (bytes "GET / HTTP/1.1\r\nfoo\r\nHost: a\r\n\r\n") .zero
      = (true, { new with method := .GET, url := bytes "/", state := .down },
        bytes "Host: a\r\n\r\n") := by
    decide +kernel
  have hrest : bytes "foo\r\nHost: a\r\n\r\n" = ([] : List Bytes).flatMap (· ++ crlf)
      ++ (bytes "foo" ++ crlf ++ bytes "Host: a\r\n\r\n") := by
    decide
  rw [hparse]
  exact ⟨rfl, fun hends => absurd (hends.eq_nil (by simp) (by decide) hrest) (by decide)⟩

end HttpRequest
