import Muduo.Http.HttpRequest

set_option autoImplicit false

/-! # What the request parser does to a line

One lemma for each thing a pass of `parse` can meet: a request line, a header line, the line that
ends the headers, and a buffer without a complete line. Later proofs compose these and never unfold
the loop. -/

/-! ## findCRLF -/

theorem findCRLF_append {line : Bytes} (h : ¬ crlf <:+: line) (rest : Bytes) :
    findCRLF (line ++ crlf ++ rest) = some line.length := by
  have hs : Delimited.search crlf (line ++ crlf ++ rest) = line.length :=
    Delimited.search_append (by decide) h rest
  simp only [findCRLF, hs]
  rw [if_neg]
  simp only [List.length_append, crlf, List.length_cons, List.length_nil]
  omega

theorem findCRLF_of_absent {readable : Bytes} (h : ¬ crlf <:+: readable) :
    findCRLF readable = none := by
  simp only [findCRLF, Delimited.search_eq_length h, if_true]

theorem findCRLF_eq_none_iff {readable : Bytes} :
    findCRLF readable = none ↔ ¬ crlf <:+: readable := by
  refine ⟨fun h hbreak => ?_, findCRLF_of_absent⟩
  have hlt := Delimited.search_lt_length (by decide) hbreak
  simp only [findCRLF, ite_eq_left_iff, reduceCtorEq, imp_false, not_not] at h
  omega

/-- A line break found splits the text into a line, the break and the rest. -/
theorem eq_of_findCRLF {readable : Bytes} {cr : Nat} (h : findCRLF readable = some cr) :
    ∃ line rest, readable = line ++ crlf ++ rest ∧ line.length = cr ∧ ¬ crlf <:+: line := by
  have hle := Delimited.search_le_length crlf readable
  simp only [findCRLF, Option.ite_none_left_eq_some, Option.some.injEq] at h
  obtain ⟨hne, rfl⟩ := h
  have hlt : Delimited.search crlf readable < readable.length := by omega
  obtain ⟨rest, hrest, hfree⟩ := Delimited.eq_of_search_lt (by decide) hlt
  exact ⟨_, rest, hrest, by rw [List.length_take]; omega, hfree⟩

@[simp] theorem take_line (line rest : Bytes) : (line ++ crlf ++ rest).take line.length = line := by
  rw [List.append_assoc, List.take_left]

@[simp] theorem drop_line (line rest : Bytes) :
    (line ++ crlf ++ rest).drop (line.length + 2) = rest := by
  have hlen : line.length + 2 = (line ++ crlf).length := by
    simp [crlf]
  rw [hlen, List.drop_left]

/-- A line with its carriage return. -/
theorem take_line_succ (line rest : Bytes) :
    (line ++ crlf ++ rest).take (line.length + 1) = line ++ [13] := by
  have hsplit : line ++ crlf ++ rest = (line ++ [13]) ++ (10 :: rest) := by
    simp [crlf]
  have hlen : line.length + 1 = (line ++ [(13 : Byte)]).length := by
    simp
  rw [hsplit, hlen, List.take_left]

namespace HttpRequest

variable {t : Timestamp} {r r' : HttpRequest} {buffer buffer' line : Bytes}

/-! ## ParseLine

Which fields `ParseLine` sets, to what, and what it returns depends on the line only. -/

/-- The method that a token stands for. -/
def methodOf (m : Bytes) : Http.Method := (new.setMethod m).method

theorem setMethod_eq (r : HttpRequest) (m : Bytes) :
    r.setMethod m = { r with method := methodOf m } := by
  unfold methodOf setMethod
  split_ifs <;> rfl

/-- What `ParseLine` makes of a line: the value returned and the fields set. -/
structure Patch where
  ok : Bool
  method : Option Http.Method
  target : Option Bytes
  version : Option Http.Version

/-- The request with the fields set. -/
def Patch.apply (p : Patch) (r : HttpRequest) : HttpRequest :=
  let r := { r with method := p.method.getD r.method }
  let r := match p.target with
    | some target =>
        if target.idxOf 63 ≠ target.length then
          { r with url := target.take (target.idxOf 63), query := target.drop (target.idxOf 63) }
        else { r with url := target }
    | none => r
  { r with version := p.version.getD r.version }

def Patch.outcome (p : Patch) (r : HttpRequest) : Bool × HttpRequest := (p.ok, p.apply r)

def Patch.ofLine (line : Bytes) : Patch :=
  let space := line.idxOf 32
  if space ≠ line.length then
    let method := methodOf (line.take space)
    if method = .unknown then ⟨false, some method, none, none⟩
    else
      let start := line.drop (space + 1)
      let space := start.idxOf 32
      if space ≠ start.length then
        let target := start.take space
        let start := start.drop (space + 1)
        if start.length = 8 ∧ start.take 5 = bytes "HTTP/" then
          if start.getD 5 0 = 50 then ⟨true, some method, some target, some .http20⟩
          else if start.getD 7 0 = 48 then ⟨true, some method, some target, some .http10⟩
          else if start.getD 7 0 = 49 then ⟨true, some method, some target, some .http11⟩
          else ⟨false, some method, some target, none⟩
        else ⟨false, some method, some target, none⟩
      else ⟨false, some method, none, none⟩
  else ⟨false, none, none, none⟩

theorem Patch.outcome_ite {c : Prop} [Decidable c] {a b : Bool × HttpRequest} {p q : Patch}
    (ha : a = p.outcome r) (hb : b = q.outcome r) :
    (if c then a else b) = (if c then p else q).outcome r := by
  split
  · exact ha
  · exact hb

theorem parseLine_eq (r : HttpRequest) (line : Bytes) :
    r.parseLine line = (Patch.ofLine line).outcome r := by
  simp only [parseLine, setMethod_eq]
  -- one `outcome_ite` for each test of the line, in the order of the source
  exact Patch.outcome_ite (Patch.outcome_ite rfl (Patch.outcome_ite (Patch.outcome_ite
    (Patch.outcome_ite rfl (Patch.outcome_ite rfl (Patch.outcome_ite rfl rfl))) rfl) rfl)) rfl

theorem Patch.apply_again (p : Patch) (r : HttpRequest) : p.apply (p.apply r) = p.apply r := by
  obtain ⟨ok, method, target, version⟩ := p
  cases target with
  | none => cases method <;> cases version <;> rfl
  | some target =>
      simp only [apply]
      split <;> cases method <;> cases version <;> rfl

theorem Patch.apply_setReceiveTime (p : Patch) (r : HttpRequest) (t : Timestamp) :
    p.apply (r.setReceiveTime t) = (p.apply r).setReceiveTime t := by
  obtain ⟨ok, method, target, version⟩ := p
  cases target with
  | none => rfl
  | some target =>
      simp only [apply]
      split <;> rfl

@[simp] theorem Patch.apply_state (p : Patch) (r : HttpRequest) : (p.apply r).state = r.state := by
  obtain ⟨ok, method, target, version⟩ := p
  cases target with
  | none => rfl
  | some target =>
      simp only [apply]
      split <;> rfl

@[simp] theorem parseLine_state (r : HttpRequest) (line : Bytes) :
    (r.parseLine line).2.state = r.state := by
  rw [parseLine_eq, Patch.outcome, Patch.apply_state]

/-- A line that is read again sets what it has set. -/
theorem parseLine_again (r : HttpRequest) (line : Bytes) :
    (r.parseLine line).2.parseLine line = r.parseLine line := by
  simp only [parseLine_eq, Patch.outcome, Patch.apply_again]

theorem parseLine_setReceiveTime (r : HttpRequest) (line : Bytes) (t : Timestamp) :
    (r.setReceiveTime t).parseLine line
      = ((r.parseLine line).1, (r.parseLine line).2.setReceiveTime t) := by
  simp only [parseLine_eq, Patch.outcome, Patch.apply_setReceiveTime]

/-! ## The loop -/

/-- A pass that goes on removes a line and its break. -/
theorem length_of_again (h : parsePass t r buffer = .again r' buffer') :
    buffer'.length + 2 ≤ buffer.length := by
  have hdrop {cr : Nat} (hcr : findCRLF buffer = some cr) :
      (buffer.drop (cr + 2)).length + 2 ≤ buffer.length := by
    obtain ⟨line, rest, rfl, rfl, -⟩ := eq_of_findCRLF hcr
    rw [drop_line]
    simp [crlf]
  unfold parsePass at h
  split at h
  · split at h
    · rename_i cr hcr
      simp only at h
      split at h
      · cases h
        exact hdrop hcr
      · exact absurd h (by simp)
    · exact absurd h (by simp)
  · split at h
    · rename_i cr hcr
      simp only at h
      split at h
      · cases h
        exact hdrop hcr
      · exact absurd h (by simp)
    · exact absurd h (by simp)
  · exact absurd h (by simp)

/-- Fuel beyond the number of readable bytes changes nothing. -/
theorem parseLoop_eq_of_lt {n m : Nat} (hn : buffer.length < n) (hm : buffer.length < m) :
    parseLoop t n r buffer = parseLoop t m r buffer := by
  induction n generalizing m r buffer with
  | zero => omega
  | succ n ih =>
      cases m with
      | zero => omega
      | succ m =>
          simp only [parseLoop]
          cases hpass : parsePass t r buffer with
          | stop ok r' buffer' => rfl
          | again r' buffer' =>
              have hlen := length_of_again hpass
              exact ih (by omega) (by omega)

theorem parse_of_again (h : parsePass t r buffer = .again r' buffer') :
    r.parse buffer t = r'.parse buffer' t := by
  have hlen := length_of_again h
  have hstep : r.parse buffer t = parseLoop t buffer.length r' buffer' := by
    simp only [parse, parseLoop, h]
  rw [hstep]
  exact parseLoop_eq_of_lt (by omega) (by omega)

theorem parse_of_stop {ok : Bool} (h : parsePass t r buffer = .stop ok r' buffer') :
    r.parse buffer t = (ok, r', buffer') := by
  simp only [parse, parseLoop, h]

/-! ## Lines -/

theorem parse_of_down (t : Timestamp) (h : r.state = .down) :
    r.parse buffer t = (true, r, buffer) := by
  apply parse_of_stop
  unfold parsePass
  rw [h]

/-- Without a complete line in the buffer `parse` leaves everything as it is. -/
theorem parse_of_no_line (t : Timestamp) (r : HttpRequest) (h : ¬ crlf <:+: buffer) :
    r.parse buffer t = (true, r, buffer) := by
  apply parse_of_stop
  unfold parsePass
  rw [findCRLF_of_absent h]
  split <;> rfl

theorem parse_request_line (t : Timestamp) (rest : Bytes) (hstate : r.state = .parseLine)
    (hline : ¬ crlf <:+: line) (hok : r.parseLine line = (true, r')) :
    r.parse (line ++ crlf ++ rest) t
      = ((r'.setReceiveTime t).setState .parseHeader).parse rest t := by
  apply parse_of_again
  simp only [parsePass, hstate, findCRLF_append hline, take_line, hok, if_true, drop_line]

/-- A line that is no request line stays in the buffer. -/
theorem parse_bad_line (t : Timestamp) (rest : Bytes) (hstate : r.state = .parseLine)
    (hline : ¬ crlf <:+: line) (hbad : (r.parseLine line).1 = false) :
    r.parse (line ++ crlf ++ rest) t = (false, (r.parseLine line).2, line ++ crlf ++ rest) := by
  apply parse_of_stop
  simp only [parsePass, hstate, findCRLF_append hline, take_line, hbad, Bool.false_eq_true,
    if_false]

/-- What a header line adds to a request. -/
def addLine (r : HttpRequest) (line : Bytes) : HttpRequest :=
  r.addHeader (line ++ [13]) (line.idxOf 58) line.length

theorem parse_header_line (t : Timestamp) (rest : Bytes) (hstate : r.state = .parseHeader)
    (hline : ¬ crlf <:+: line) (hcolon : (58 : Byte) ∈ line) :
    r.parse (line ++ crlf ++ rest) t = (r.addLine line).parse rest t := by
  apply parse_of_again
  have hne : line.idxOf 58 ≠ line.length := Nat.ne_of_lt (List.idxOf_lt_length_of_mem hcolon)
  simp only [parsePass, hstate, findCRLF_append hline, take_line, hne, ne_eq, not_false_eq_true,
    if_true, take_line_succ, drop_line, addLine]

/-- A line without a colon ends the headers. -/
theorem parse_end_line (t : Timestamp) (rest : Bytes) (hstate : r.state = .parseHeader)
    (hline : ¬ crlf <:+: line) (hcolon : (58 : Byte) ∉ line) :
    r.parse (line ++ crlf ++ rest) t = (true, r.setState .down, rest) := by
  apply parse_of_stop
  simp only [parsePass, hstate, findCRLF_append hline, take_line, List.idxOf_eq_length hcolon,
    ne_eq, not_true_eq_false, if_false, drop_line]

/-- The first line decides what `parse` does with a buffer, and the rest is a shorter buffer. -/
@[elab_as_elim] theorem parse_induction {P : HttpRequest → Bytes → Prop}
    (down : ∀ r buffer, r.state = .down → P r buffer)
    (noLine : ∀ r buffer, r.state ≠ .down → ¬ crlf <:+: buffer → P r buffer)
    (requestLine : ∀ (r r' : HttpRequest) line rest, r.state = .parseLine → ¬ crlf <:+: line →
      r.parseLine line = (true, r') →
      (∀ t, P ((r'.setReceiveTime t).setState .parseHeader) rest) → P r (line ++ crlf ++ rest))
    (badLine : ∀ r line rest, r.state = .parseLine → ¬ crlf <:+: line →
      (r.parseLine line).1 = false → P r (line ++ crlf ++ rest))
    (headerLine : ∀ r line rest, r.state = .parseHeader → ¬ crlf <:+: line → (58 : Byte) ∈ line →
      P (r.addLine line) rest → P r (line ++ crlf ++ rest))
    (endLine : ∀ r line rest, r.state = .parseHeader → ¬ crlf <:+: line → (58 : Byte) ∉ line →
      P r (line ++ crlf ++ rest)) (r : HttpRequest) (buffer : Bytes) : P r buffer := by
  induction hn : buffer.length using Nat.strong_induction_on generalizing r buffer with
  | _ n ih =>
      by_cases hdown : r.state = .down
      · exact down r buffer hdown
      cases hcr : findCRLF buffer with
      | none => exact noLine r buffer hdown (findCRLF_eq_none_iff.1 hcr)
      | some cr =>
          obtain ⟨line, rest, rfl, -, hline⟩ := eq_of_findCRLF hcr
          have hshorter : rest.length < n := by
            simp only [List.length_append, crlf, List.length_cons] at hn
            omega
          cases hstate : r.state with
          | down => exact absurd hstate hdown
          | parseLine =>
              cases hok : (r.parseLine line).1 with
              | true =>
                  exact requestLine r _ line rest hstate hline (Prod.ext hok rfl)
                    fun t => ih _ hshorter _ rest rfl
              | false => exact badLine r line rest hstate hline hok
          | parseHeader =>
              by_cases hcolon : (58 : Byte) ∈ line
              · exact headerLine r line rest hstate hline hcolon (ih _ hshorter _ rest rfl)
              · exact endLine r line rest hstate hline hcolon

@[simp] theorem addLine_state (r : HttpRequest) (line : Bytes) :
    (r.addLine line).state = r.state := rfl

@[simp] theorem addLine_setReceiveTime (r : HttpRequest) (line : Bytes) (t : Timestamp) :
    (r.setReceiveTime t).addLine line = (r.addLine line).setReceiveTime t := rfl

@[simp] theorem foldl_addLine_setReceiveTime (lines : List Bytes) (r : HttpRequest)
    (t : Timestamp) :
    lines.foldl addLine (r.setReceiveTime t) = (lines.foldl addLine r).setReceiveTime t := by
  induction lines generalizing r with
  | nil => rfl
  | cons line lines ih => rw [List.foldl_cons, addLine_setReceiveTime, ih, List.foldl_cons]

/-! ## Header sections -/

/-- The header lines and the blank line, as they are sent. -/
def headerText (lines : List Bytes) : Bytes := lines.flatMap (· ++ crlf) ++ crlf

@[simp] theorem headerText_cons (line : Bytes) (lines : List Bytes) :
    headerText (line :: lines) = line ++ crlf ++ headerText lines := by
  simp [headerText]

/-- A header line: it has a colon and no line break in it. -/
def IsHeaderLine (line : Bytes) : Prop := (58 : Byte) ∈ line ∧ ¬ crlf <:+: line

instance (line : Bytes) : Decidable (IsHeaderLine line) :=
  inferInstanceAs (Decidable ((58 : Byte) ∈ line ∧ ¬ crlf <:+: line))

theorem not_crlf_infix_nil : ¬ crlf <:+: ([] : Bytes) := by
  rw [List.infix_nil]
  decide

/-- `parse` takes header lines one by one. -/
theorem parse_lines (t : Timestamp) {lines : List Bytes} (hlines : ∀ l ∈ lines, IsHeaderLine l)
    (rest : Bytes) (hstate : r.state = .parseHeader) :
    r.parse (lines.flatMap (· ++ crlf) ++ rest) t = (lines.foldl addLine r).parse rest t := by
  induction lines generalizing r with
  | nil => rfl
  | cons line lines ih =>
      have hline := hlines line List.mem_cons_self
      rw [List.flatMap_cons, List.append_assoc, parse_header_line t _ hstate hline.2 hline.1,
        List.foldl_cons]
      exact ih (r := r.addLine line) (fun l hl => hlines l (List.mem_cons_of_mem _ hl)) hstate

@[simp] theorem foldl_addLine_state (lines : List Bytes) (r : HttpRequest) :
    (lines.foldl addLine r).state = r.state := by
  induction lines generalizing r with
  | nil => rfl
  | cons line lines ih => rw [List.foldl_cons, ih, addLine_state]

/-- `parse` takes a whole header section, up to the first line without a colon. -/
theorem parse_section (t : Timestamp) {lines : List Bytes} (hlines : ∀ l ∈ lines, IsHeaderLine l)
    (rest : Bytes) (hstate : r.state = .parseHeader) (hline : ¬ crlf <:+: line)
    (hcolon : (58 : Byte) ∉ line) :
    r.parse (lines.flatMap (· ++ crlf) ++ (line ++ crlf ++ rest)) t
      = (true, (lines.foldl addLine r).setState .down, rest) := by
  rw [parse_lines t hlines _ hstate]
  exact parse_end_line t rest ((foldl_addLine_state lines r).trans hstate) hline hcolon

theorem parse_headerText (t : Timestamp) {lines : List Bytes} (hlines : ∀ l ∈ lines, IsHeaderLine l)
    (rest : Bytes) (hstate : r.state = .parseHeader) :
    r.parse (headerText lines ++ rest) t
      = (true, (lines.foldl addLine r).setState .down, rest) := by
  have hblank := parse_section t hlines rest hstate not_crlf_infix_nil (by simp)
  rwa [List.nil_append, ← List.append_assoc] at hblank

/-- A buffer that starts a text and holds a complete line holds the first line of the text. -/
theorem prefix_of_append_eq {rest more : Bytes} (hline : ¬ crlf <:+: line)
    (htext : buffer ++ rest = line ++ crlf ++ more) (hbreak : crlf <:+: buffer) :
    ∃ left, buffer = line ++ crlf ++ left ∧ left ++ rest = more := by
  rcases List.prefix_or_prefix_of_prefix (htext ▸ List.prefix_append buffer rest)
    (List.prefix_append (line ++ crlf) more) with hshort | ⟨left, rfl⟩
  · -- a proper beginning of the line and its break lacks at least the line feed
    have hfree : ¬ crlf <:+: line ++ [13] :=
      Delimited.pair_not_infix_append hline (by decide) (by simp)
    have hsplit : line ++ crlf = (line ++ [13]) ++ [10] := by
      simp [crlf]
    rw [hsplit, List.prefix_concat_iff] at hshort
    rcases hshort with rfl | hshort
    · exact ⟨[], by simp [crlf], by simpa [crlf] using htext⟩
    · exact absurd (hbreak.trans hshort.isInfix) hfree
  · exact ⟨left, rfl, by simpa using htext⟩

/-- The lines of a text that are not yet in `unread`, and the bytes of `unread` behind the lines
    that are. -/
def afterLines : (lines : List Bytes) → (unread : Bytes) → List Bytes × Bytes
  | [], unread => ([], unread)
  | line :: lines, unread =>
      if line ++ crlf <+: unread then afterLines lines (unread.drop (line.length + 2))
      else (line :: lines, unread)

theorem afterLines_suffix (lines : List Bytes) (unread : Bytes) :
    (afterLines lines unread).1 <:+ lines := by
  induction lines generalizing unread with
  | nil => exact List.suffix_refl _
  | cons line lines ih =>
      rw [afterLines]
      split
      · exact (ih _).trans (List.suffix_cons _ _)
      · exact List.suffix_refl _

/-- Behind the lines that have arrived stands the beginning of the others. -/
theorem afterLines_append_eq {lines : List Bytes} {unread rest more : Bytes}
    (h : unread ++ rest = headerText lines ++ more) :
    (afterLines lines unread).2 ++ rest = headerText (afterLines lines unread).1 ++ more := by
  induction lines generalizing unread with
  | nil => exact h
  | cons line lines ih =>
      rw [afterLines]
      split
      · rename_i hpre
        obtain ⟨left, rfl⟩ := hpre
        rw [headerText_cons, List.append_assoc, List.append_assoc (line ++ crlf),
          List.append_cancel_left_eq] at h
        rw [drop_line]
        exact ih h
      · exact h

/-- `parse` takes the complete lines of a header section that has not arrived completely. -/
theorem parse_partial_headerText (t : Timestamp) {lines : List Bytes}
    (hlines : ∀ l ∈ lines, IsHeaderLine l) {more rest : Bytes} (hstate : r.state = .parseHeader)
    (hbuffer : buffer ++ rest = headerText lines ++ more) (hpart : ¬ headerText lines <+: buffer) :
    ∃ r', r.parse buffer t = (true, r', (afterLines lines buffer).2) ∧ r'.state = .parseHeader := by
  induction lines generalizing r buffer with
  | nil =>
      refine ⟨r, parse_of_no_line t r fun hbreak => ?_, hstate⟩
      obtain ⟨left, rfl, -⟩ := prefix_of_append_eq not_crlf_infix_nil hbuffer hbreak
      exact hpart (List.prefix_append _ _)
  | cons line lines ih =>
      have hline := hlines line List.mem_cons_self
      have hrest : ∀ l ∈ lines, IsHeaderLine l := fun l hl => hlines l (List.mem_cons_of_mem _ hl)
      rw [headerText_cons] at hbuffer hpart
      rw [List.append_assoc] at hbuffer
      by_cases hbreak : crlf <:+: buffer
      · obtain ⟨left, rfl, hleft⟩ := prefix_of_append_eq hline.2 hbuffer hbreak
        rw [List.prefix_append_right_inj] at hpart
        rw [afterLines, if_pos (List.prefix_append _ _), drop_line,
          parse_header_line t _ hstate hline.2 hline.1]
        exact ih (r := r.addLine line) hrest hstate hleft hpart
      · rw [afterLines, if_neg fun hpre => hbreak ((List.suffix_append line crlf).isInfix.trans
          hpre.isInfix)]
        exact ⟨r, parse_of_no_line t r hbreak, hstate⟩

end HttpRequest
