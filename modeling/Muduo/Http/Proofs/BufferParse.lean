import Muduo.Http.BufferParse
import Muduo.Http.HttpServer
import Muduo.Http.Proofs.HttpRequest
import Muduo.Net.Proofs.Buffer

set_option autoImplicit false

/-! # parse ends, and takes whole lines

A pass of the loop on a buffer does what the pass on the readable bytes does, so the loop ends with
what `parse` computes. -/

open Storage

variable {b : Buffer}

theorem findCRLF_buffer (h : b.InRange) :
    b.findCRLF = (findCRLF b.readable).map (b.readerIndex + ·) := by
  have hlength := h.length_readable
  have hreader := h.reader
  simp only [Buffer.readableBytes] at hlength
  have hend : b.readerIndex + Delimited.search crlf b.readable = b.writerIndex ↔
      Delimited.search crlf b.readable = b.readable.length := by omega
  simp only [Buffer.findCRLF, findCRLF, hend]
  split <;> rfl

/-- A line break found lies inside the readable bytes. -/
theorem findCRLF_le {readable : Bytes} {cr : Nat} (h : findCRLF readable = some cr) :
    cr + 2 ≤ readable.length := by
  obtain ⟨line, rest, rfl, rfl, -⟩ := eq_of_findCRLF h
  simp [crlf]

theorem slice_readable (h : b.InRange) {n : Nat} (hn : n ≤ b.readable.length) :
    slice b.buffer b.readerIndex (b.readerIndex + n) = b.readable.take n := by
  have hlength := h.length_readable
  have hreader := h.reader
  simp only [Buffer.readableBytes] at hlength
  rw [Buffer.readable, take_slice _ _ _ _ (by omega)]

theorem readable_retrieveUntil (h : b.InRange) (n : Nat) :
    (b.retrieveUntil (b.readerIndex + n)).InRange ∧
      (b.retrieveUntil (b.readerIndex + n)).readable = b.readable.drop n := by
  rw [Buffer.retrieveUntil, Nat.add_sub_cancel_left]
  exact ⟨Buffer.inRange_retrieve h n, Buffer.readable_retrieve h n⟩

namespace HttpRequest

variable {t : Timestamp} {r r' : HttpRequest} {b' : Buffer} {ok : Bool}

/-- A pass on a buffer does on the readable bytes what `parsePass` does. -/
inductive Agrees : BufferPass → Pass → Prop
  | again {r : HttpRequest} {b : Buffer} (h : b.InRange) : Agrees (.again r b) (.again r b.readable)
  | stop {ok : Bool} {r : HttpRequest} {b : Buffer} (h : b.InRange) :
      Agrees (.stop ok r b) (.stop ok r b.readable)

theorem parseBufferPass_agrees (t : Timestamp) (r : HttpRequest) (h : b.InRange) :
    Agrees (parseBufferPass t r b) (parsePass t r b.readable) := by
  have hfound := findCRLF_buffer h
  unfold parseBufferPass parsePass
  cases hstate : r.state with
  | down => exact .stop h
  | parseLine =>
      cases hcr : findCRLF b.readable with
      | none =>
          rw [hcr] at hfound
          simp only [hfound, Option.map_none]
          exact .stop h
      | some cr =>
          rw [hcr, Option.map_some] at hfound
          obtain ⟨hrange, hdrop⟩ := readable_retrieveUntil h (cr + 2)
          have hle := findCRLF_le hcr
          simp only [hfound, slice_readable h (show cr ≤ b.readable.length by omega)]
          split
          · rw [Nat.add_assoc, ← hdrop]
            exact .again hrange
          · exact .stop h
  | parseHeader =>
      cases hcr : findCRLF b.readable with
      | none =>
          rw [hcr] at hfound
          simp only [hfound, Option.map_none]
          exact .stop h
      | some cr =>
          rw [hcr, Option.map_some] at hfound
          obtain ⟨hrange, hdrop⟩ := readable_retrieveUntil h (cr + 2)
          have hle := findCRLF_le hcr
          simp only [hfound, slice_readable h (show cr ≤ b.readable.length by omega), Nat.add_assoc,
            slice_readable h (show cr + 1 ≤ b.readable.length by omega), Nat.add_sub_cancel_left,
            ne_eq, Nat.add_left_cancel_iff]
          split
          · rw [← hdrop]
            exact .again hrange
          · rw [← hdrop]
            exact .stop hrange

/-- The loop ends, with what `parse` computes from the readable bytes. -/
theorem parses_parse (t : Timestamp) (r : HttpRequest) (h : b.InRange) :
    ∃ b', Parses t r b ((r.parse b.readable t).1, (r.parse b.readable t).2.1, b') ∧ b'.InRange ∧
      b'.readable = (r.parse b.readable t).2.2 := by
  induction hn : b.readable.length using Nat.strong_induction_on generalizing r b with
  | _ n ih =>
      have hagrees := parseBufferPass_agrees t r h
      generalize hpass : parseBufferPass t r b = pass at hagrees
      generalize hpass' : parsePass t r b.readable = pass' at hagrees
      cases hagrees with
      | @again r₁ b₁ hrange =>
          have hshorter := length_of_again hpass'
          obtain ⟨b', hparses, hrange', hreadable⟩ := ih b₁.readable.length (by omega) r₁ hrange rfl
          rw [parse_of_again hpass']
          exact ⟨b', .again hpass hparses, hrange', hreadable⟩
      | @stop ok r₁ b₁ hrange =>
          rw [parse_of_stop hpass']
          exact ⟨b₁, .stop hpass, hrange, rfl⟩

/-- There is one result. -/
theorem Parses.unique {result result' : Bool × HttpRequest × Buffer} (h : Parses t r b result)
    (h' : Parses t r b result') : result = result' := by
  induction h with
  | stop hpass =>
      cases h' with
      | stop hpass' =>
          obtain ⟨rfl, rfl, rfl⟩ := by simpa using hpass.symm.trans hpass'
          rfl
      | again hpass' => exact absurd (hpass.symm.trans hpass') (by simp)
  | again hpass _ ih =>
      cases h' with
      | stop hpass' => exact absurd (hpass.symm.trans hpass') (by simp)
      | again hpass' hrest =>
          obtain ⟨rfl, rfl⟩ := by simpa using hpass.symm.trans hpass'
          exact ih hrest

/-! ## Lines -/

/-- `parse` removes complete lines from the front. -/
def TakesLines (buffer : Bytes) (left : Bytes) : Prop :=
  ∃ lines : List Bytes, (∀ l ∈ lines, ¬ crlf <:+: l) ∧ buffer = lines.flatMap (· ++ crlf) ++ left

theorem TakesLines.refl (buffer : Bytes) : TakesLines buffer buffer := ⟨[], by simp, by simp⟩

theorem TakesLines.cons {line rest left : Bytes} (hline : ¬ crlf <:+: line)
    (h : TakesLines rest left) : TakesLines (line ++ crlf ++ rest) left := by
  obtain ⟨lines, hlines, rfl⟩ := h
  refine ⟨line :: lines, fun l hl => ?_, by simp⟩
  rcases List.mem_cons.1 hl with rfl | hl
  · exact hline
  · exact hlines l hl

/-- What `parse` leaves of a buffer. -/
structure Leaves (r : HttpRequest) (buffer : Bytes) (result : Bool × HttpRequest × Bytes) :
    Prop where
  lines : TakesLines buffer result.2.2
  /-- A complete line stays only behind the headers, or when it is no request line. -/
  unread : crlf <:+: result.2.2 → result.2.1.state = .down ∨ result.1 = false
  accepted : r.state ≠ .parseLine → result.1 = true
  rejected : result.1 = false → result.2.2 = buffer ∧ result.2.1.state = .parseLine

/-- Behind a line that has been taken nothing is rejected. -/
theorem Leaves.cons {line rest : Bytes} {result : Bool × HttpRequest × Bytes}
    (hline : ¬ crlf <:+: line) (h : Leaves r' rest result) (hstate : r'.state ≠ .parseLine) :
    Leaves r (line ++ crlf ++ rest) result where
  lines := h.lines.cons hline
  unread := h.unread
  accepted _ := h.accepted hstate
  rejected hbad := absurd (h.accepted hstate) (by simp [hbad])

theorem parse_leaves (t : Timestamp) (r : HttpRequest) (buffer : Bytes) :
    Leaves r buffer (r.parse buffer t) := by
  induction r, buffer using parse_induction with
  | down r buffer hdown =>
      rw [parse_of_down t hdown]
      exact ⟨.refl _, fun _ => Or.inl hdown, fun _ => rfl, by simp⟩
  | noLine r buffer _ hfree =>
      rw [parse_of_no_line t r hfree]
      exact ⟨.refl _, fun hbreak => absurd hbreak hfree, fun _ => rfl, by simp⟩
  | requestLine r r' line rest hstate hline hok ih =>
      rw [parse_request_line t rest hstate hline hok]
      exact (ih t).cons hline (by simp [setState])
  | badLine r line rest hstate hline hbad =>
      rw [parse_bad_line t rest hstate hline hbad]
      exact ⟨.refl _, fun _ => Or.inr rfl, fun hnot => absurd hstate hnot,
        fun _ => ⟨rfl, (parseLine_state r line).trans hstate⟩⟩
  | headerLine r line rest hstate hline hcolon ih =>
      rw [parse_header_line t rest hstate hline hcolon]
      exact ih.cons hline (by simp [hstate])
  | endLine r line rest hstate hline hcolon =>
      rw [parse_end_line t rest hstate hline hcolon]
      exact ⟨(TakesLines.refl _).cons hline, fun _ => Or.inl rfl, fun _ => rfl, by simp⟩

/-- A pass that goes on removes two bytes at least, and the buffer stays in range. -/
theorem readableBytes_of_again (h : b.InRange) (hpass : parseBufferPass t r b = .again r' b') :
    b'.InRange ∧ b'.readableBytes + 2 ≤ b.readableBytes := by
  have hagrees := parseBufferPass_agrees t r h
  rw [hpass] at hagrees
  generalize hpass' : parsePass t r b.readable = pass' at hagrees
  cases hagrees with
  | again hrange =>
      have hshorter := length_of_again hpass'
      rw [hrange.length_readable, h.length_readable] at hshorter
      exact ⟨hrange, hshorter⟩

theorem acceptable_of_parseLine (hstate : r.state = .parseLine) : r.acceptable = false := by
  simp [acceptable, hstate]

/-- `OnMessage` hands no rejected request to `HttpCallback_`. -/
theorem request?_of_rejected {buf : Bytes} (hbad : (new.parse buf t).1 = false)
    (httpCallback : HttpRequest → HttpResponse → HttpResponse) (iterate : HeaderMap → HeaderMap) :
    (HttpServer.onMessage httpCallback iterate buf t).1.filterMap HttpEvent.request? = [] := by
  obtain ⟨-, hstate⟩ := (parse_leaves t new buf).rejected hbad
  simp only [HttpServer.onMessage, hbad, acceptable_of_parseLine hstate, Bool.false_eq_true,
    if_false, List.append_nil]
  rfl

/-- `parse` ends, it takes whole lines, and what it rejects stays in the buffer and is dispatched
    to nobody. -/
theorem parse_takesLines (t : Timestamp) (r : HttpRequest) (h : b.InRange) :
    (∀ r' b', parseBufferPass t r b = .again r' b' →
      b'.InRange ∧ b'.readableBytes + 2 ≤ b.readableBytes) ∧
    ∃ ok r' b', (∀ result, Parses t r b result ↔ result = (ok, r', b')) ∧ b'.InRange ∧
      TakesLines b.readable b'.readable ∧
      (crlf <:+: b'.readable → r'.state = .down ∨ ok = false) ∧
      (ok = false → b'.readable = b.readable ∧ r'.state = .parseLine ∧ r'.acceptable = false) ∧
      (r = new → ok = false → ∀ httpCallback iterate,
        (HttpServer.onMessage httpCallback iterate b.readable t).1.filterMap HttpEvent.request?
          = []) := by
  have hleaves := parse_leaves t r b.readable
  obtain ⟨b', hparses, hrange, hreadable⟩ := parses_parse t r h
  refine ⟨fun _ _ hpass => readableBytes_of_again h hpass, _, _, b', fun result => ⟨fun hresult =>
    hresult.unique hparses, fun hresult => hresult ▸ hparses⟩, hrange, ?_, ?_, fun hbad => ?_, ?_⟩
  · rw [hreadable]
    exact hleaves.lines
  · rw [hreadable]
    exact hleaves.unread
  · obtain ⟨hkept, hstate⟩ := hleaves.rejected hbad
    exact ⟨hreadable.trans hkept, hstate, acceptable_of_parseLine hstate⟩
  · rintro rfl hbad
    exact request?_of_rejected hbad

/-- A buffer whose one line is no request line. -/
theorem parse_takesLines_badLine :
    ∃ ok r' b', (∀ result, Parses .zero new ⟨[0, 0, 0, 0, 0, 0, 0, 0, 88, 13, 10], 8, 11⟩ result
        ↔ result = (ok, r', b')) ∧
      TakesLines [88, 13, 10] b'.readable ∧
      (ok = false → b'.readable = [88, 13, 10] ∧ r'.acceptable = false) := by
  obtain ⟨-, ok, r', b', hparses, -, hlines, -, hbad, -⟩ := parse_takesLines .zero new
    (b := ⟨[0, 0, 0, 0, 0, 0, 0, 0, 88, 13, 10], 8, 11⟩) ⟨by decide, by decide, by decide⟩
  exact ⟨ok, r', b', hparses, hlines, fun hok => ⟨(hbad hok).1, (hbad hok).2.2⟩⟩

end HttpRequest
