import Mathlib.Order.Bounds.Basic
import Muduo.Http.Proofs.BufferParse

set_option autoImplicit false

/-! # Lines on a Buffer

What `HttpRequest::parse` relies on: `findCRLF` answers the first line break whose two bytes are
readable, and taking lines with `RetrieveUntil` cuts the readable bytes at their line breaks. Only
the readable bytes count. A `CR` that is the last of them is no line break, whatever an earlier
message has left behind it. -/

open Storage

namespace Buffer

variable {b : Buffer}

/-! ## The first line break -/

/-- The readable bytes at `p` and behind it are a `CR` and an `LF`. -/
def CrlfAt (b : Buffer) (p : Nat) : Prop :=
  b.readerIndex ≤ p ∧ p + 2 ≤ b.writerIndex ∧
    b.buffer[p]? = some 13 ∧ b.buffer[p + 1]? = some 10

theorem crlfAt_iff (b : Buffer) (n : Nat) :
    b.CrlfAt (b.readerIndex + n) ↔ crlf <+: b.readable.drop n := by
  rw [crlf, Delimited.pair_prefix_iff_getElem?, readable, drop_slice]
  simp only [CrlfAt, slice, List.getElem?_drop, List.getElem?_take, Nat.add_zero,
    Option.ite_none_right_eq_some, Nat.le_add_right, true_and]
  constructor
  · rintro ⟨hend, hcr, hlf⟩
    exact ⟨⟨by omega, hcr⟩, by omega, hlf⟩
  · rintro ⟨⟨-, hcr⟩, hend, hlf⟩
    exact ⟨by omega, hcr, hlf⟩

theorem crlf_infix_of_crlfAt {p : Nat} (h : b.CrlfAt p) : crlf <:+: b.readable := by
  obtain ⟨n, rfl⟩ := Nat.exists_eq_add_of_le h.1
  exact ((crlfAt_iff b n).1 h).isInfix.trans (List.drop_suffix _ _).isInfix

theorem findCRLF_eq_none (h : b.InRange) : b.findCRLF = none ↔ ¬ crlf <:+: b.readable := by
  rw [findCRLF_buffer h, Option.map_eq_none_iff, findCRLF_eq_none_iff]

theorem isLeast_of_findCRLF (h : b.InRange) {p : Nat} (hp : b.findCRLF = some p) :
    IsLeast {p | b.CrlfAt p} p := by
  rw [findCRLF_buffer h, Option.map_eq_some_iff] at hp
  obtain ⟨cr, hcr, rfl⟩ := hp
  obtain ⟨line, rest, hreadable, rfl, hline⟩ := eq_of_findCRLF hcr
  refine ⟨(crlfAt_iff b _).2 ?_, fun q hq => ?_⟩
  · rw [hreadable, List.append_assoc, List.drop_left]
    exact List.prefix_append _ _
  · obtain ⟨n, rfl⟩ := Nat.exists_eq_add_of_le hq.1
    have hle : Delimited.search crlf b.readable ≤ n := Delimited.search_le ((crlfAt_iff b n).1 hq)
    have hsearch : Delimited.search crlf b.readable = line.length := by
      rw [hreadable]
      exact Delimited.search_append (by decide) hline rest
    omega

theorem findCRLF_eq_some (h : b.InRange) (p : Nat) :
    b.findCRLF = some p ↔ IsLeast {p | b.CrlfAt p} p := by
  refine ⟨isLeast_of_findCRLF h, fun hleast => ?_⟩
  cases hfound : b.findCRLF with
  | none => exact absurd (crlf_infix_of_crlfAt hleast.1) ((findCRLF_eq_none h).1 hfound)
  | some q => rw [(isLeast_of_findCRLF h hfound).unique hleast]

/-! ## Taking lines -/

/-- The bytes in front of the first line break, and the buffer behind it. -/
def takeLine (b : Buffer) : Option (Bytes × Buffer) :=
  b.findCRLF.map fun cr => (slice b.buffer b.readerIndex cr, b.retrieveUntil (cr + 2))

/-- Lines are taken until `findCRLF` answers `NULL`; `none` when more than `fuel` tests of it are
    needed. -/
def takeLines : (fuel : Nat) → Buffer → Option (List Bytes × Buffer)
  | 0, _ => none
  | fuel + 1, b =>
      match b.takeLine with
      | some (line, rest) => (takeLines fuel rest).map fun (lines, rest) => (line :: lines, rest)
      | none => some ([], b)

theorem takeLine_eq_some (h : b.InRange) {line : Bytes} {b' : Buffer}
    (hline : b.takeLine = some (line, b')) :
    b'.InRange ∧ ¬ crlf <:+: line ∧ b.readable = line ++ crlf ++ b'.readable := by
  rw [takeLine, findCRLF_buffer h, Option.map_map, Option.map_eq_some_iff] at hline
  obtain ⟨cr, hcr, hline⟩ := hline
  obtain ⟨rfl, rfl⟩ := Prod.mk.inj hline
  obtain ⟨line, rest, hreadable, rfl, hfree⟩ := eq_of_findCRLF hcr
  obtain ⟨hrange, hdrop⟩ := readable_retrieveUntil h (line.length + 2)
  have hle : line.length ≤ b.readable.length := by
    have := findCRLF_le hcr
    omega
  rw [slice_readable h hle, Nat.add_assoc, hdrop, hreadable, take_line, drop_line]
  exact ⟨hrange, hfree, rfl⟩

/-- The loop ends, and the lines it takes are what is missing in the buffer it leaves. -/
theorem takeLines_spec (h : b.InRange) :
    ∃ lines b', (∀ fuel, b.readable.length < fuel → b.takeLines fuel = some (lines, b')) ∧
      b'.InRange ∧ b'.findCRLF = none ∧ (∀ l ∈ lines, ¬ crlf <:+: l) ∧
      lines.flatMap (· ++ crlf) ++ b'.readable = b.readable := by
  induction hn : b.readable.length using Nat.strong_induction_on generalizing b with
  | _ n ih =>
      cases hline : b.takeLine with
      | none =>
          have hnone : b.findCRLF = none := by
            rw [takeLine, Option.map_eq_none_iff] at hline
            exact hline
          refine ⟨[], b, fun fuel hfuel => ?_, h, hnone, by simp, by simp⟩
          obtain ⟨fuel, rfl⟩ := Nat.exists_eq_add_one_of_ne_zero (Nat.ne_zero_of_lt hfuel)
          simp only [takeLines, hline]
      | some next =>
          obtain ⟨line, rest⟩ := next
          obtain ⟨hrange, hfree, hreadable⟩ := takeLine_eq_some h hline
          have hshorter : rest.readable.length < n := by
            rw [← hn, hreadable, List.length_append, List.length_append]
            exact Nat.lt_add_of_pos_left (Nat.lt_add_left _ (by decide))
          obtain ⟨lines, b', hloop, hin, hend, hlines, hjoin⟩ := ih _ hshorter hrange rfl
          refine ⟨line :: lines, b', fun fuel hfuel => ?_, hin, hend, fun l hl => ?_, ?_⟩
          · obtain ⟨fuel, rfl⟩ := Nat.exists_eq_add_one_of_ne_zero (Nat.ne_zero_of_lt hfuel)
            simp only [takeLines, hline, hloop fuel (by omega), Option.map_some]
          · rcases List.mem_cons.1 hl with rfl | hl
            · exact hfree
            · exact hlines l hl
          · rw [List.flatMap_cons, List.append_assoc, hjoin, hreadable]

/-- The lines are the parts that a split at the line breaks has, but for the last one, which stays
    in the buffer. -/
theorem takeLines_eq_split (h : b.InRange) :
    ∃ lines b', (∀ fuel, b.readable.length < fuel → b.takeLines fuel = some (lines, b')) ∧
      Delimited.split crlf b.readable = lines ++ [b'.readable] := by
  obtain ⟨lines, b', hloop, hin, hend, hlines, hjoin⟩ := takeLines_spec h
  refine ⟨lines, b', hloop, ?_⟩
  rw [← hjoin]
  exact Delimited.split_closed (by decide) hlines ((findCRLF_eq_none hin).1 hend)

/-- Whatever lies outside the readable bytes, `findCRLF` answers the first line break in them, and
    the loop takes them apart at their line breaks. -/
theorem findCRLF_frames_lines (h : b.InRange) :
    (b.findCRLF = none ↔ ¬ crlf <:+: b.readable) ∧
    (∀ p, b.findCRLF = some p ↔ IsLeast {p | b.CrlfAt p} p) ∧
    ∃ lines b', (∀ fuel, b.readableBytes < fuel → b.takeLines fuel = some (lines, b')) ∧
      b'.InRange ∧ b'.findCRLF = none ∧ (∀ l ∈ lines, ¬ crlf <:+: l) ∧
      lines.flatMap (· ++ crlf) ++ b'.readable = b.readable := by
  refine ⟨findCRLF_eq_none h, findCRLF_eq_some h, ?_⟩
  rw [← h.length_readable]
  exact takeLines_spec h

/-- A line, then a `CR` that is the last readable byte, with a stale `LF` behind it. -/
theorem findCRLF_frames_lines_straddling :
    ∃ lines b', (∀ fuel, 5 < fuel →
        takeLines fuel ⟨[0, 0, 0, 0, 0, 0, 0, 0, 97, 13, 10, 98, 13, 10], 8, 13⟩
          = some (lines, b')) ∧
      lines.flatMap (· ++ crlf) ++ b'.readable = [97, 13, 10, 98, 13] := by
  obtain ⟨-, -, lines, b', hloop, -, -, -, hjoin⟩ := findCRLF_frames_lines
    (b := ⟨[0, 0, 0, 0, 0, 0, 0, 0, 97, 13, 10, 98, 13, 10], 8, 13⟩)
    ⟨by decide, by decide, by decide⟩
  exact ⟨lines, b', hloop, hjoin⟩

example : takeLines 6 ⟨[0, 0, 0, 0, 0, 0, 0, 0, 97, 13, 10, 98, 13, 10], 8, 13⟩
    = some ([[97]], ⟨[0, 0, 0, 0, 0, 0, 0, 0, 97, 13, 10, 98, 13, 10], 11, 13⟩) := by decide

/-! ## The lines that parse takes -/

/-- `lines` are the first lines of the loop, and its other lines are those of `b'`. -/
def TakesFirst (b : Buffer) (lines : List Bytes) (b' : Buffer) : Prop :=
  ∀ fuel, b.takeLines (lines.length + fuel)
    = (b'.takeLines fuel).map fun (others, rest) => (lines ++ others, rest)

theorem TakesFirst.nil (b : Buffer) : b.TakesFirst [] b := fun fuel => by simp

theorem TakesFirst.cons {line : Bytes} {lines : List Bytes} {b' b'' : Buffer}
    (hline : b.takeLine = some (line, b')) (h : b'.TakesFirst lines b'') :
    b.TakesFirst (line :: lines) b'' := by
  intro fuel
  rw [List.length_cons, Nat.add_right_comm]
  simp only [takeLines, hline, h fuel, Option.map_map, Function.comp_def, List.cons_append]

end Buffer

namespace HttpRequest

variable {t : Timestamp} {r : HttpRequest} {b : Buffer}

/-- A pass takes a line from the buffer, or it ends the loop and leaves the buffer as it is. -/
inductive Takes (b : Buffer) : BufferPass → Prop
  | again {r : HttpRequest} {line : Bytes} {b' : Buffer} (h : b.takeLine = some (line, b')) :
      Takes b (.again r b')
  | last {ok : Bool} {r : HttpRequest} {line : Bytes} {b' : Buffer}
      (h : b.takeLine = some (line, b')) : Takes b (.stop ok r b')
  | nothing {ok : Bool} {r : HttpRequest} : Takes b (.stop ok r b)

theorem parseBufferPass_takes (t : Timestamp) (r : HttpRequest) (b : Buffer) :
    Takes b (parseBufferPass t r b) := by
  unfold parseBufferPass
  cases hstate : r.state with
  | down => exact .nothing
  | parseLine =>
      cases hcr : b.findCRLF with
      | none => exact .nothing
      | some cr =>
          simp only
          split
          · exact .again (by rw [Buffer.takeLine, hcr, Option.map_some])
          · exact .nothing
  | parseHeader =>
      cases hcr : b.findCRLF with
      | none => exact .nothing
      | some cr =>
          simp only
          split
          · exact .again (by rw [Buffer.takeLine, hcr, Option.map_some])
          · exact .last (by rw [Buffer.takeLine, hcr, Option.map_some])

/-- `parse` takes the first lines of a buffer and leaves the others. -/
theorem Parses.takesFirst {result : Bool × HttpRequest × Buffer} (h : Parses t r b result) :
    ∃ lines, b.TakesFirst lines result.2.2 := by
  induction h with
  | @stop r r' b b' ok hpass =>
      have htakes := parseBufferPass_takes t r b
      rw [hpass] at htakes
      cases htakes with
      | last hline => exact ⟨_, .cons hline (.nil b')⟩
      | nothing => exact ⟨_, .nil b⟩
  | @again r r' b b' result hpass _ ih =>
      have htakes := parseBufferPass_takes t r b
      rw [hpass] at htakes
      obtain ⟨lines, hlines⟩ := ih
      cases htakes with
      | again hline => exact ⟨_, .cons hline hlines⟩

end HttpRequest
