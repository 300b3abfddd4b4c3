import Muduo.Base.Logger
import Muduo.Base.Proofs.LogStream
import Muduo.Base.Proofs.Timestamp
import Muduo.Lib.Terminated

set_option autoImplicit false

/-! # Log records

The line break at the end of a record is streamed like everything in front of it, so it is left out
when the buffer is full. Whether it is depends on the bytes that are free when the destructor begins
and on the length of the file name. -/

namespace Logger

open LogStream

/-- What a stream with `n` free bytes takes of the items. -/
def said (n : Nat) (items : List Item) : Bytes := (written n items).flatMap Item.text

theorem said_fits {n : Nat} {item : Item} (h : item.need < n) (items : List Item) :
    said n (item :: items) = item.text ++ said (n - item.text.length) items := by
  rw [said, written, Lossy.kept, if_pos h, List.flatMap_cons]
  rfl

theorem said_full {n : Nat} {item : Item} (h : n ≤ item.need) (items : List Item) :
    said n (item :: items) = said n items := by
  rw [said, written, Lossy.kept, if_neg (Nat.not_lt.2 h)]
  rfl

theorem said_append (n : Nat) (items items' : List Item) :
    said n (items ++ items')
      = said n items ++ said (Lossy.room Item.need Item.text n items) items' := by
  rw [said, written, Lossy.kept_append, List.flatMap_append]
  rfl

theorem newline_notMem_said (n : Nat) {items : List Item}
    (h : ∀ item ∈ items, (10 : Byte) ∉ item.text) : (10 : Byte) ∉ said n items := by
  intro hmem
  obtain ⟨item, hitem, hmem⟩ := List.mem_flatMap.1 hmem
  exact h item ((Lossy.kept_sublist n items).mem hitem) hmem

/-! ## What the destructor streams -/

theorem said_newline {n : Nat} (h : 1 < n) : said n [.char 10] = [10] := said_fits h []

/-- The line break is written if two bytes are free, for if the line number is written more of them
    remain. -/
theorem said_line_of_lt {n : Nat} (hn : 1 < n) (line : Integer) :
    ∃ number, (10 : Byte) ∉ number ∧ said n [.integer line, .char 10] = number ++ [10] := by
  by_cases hfits : kMaxNumericSize < n
  · have hroom : 1 < n - (Decimal.ofInt line.value).length := by
      have hlength := line.length_ofInt
      have hsize : kMaxNumericSize = 32 := rfl
      omega
    refine ⟨Decimal.ofInt line.value, Decimal.notMem_ofInt (by decide) (by decide) _, ?_⟩
    rw [said_fits (show Item.need (.integer line) < n from hfits)]
    exact congrArg (_ ++ ·) (said_newline hroom)
  · refine ⟨[], List.not_mem_nil, ?_⟩
    rw [said_full (show n ≤ Item.need (.integer line) from Nat.not_lt.1 hfits)]
    exact said_newline hn

theorem said_line_of_le {n : Nat} (hn : n ≤ 1) (line : Integer) :
    said n [.integer line, .char 10] = [] := by
  rw [said_full (show n ≤ Item.need (.integer line) from
      Nat.le_trans hn (show 1 ≤ kMaxNumericSize by decide)),
    said_full (show n ≤ Item.need (.char 10) from hn)]
  rfl

theorem said_colon_of_lt {n : Nat} (hn : 2 < n) (line : Integer) :
    ∃ number, (10 : Byte) ∉ number ∧
      said n [.char 58, .integer line, .char 10] = number ++ [10] := by
  obtain ⟨number, hnumber, hsaid⟩ := said_line_of_lt (n := n - 1) (by omega) line
  have hcolon : said n [.char 58, .integer line, .char 10]
      = 58 :: said (n - 1) [.integer line, .char 10] := said_fits (show 1 < n by omega) _
  refine ⟨58 :: number, ?_, by rw [hcolon, hsaid, List.cons_append]⟩
  rw [List.mem_cons, not_or]
  exact ⟨by decide, hnumber⟩

theorem said_colon_two (line : Integer) :
    said 2 [.char 58, .integer line, .char 10] = [58] := by
  have hcolon : said 2 [.char 58, .integer line, .char 10]
      = 58 :: said 1 [.integer line, .char 10] := said_fits (show 1 < 2 by decide) _
  rw [hcolon, said_line_of_le (Nat.le_refl 1)]

theorem said_colon_of_le {n : Nat} (hn : n ≤ 1) (line : Integer) :
    said n [.char 58, .integer line, .char 10] = [] := by
  rw [said_full (show n ≤ Item.need (.char 58) from hn)]
  exact said_line_of_le hn line

/-- With `n` bytes free in front of the file name the record ends in its only line break: three
    bytes are free behind it, or in its place if it is too long, or it ends in a line break itself
    and leaves no room. -/
def FileFits (n : Nat) (file : Bytes) : Prop :=
  3 ≤ n ∧ (n ≤ file.length ∨ file.length + 2 < n ∧ (10 : Byte) ∉ file) ∨
    n = file.length + 1 ∧ Terminated (10 : Byte) file

theorem terminated_said_file_iff {n : Nat} (hn : 0 < n) (file : Bytes) (line : Integer) :
    Terminated 10 (said n [.string file, .char 58, .integer line, .char 10]) ↔ FileFits n file := by
  unfold FileFits
  by_cases hfits : file.length < n
  · have hfile : said n [.string file, .char 58, .integer line, .char 10]
        = file ++ said (n - file.length) [.char 58, .integer line, .char 10] := said_fits hfits _
    rw [hfile]
    rcases Nat.lt_trichotomy (n - file.length) 2 with hroom | hroom | hroom
    · rw [said_colon_of_le (by omega), List.append_nil]
      have hlast : n = file.length + 1 := by omega
      constructor
      · exact fun h => Or.inr ⟨hlast, h⟩
      · rintro (⟨-, hle | ⟨hlt, -⟩⟩ | ⟨-, h⟩)
        · omega
        · omega
        · exact h
    · rw [hroom, said_colon_two]
      refine iff_of_false (Terminated.not_append_of_ne (by decide)) ?_
      rintro (⟨-, hle | ⟨hlt, -⟩⟩ | ⟨hlast, -⟩) <;> omega
    · obtain ⟨number, hnumber, hsaid⟩ := said_colon_of_lt hroom line
      rw [hsaid, ← List.append_assoc, Terminated.append_singleton_iff, List.mem_append, not_or]
      constructor
      · exact fun h => Or.inl ⟨by omega, Or.inr ⟨by omega, h.1⟩⟩
      · rintro (⟨-, hle | ⟨-, hfile⟩⟩ | ⟨hlast, -⟩)
        · omega
        · exact ⟨hfile, hnumber⟩
        · omega
  · have hfile : said n [.string file, .char 58, .integer line, .char 10]
        = said n [.char 58, .integer line, .char 10] := said_full (Nat.not_lt.1 hfits) _
    rw [hfile]
    rcases Nat.lt_trichotomy n 2 with hroom | rfl | hroom
    · rw [said_colon_of_le (by omega)]
      refine iff_of_false (fun h => absurd h.mem List.not_mem_nil) ?_
      rintro (⟨hthree, -⟩ | ⟨hlast, -⟩) <;> omega
    · rw [said_colon_two]
      refine iff_of_false (fun h => absurd h.mem (by decide)) ?_
      rintro (⟨hthree, -⟩ | ⟨hlast, -⟩) <;> omega
    · obtain ⟨number, hnumber, hsaid⟩ := said_colon_of_lt hroom line
      rw [hsaid]
      exact iff_of_true (Terminated.append_singleton_iff.2 hnumber)
        (Or.inl ⟨hroom, Or.inl (by omega)⟩)

/-- With `free` bytes free when the destructor begins; the dash takes three of them if it fits. -/
def LineFits (free : Nat) (file : Bytes) : Prop :=
  FileFits (if 3 < free then free - 3 else free) file

theorem terminated_said_tail_iff {free : Nat} (hfree : 0 < free) (file : Bytes) (line : Integer) :
    Terminated 10 (said free (tail file line)) ↔ LineFits free file := by
  have hdash : (Item.cString (some (bytes " - "))).text = [32, 45, 32] := by decide
  have hneed : (Item.cString (some (bytes " - "))).need = 3 := by decide
  rw [tail, LineFits]
  by_cases hfits : 3 < free
  · rw [said_fits (hneed ▸ hfits), hdash, if_pos hfits, Terminated.append_iff_right (by decide)]
    exact terminated_said_file_iff (Nat.sub_pos_of_lt hfits) file line
  · rw [said_full (hneed ▸ Nat.not_lt.1 hfits), if_neg hfits]
    exact terminated_said_file_iff hfree file line

/-! ## A record -/

/-- All that is streamed for a record. -/
def streamed (site : LogSite) (level : LogLevel) (items : List Item) : List Item :=
  head site.localtime site.tv level ++ items ++ tail site.file site.line

theorem log_eq (site : LogSite) (level : LogLevel) (items : List Item) :
    log site level items = (ofItems site.data (streamed site level items)).map
      fun stream => ⟨stream.toString, level == .fatal⟩ := by
  rw [streamed, ofItems, List.foldlM_append, List.foldlM_append]
  simp only [log, new, ofItems, insertAll, destroy, Option.bind_eq_bind, Option.map_eq_bind,
    Option.bind_assoc, Option.bind_some]
  rfl

theorem log_eq_some {site : LogSite} {level : LogLevel} {items : List Item}
    (h : ∀ item ∈ written kSmallBuffer (streamed site level items), item.Defined) :
    ∃ r, log site level items = some r ∧ r.msg = said kSmallBuffer (streamed site level items) := by
  obtain ⟨m, hrun, hm⟩ := ofItems_eq_some site.length_data h
  rw [log_eq, hrun]
  exact ⟨_, rfl, hm.toString.trans (foldl_put_nil _)⟩

theorem log_eq_none {site : LogSite} {level : LogLevel} {items : List Item}
    (h : ∃ item ∈ written kSmallBuffer (streamed site level items), ¬ item.Defined) :
    log site level items = none := by
  rw [log_eq, ofItems_eq_none site.length_data h]
  rfl

theorem newline_notMem_head (localtime : Int → Tm) (tv : Timeval) (level : LogLevel) :
    ∀ item ∈ head localtime tv level, (10 : Byte) ∉ item.text := by
  have hlevel : (10 : Byte) ∉ cStr (logLevelName level) := by
    cases level <;> decide
  intro item hitem
  simp only [head, List.mem_cons, List.not_mem_nil, or_false] at hitem
  rcases hitem with rfl | rfl | rfl
  · rw [Item.text_string]
    exact Timestamp.newline_notMem_toString localtime _
  · exact (by decide : (10 : Byte) ∉ [32])
  · exact hlevel

/-- The bytes that are free when the destructor begins. -/
def freeAtEnd (site : LogSite) (level : LogLevel) (items : List Item) : Nat :=
  Lossy.room Item.need Item.text kSmallBuffer (head site.localtime site.tv level ++ items)

theorem terminated_said_streamed_iff (site : LogSite) (level : LogLevel) {items : List Item}
    (hitems : ∀ item ∈ items, (10 : Byte) ∉ item.text) :
    Terminated 10 (said kSmallBuffer (streamed site level items))
      ↔ LineFits (freeAtEnd site level items) site.file := by
  have hfront : (10 : Byte) ∉ said kSmallBuffer (head site.localtime site.tv level ++ items) := by
    refine newline_notMem_said _ fun item hitem => ?_
    rcases List.mem_append.1 hitem with hitem | hitem
    · exact newline_notMem_head _ _ _ item hitem
    · exact hitems item hitem
  have hfree : 0 < freeAtEnd site level items :=
    Lossy.room_pos Item.length_text_le_need (by decide) _
  rw [streamed, said_append, Terminated.append_iff_right hfront]
  exact terminated_said_tail_iff hfree site.file site.line

/-- The record is one line. -/
def IsLine (record : Option Record) : Prop := ∃ r, record = some r ∧ Terminated (10 : Byte) r.msg

/-- A record of items without line breaks is one line if and only if no negative integer is written
    and there is room for the line break. -/
theorem isLine_log_iff (site : LogSite) (level : LogLevel) {items : List Item}
    (hitems : ∀ item ∈ items, (10 : Byte) ∉ item.text) :
    IsLine (log site level items) ↔
      (∀ item ∈ written kSmallBuffer (streamed site level items), item.Defined) ∧
        LineFits (freeAtEnd site level items) site.file := by
  rw [← terminated_said_streamed_iff site level hitems]
  constructor
  · rintro ⟨r, hr, hterminated⟩
    have hdefined : ∀ item ∈ written kSmallBuffer (streamed site level items), item.Defined := by
      by_contra hnot
      push Not at hnot
      rw [log_eq_none hnot] at hr
      exact absurd hr (by simp)
    obtain ⟨r', hr', hmsg⟩ := log_eq_some hdefined
    obtain rfl : r = r' := Option.some.inj (hr.symm.trans hr')
    exact ⟨hdefined, hmsg ▸ hterminated⟩
  · rintro ⟨hdefined, hterminated⟩
    obtain ⟨r, hr, hmsg⟩ := log_eq_some hdefined
    exact ⟨r, hr, hmsg ▸ hterminated⟩

/-- Line 7 of a file, at midnight. -/
def lineSeven : LogSite where
  file := bytes "a.cpp"
  line := ⟨.int, 7, by decide, by decide⟩
  line_int := rfl
  tv := ⟨0, 0, by decide, by decide⟩
  localtime _ := ⟨124, 0, 1, 0, 0, 0⟩
  data := List.replicate kSmallBuffer 0
  length_data := List.length_replicate

theorem isLine_log_iff_ok :
    IsLine (log lineSeven .info [.string (bytes "ok")]) ↔
      (∀ item ∈ written kSmallBuffer (streamed lineSeven .info [.string (bytes "ok")]),
        item.Defined) ∧
        LineFits (freeAtEnd lineSeven .info [.string (bytes "ok")]) lineSeven.file :=
  isLine_log_iff lineSeven .info (List.forall_mem_singleton.2 (by decide))

theorem room_string {n : Nat} {v : Bytes} (h : v.length < n) :
    Lossy.room Item.need Item.text n [.string v] = n - v.length := if_pos h

/-- A text that leaves four bytes free is followed by the dash and by nothing else. -/
theorem not_isLine_log_fourFree :
    freeAtEnd lineSeven .info [.string (List.replicate 4066 97)] = 4 ∧
      (log lineSeven .info [.string (List.replicate 4066 97)]).isSome ∧
      ¬ IsLine (log lineSeven .info [.string (List.replicate 4066 97)]) := by
  have hitems : ∀ item ∈ [Item.string (List.replicate 4066 97)], (10 : Byte) ∉ item.text :=
    List.forall_mem_singleton.2 (Timestamp.notMem_replicate (by decide) _)
  have hhead : Lossy.room Item.need Item.text kSmallBuffer
      (head lineSeven.localtime lineSeven.tv .info) = 4070 := by decide
  have hfree : freeAtEnd lineSeven .info [.string (List.replicate 4066 97)] = 4 := by
    rw [freeAtEnd, Lossy.room_append, hhead,
      room_string (List.length_replicate.trans_lt (by decide)), List.length_replicate]
  have hdefined : ∀ item ∈ written kSmallBuffer
      (streamed lineSeven .info [.string (List.replicate 4066 97)]), item.Defined := by
    intro item hitem
    have hmem := (Lossy.kept_sublist _ _).mem hitem
    simp only [streamed, head, tail, List.cons_append, List.nil_append, List.mem_cons,
      List.not_mem_nil, or_false] at hmem
    rcases hmem with rfl | rfl | rfl | rfl | rfl | rfl | rfl | rfl | rfl
    case inr.inr.inr.inr.inr.inr.inr.inl => exact (by decide : (0 : Int) ≤ 7)
    all_goals exact trivial
  obtain ⟨r, hr, hmsg⟩ := log_eq_some hdefined
  refine ⟨hfree, by rw [hr]; rfl, ?_⟩
  rintro ⟨r', hr', hterminated⟩
  obtain rfl : r = r' := Option.some.inj (hr.symm.trans hr')
  rw [hmsg, terminated_said_streamed_iff lineSeven .info hitems, hfree] at hterminated
  exact absurd hterminated (by simp [LineFits, FileFits, lineSeven, bytes])

end Logger
