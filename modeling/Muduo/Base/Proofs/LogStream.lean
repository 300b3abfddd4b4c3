import Muduo.Base.LogStream
import Muduo.Lib.Truncated

set_option autoImplicit false

/-! # Formatting into a stream

An integer is formatted as its decimal numeral if and only if it is not negative: the remainders of
a negative one are negative, and `zero` is the beginning of its array. Apart from that a stream
takes each item whole or not at all, and one cell of its buffer stays free. -/

namespace LogStream

open FixedBuffer

/-! ## The digit loop -/

theorem zero_of_neg {t : Int} (h : t < 0) : zero t = none := if_neg (by omega)

theorem zero_natCast {t : Nat} (h : t < 10) : zero t = some (Decimal.digit t) := by
  have hall : ∀ t : Fin 10, zero (t : Nat) = some (Decimal.digit t) := by decide
  exact hall ⟨t, h⟩

/-- The loop ends for every value, and the number of its passes does not depend on the fuel. -/
theorem digitLoop_terminates (i : Int) :
    ∃ ts, ∀ fuel, i.natAbs < fuel → digitLoop fuel i = some ts := by
  generalize hn : i.natAbs = n
  induction n using Nat.strongRecOn generalizing i with
  | ind n ih =>
      by_cases hdiv : i.tdiv 10 = 0
      · refine ⟨[i.tmod 10], fun fuel hfuel => ?_⟩
        obtain ⟨fuel, rfl⟩ := Nat.exists_eq_succ_of_ne_zero (by omega : fuel ≠ 0)
        simp [digitLoop, hdiv]
      · have hlt : (i.tdiv 10).natAbs < n := by
          rw [← hn]
          refine Truncated.natAbs_tdiv_lt fun hi => hdiv ?_
          rw [hi, Int.zero_tdiv]
        obtain ⟨ts, hts⟩ := ih _ hlt (i.tdiv 10) rfl
        refine ⟨i.tmod 10 :: ts, fun fuel hfuel => ?_⟩
        obtain ⟨fuel, rfl⟩ := Nat.exists_eq_succ_of_ne_zero (by omega : fuel ≠ 0)
        simp [digitLoop, hdiv, hts fuel (by omega)]

theorem digitLoop_natCast {fuel n : Nat} {ts : List Int} (h : digitLoop fuel n = some ts) :
    (∀ t ∈ ts, 0 ≤ t ∧ t ≤ 9) ∧ ts.mapM zero = some (Decimal.ofNat n).reverse := by
  induction fuel generalizing n ts with
  | zero => exact absurd h (by simp [digitLoop])
  | succ fuel ih =>
      have hmod : (n : Int).tmod 10 = (n % 10 : Nat) := rfl
      have hdiv : (n : Int).tdiv 10 = (n / 10 : Nat) := rfl
      have hlt : n % 10 < 10 := Nat.mod_lt n (by decide)
      simp only [digitLoop, hmod, hdiv] at h
      split at h
      · rename_i hne
        obtain ⟨ts, hts, rfl⟩ := Option.map_eq_some_iff.1 h
        obtain ⟨hrange, hmap⟩ := ih hts
        refine ⟨List.forall_mem_cons.2 ⟨by omega, hrange⟩, ?_⟩
        rw [List.mapM_cons, zero_natCast hlt, hmap, Decimal.ofNat_of_ge (n := n) (by omega),
          List.reverse_append]
        rfl
      · rename_i heq
        obtain rfl := Option.some.inj h
        refine ⟨List.forall_mem_singleton.2 (by omega), ?_⟩
        rw [List.mapM_cons, zero_natCast hlt, Decimal.ofNat_of_lt (by omega),
          Nat.mod_eq_of_lt (by omega)]
        rfl

/-- The leading digit of a negative value is looked up in front of the array. -/
theorem exists_neg_of_digitLoop {fuel : Nat} {i : Int} {ts : List Int} (hi : i < 0)
    (h : digitLoop fuel i = some ts) : ∃ t ∈ ts, t < 0 := by
  induction fuel generalizing i ts with
  | zero => exact absurd h (by simp [digitLoop])
  | succ fuel ih =>
      have hdivMod := Truncated.divMod i (b := 10) (by decide)
      simp only [digitLoop] at h
      split at h
      · obtain ⟨ts, hts, rfl⟩ := Option.map_eq_some_iff.1 h
        obtain ⟨t, ht, hneg⟩ := ih (by omega) hts
        exact ⟨t, List.mem_cons_of_mem _ ht, hneg⟩
      · obtain rfl := Option.some.inj h
        exact ⟨_, List.mem_singleton_self _, by omega⟩

theorem mapM_zero_eq_none {ts : List Int} (h : ∃ t ∈ ts, t < 0) : ts.mapM zero = none := by
  induction ts with
  | nil => exact absurd h (by simp)
  | cons t ts ih =>
      rw [List.mapM_cons]
      by_cases ht : t < 0
      · rw [zero_of_neg ht]
        rfl
      · obtain ⟨t', ht', hneg⟩ := h
        rcases List.mem_cons.1 ht' with rfl | hmem
        · exact absurd hneg ht
        · rw [ih ⟨t', hmem, hneg⟩]
          cases zero t <;> rfl

/-! ## Integers -/

theorem convert_of_nonneg {v : Int} (h : 0 ≤ v) (mem : Bytes) (buf : Nat) :
    convert mem buf v = (Storage.store mem buf (Decimal.ofInt v ++ [0])).map
      fun mem => (mem, (Decimal.ofInt v).length) := by
  lift v to ℕ using h
  obtain ⟨ts, hts⟩ := digitLoop_terminates v
  have hloop := hts (Int.natAbs v + 1) (by omega)
  rw [convert, hloop]
  simp only [Option.bind_eq_bind, Option.bind_some, (digitLoop_natCast hloop).2,
    if_neg (by omega : ¬ (v : Int) < 0), Decimal.ofInt_natCast, List.length_reverse,
    Nat.add_sub_cancel_left]
  by_cases hle : buf + ((Decimal.ofNat v).length + 1) ≤ mem.length
  · obtain ⟨mem', hmem'⟩ := Storage.exists_store mem buf ((Decimal.ofNat v).reverse ++ [0])
      (by simpa using hle)
    have hslice := Storage.slice_store_prefix (Nat.le_refl buf) hmem'
    rw [List.length_reverse, Storage.slice_self, List.nil_append] at hslice
    simp only [hmem', Option.bind_some, hslice, List.reverse_reverse]
    rw [Storage.store_store hmem' (by simp), Option.map_eq_bind]
    rfl
  · rw [Storage.store_eq_none (by simpa using hle), Storage.store_eq_none (by simpa using hle)]
    rfl

theorem convert_of_neg {v : Int} (h : v < 0) (mem : Bytes) (buf : Nat) :
    convert mem buf v = none := by
  obtain ⟨ts, hts⟩ := digitLoop_terminates v
  have hloop := hts (v.natAbs + 1) (by omega)
  rw [convert, hloop]
  simp only [Option.bind_eq_bind, Option.bind_some,
    mapM_zero_eq_none (exists_neg_of_digitLoop h hloop), Option.bind_none]

theorem Integer.natAbs_lt (v : Integer) : v.value.natAbs < 10 ^ 20 := by
  have hmin := v.min_le
  have hmax := v.le_max
  cases htype : v.type <;>
    simp only [htype, IntegerType.min, IntegerType.max, IntegerType.unsigned, IntegerType.bits,
      if_true, if_false, Bool.false_eq_true] at hmin hmax <;> omega

/-- Every unsigned value can be formatted. -/
theorem Integer.nonneg_of_unsigned {v : Integer} (h : v.type.unsigned = true) : 0 ≤ v.value := by
  have hmin := v.min_le
  rwa [IntegerType.min, if_pos h] at hmin

/-- No numeral is longer than the sign and twenty digits. -/
theorem Integer.length_ofInt (v : Integer) : (Decimal.ofInt v.value).length ≤ 21 := by
  have hlt := v.natAbs_lt
  have hlength {n : Nat} (hn : n < 10 ^ 20) : (Decimal.ofNat n).length ≤ 20 :=
    (Decimal.length_ofNat_le_iff (by decide)).2 hn
  rw [Decimal.ofInt]
  split
  · exact Nat.le_succ_of_le (hlength (by omega))
  · rw [List.length_cons]
    exact Nat.succ_le_succ (hlength (by omega))

/-! ## The memory of a buffer -/

/-- In a buffer of `size` cells, `content` is what was written so far. -/
structure Holds (m : Memory) (size : Nat) (content : Bytes) : Prop where
  cells : m.cells.length = size
  length : m.length = content.length
  toString : m.toString = content
  le : content.length ≤ size

variable {m : Memory} {size : Nat} {content : Bytes}

theorem holds_new (data : Bytes) : Holds ⟨data, 0⟩ data.length [] :=
  ⟨rfl, rfl, Storage.slice_self _ _, Nat.zero_le _⟩

theorem Holds.freeSize (h : Holds m size content) : m.freeSize = size - content.length := by
  rw [Memory.freeSize, h.cells, ← h.length]
  rfl

/-- Text is stored behind the content, and what `tail` says behind that, where `cur_` does not get
    to. -/
theorem Holds.store (h : Holds m size content) (text tail : Bytes)
    (hfits : text.length + tail.length ≤ size - content.length) :
    ∃ cells, Storage.store m.cells m.cur (text ++ tail) = some cells ∧
      ∃ m', ({ m with cells := cells } : Memory).add text.length = some m' ∧
        Holds m' size (content ++ text) := by
  have hcur : m.cur = content.length := h.length
  have hle := h.le
  obtain ⟨cells, hcells⟩ := Storage.exists_store m.cells m.cur (text ++ tail)
    (by rw [List.length_append, h.cells]; omega)
  have hlength := (Storage.length_store hcells).trans h.cells
  refine ⟨cells, hcells, ⟨cells, m.cur + text.length⟩, if_pos ?_, hlength, ?_, ?_, ?_⟩
  · change m.cur + text.length ≤ cells.length
    omega
  · rw [List.length_append, ← h.length]
    rfl
  · have hslice := Storage.slice_store_prefix (Nat.zero_le m.cur) hcells
    exact hslice.trans (congrArg (· ++ text) h.toString)
  · rw [List.length_append]
    omega

/-- `append` takes the text if more than its length is free. -/
theorem Holds.append (h : Holds m size content) (msg : Bytes) :
    ∃ m', m.append msg = some m' ∧ Holds m' size
      (if msg.length < size - content.length then content ++ msg else content) := by
  rw [Memory.append, h.freeSize]
  split
  · rename_i hfits
    obtain ⟨cells, hcells, m', hadd, hm'⟩ := h.store msg []
      (by simpa using Nat.le_of_lt hfits)
    rw [List.append_nil] at hcells
    exact ⟨m', by simpa [hcells] using hadd, hm'⟩
  · exact ⟨m, rfl, h⟩

/-- The content is that of the buffer without its memory. -/
theorem Holds.append_data {b : FixedBuffer size} (h : Holds m size b.data) (msg : Bytes) :
    ∃ m', m.append msg = some m' ∧ Holds m' size (b.append msg).data := by
  obtain ⟨m', happend, hm'⟩ := h.append msg
  refine ⟨m', happend, ?_⟩
  split at hm'
  · rename_i hfits
    rwa [FixedBuffer.data_append hfits]
  · rename_i hfits
    rwa [FixedBuffer.append_eq_self hfits]

theorem Holds.formatInteger (h : Holds m size content) {v : Integer} (hv : 0 ≤ v.value) :
    ∃ m', LogStream.formatInteger m v.value = some m' ∧ Holds m' size
      (if kMaxNumericSize < size - content.length then content ++ Decimal.ofInt v.value
        else content) := by
  rw [LogStream.formatInteger, h.freeSize]
  split
  · rename_i hfits
    have hlength := v.length_ofInt
    have hsize : kMaxNumericSize = 32 := rfl
    obtain ⟨cells, hcells, m', hadd, hm'⟩ := h.store (Decimal.ofInt v.value) [0]
      (by rw [List.length_singleton]; omega)
    exact ⟨m', by simpa [convert_of_nonneg hv, hcells] using hadd, hm'⟩
  · exact ⟨m, rfl, h⟩

theorem Holds.formatDouble (h : Holds m size content) (v : DoubleText) :
    ∃ m', LogStream.formatDouble m v = some m' ∧ Holds m' size
      (if kMaxNumericSize - 1 < size - content.length then content ++ v.text else content) := by
  have hsize : kMaxNumericSize = 32 := rfl
  rw [LogStream.formatDouble, h.freeSize]
  split
  · rename_i hfits
    have hlength := v.length_lt
    obtain ⟨cells, hcells, m', hadd, hm'⟩ := h.store v.text [0]
      (by rw [List.length_singleton]; omega)
    rw [if_pos (by omega)]
    exact ⟨m', by simpa [hcells] using hadd, hm'⟩
  · rw [if_neg (by omega)]
    exact ⟨m, rfl, h⟩

/-! ## Formatting integers -/

/-- A value is formatted as its decimal numeral: the digits are looked up at the positions 0 to 9 in
    finitely many passes; the numeral and its terminator are what is written, their length without
    the terminator is the answer, and both fit into the cells that `formatInteger` asks for. -/
structure Formats (v : Integer) : Prop where
  positions : ∃ ts, (∀ t ∈ ts, 0 ≤ t ∧ t ≤ 9) ∧
    ∀ fuel, v.value.natAbs < fuel → digitLoop fuel v.value = some ts
  numeral : ∀ mem buf, convert mem buf v.value
    = (Storage.store mem buf (Decimal.ofInt v.value ++ [0])).map
      fun mem => (mem, (Decimal.ofInt v.value).length)
  fits : (Decimal.ofInt v.value ++ [0]).length ≤ kMaxNumericSize
  inside : ∀ m : Memory, m.cur ≤ m.cells.length → m.freeSize > kMaxNumericSize →
    ∃ m', formatInteger m v.value = some m' ∧ m'.toString = m.toString ++ Decimal.ofInt v.value

/-- A value of any of the types is formatted as its numeral if and only if it is not negative. -/
theorem formats_iff (v : Integer) : Formats v ↔ 0 ≤ v.value := by
  obtain ⟨ts, hts⟩ := digitLoop_terminates v.value
  have hloop := hts (v.value.natAbs + 1) (by omega)
  constructor
  · intro h
    by_contra hneg
    obtain ⟨ts', hrange, hts'⟩ := h.positions
    obtain rfl : ts = ts' := Option.some.inj (hloop.symm.trans (hts' _ (by omega)))
    obtain ⟨t, ht, hlt⟩ := exists_neg_of_digitLoop (by omega) hloop
    have := hrange t ht
    omega
  · intro hv
    refine ⟨⟨ts, ?_, hts⟩, convert_of_nonneg hv, ?_, fun m hle hfree => ?_⟩
    · rw [← Int.toNat_of_nonneg hv] at hloop
      exact (digitLoop_natCast hloop).1
    · have hlength := v.length_ofInt
      rw [List.length_append, List.length_singleton]
      exact Nat.le_trans (Nat.succ_le_succ hlength) (by decide)
    · have hm : Holds m m.cells.length m.toString := by
        have hlength : m.toString.length = m.cur := by
          rw [Memory.toString, Storage.length_slice]
          exact Nat.min_eq_left hle
        exact ⟨rfl, hlength.symm, rfl, hlength ▸ hle⟩
      obtain ⟨m', hformat, hm'⟩ := hm.formatInteger hv
      rw [if_pos (hm.freeSize ▸ hfree)] at hm'
      exact ⟨m', hformat, hm'.toString⟩

/-- The digit of -1, and the last one of the least `int`, are looked up in front of the array. -/
theorem not_formats_negative :
    digitLoop 2 (-1) = some [-1] ∧ zero (-1) = none ∧
      convert (List.replicate 33 0) 0 (-1) = none ∧ ¬ Formats ⟨.int, -1, by decide, by decide⟩ ∧
      convert (List.replicate 33 0) 0 (-2147483648) = none ∧
      ¬ Formats ⟨.int, -2147483648, by decide, by decide⟩ := by
  have hone := convert_of_neg (by decide : (-1 : Int) < 0)
  have hmin := convert_of_neg (by decide : (-2147483648 : Int) < 0)
  refine ⟨by decide, by decide, hone _ _, fun h => ?_, hmin _ _, fun h => ?_⟩
  · have hnumeral := h.numeral (List.replicate 33 0) 0
    rw [hone] at hnumeral
    exact absurd hnumeral (by decide)
  · have hnumeral := h.numeral (List.replicate 33 0) 0
    rw [hmin] at hnumeral
    exact absurd hnumeral (by decide)

/-! ## Insertions -/

/-- What an item is when it is written out in full. -/
def Item.text : Item → Bytes
  | .bool v => if v then bytes "true" else bytes "false"
  | .char v => [v]
  | .cString v =>
      match v with
      | some v => cStr v
      | none => bytes "(null)"
  | .string v => v
  | .integer v => Decimal.ofInt v.value
  | .double v => v.text
  | .append data => data

@[simp] theorem Item.text_string (v : Bytes) : (Item.string v).text = v := rfl

/-- An item is written if more than that many cells are free. -/
def Item.need : Item → Nat
  | .integer _ => kMaxNumericSize
  | .double _ => kMaxNumericSize - 1
  | item => item.text.length

/-- A negative integer is not formatted. -/
def Item.Defined : Item → Prop
  | .integer v => 0 ≤ v.value
  | _ => True

/-- The items of a stream that are written when `n` cells are free, by their lengths alone. -/
abbrev written (n : Nat) (items : List Item) : List Item := Lossy.kept Item.need Item.text n items

theorem Item.length_text_le_need (item : Item) : item.text.length ≤ item.need := by
  cases item with
  | integer v => exact Nat.le_trans v.length_ofInt (show 21 ≤ kMaxNumericSize by decide)
  | double v => exact Nat.le_pred_of_lt v.length_lt
  | bool | char | cString | string | append => exact Nat.le_refl _

/-- An insertion writes the item whole or not at all. -/
theorem Holds.insert (h : Holds m size content) {item : Item}
    (hdefined : item.need < size - content.length → item.Defined) :
    ∃ m', LogStream.insert m item = some m' ∧
      Holds m' size (Lossy.put Item.need Item.text size content item) := by
  cases item with
  | bool v => cases v <;> exact h.append _
  | char v => exact h.append [v]
  | cString v => cases v <;> exact h.append _
  | string v => exact h.append v
  | append data => exact h.append data
  | double v => exact h.formatDouble v
  | integer v =>
      by_cases hfits : kMaxNumericSize < size - content.length
      · exact h.formatInteger (hdefined hfits)
      · refine ⟨m, ?_, ?_⟩
        · rw [LogStream.insert, LogStream.formatInteger, h.freeSize, if_neg hfits]
        · rwa [Lossy.put, if_neg (show ¬ Item.need (.integer v) < _ from hfits)]

theorem Holds.insert_eq_none (h : Holds m size content) {item : Item}
    (hfits : item.need < size - content.length) (hdefined : ¬ item.Defined) :
    LogStream.insert m item = none := by
  cases item with
  | integer v =>
      have hfree : m.freeSize > kMaxNumericSize := by
        rw [h.freeSize]
        exact hfits
      rw [LogStream.insert, LogStream.formatInteger, if_pos hfree,
        convert_of_neg (Int.not_le.1 hdefined)]
      rfl
  | bool | char | cString | string | append | double => exact absurd trivial hdefined

/-- The content of the stream is the left fold over the items, as long as no negative integer is
    among those that are written. -/
theorem Holds.insertAll (h : Holds m size content) {items : List Item}
    (hdefined : ∀ item ∈ written (size - content.length) items, item.Defined) :
    ∃ m', items.foldlM LogStream.insert m = some m' ∧
      Holds m' size (items.foldl (Lossy.put Item.need Item.text size) content) := by
  induction items generalizing m content with
  | nil => exact ⟨m, rfl, h⟩
  | cons item items ih =>
      obtain ⟨m', hinsert, hm'⟩ := h.insert fun hfits =>
        hdefined item (Lossy.mem_kept_head hfits items)
      obtain ⟨m'', hrun, hm''⟩ := ih hm' fun item' hmem =>
        hdefined item' (Lossy.mem_kept_of_put hmem)
      refine ⟨m'', ?_, hm''⟩
      rw [List.foldlM_cons, hinsert]
      exact hrun

theorem Holds.insertAll_eq_none (h : Holds m size content) {items : List Item}
    (hdefined : ∃ item ∈ written (size - content.length) items, ¬ item.Defined) :
    items.foldlM LogStream.insert m = none := by
  induction items generalizing m content with
  | nil => exact absurd hdefined (by simp [Lossy.kept])
  | cons item items ih =>
      rw [List.foldlM_cons]
      cases hinsert : LogStream.insert m item with
      | none => rfl
      | some m' =>
          obtain ⟨item', hmem, hundefined⟩ := hdefined
          have hkept : item.need < size - content.length → item.Defined := fun hfits => by
            by_contra hnot
            rw [h.insert_eq_none hfits hnot] at hinsert
            exact absurd hinsert (by simp)
          obtain ⟨m'', hinsert', hm''⟩ := h.insert hkept
          obtain rfl : m' = m'' := Option.some.inj (hinsert.symm.trans hinsert')
          refine ih hm'' ⟨item', ?_, hundefined⟩
          rcases Lossy.mem_kept_cons hmem with ⟨rfl, hfits⟩ | hmem
          · exact absurd (hkept hfits) hundefined
          · exact hmem

theorem ofItems_eq_some {data : Bytes} (hdata : data.length = kSmallBuffer) {items : List Item}
    (hdefined : ∀ item ∈ written kSmallBuffer items, item.Defined) :
    ∃ m, ofItems data items = some m ∧ Holds m kSmallBuffer
      (items.foldl (Lossy.put Item.need Item.text kSmallBuffer) []) := by
  have hnew := holds_new data
  rw [hdata] at hnew
  exact hnew.insertAll hdefined

theorem ofItems_eq_none {data : Bytes} (hdata : data.length = kSmallBuffer) {items : List Item}
    (hdefined : ∃ item ∈ written kSmallBuffer items, ¬ item.Defined) :
    ofItems data items = none := by
  have hnew := holds_new data
  rw [hdata] at hnew
  exact hnew.insertAll_eq_none hdefined

theorem foldl_put_nil (items : List Item) :
    items.foldl (Lossy.put Item.need Item.text kSmallBuffer) []
      = (written kSmallBuffer items).flatMap Item.text :=
  Lossy.foldl_put kSmallBuffer [] items

/-- No item is written in part, and a cell stays free: after each insertion of a run without
    negative integers the content is the left fold over the items inserted so far, and it is what
    some of them say in full, in their order. -/
theorem ofItems_whole {data : Bytes} (hdata : data.length = kSmallBuffer) {items : List Item}
    (hdefined : ∀ item ∈ items, item.Defined) (front : List Item) (hfront : front <+: items) :
    ∃ m, ofItems data front = some m ∧ m.length < kSmallBuffer ∧
      m.toString = front.foldl (Lossy.put Item.need Item.text kSmallBuffer) [] ∧
      ∃ whole : List Item, whole.Sublist front ∧ m.toString = whole.flatMap Item.text := by
  have hsublist : (written kSmallBuffer front).Sublist front := Lossy.kept_sublist _ _
  obtain ⟨m, hrun, hm⟩ := ofItems_eq_some hdata fun item hmem =>
    hdefined item (hfront.mem (hsublist.mem hmem))
  refine ⟨m, hrun, ?_, hm.toString, _, hsublist, hm.toString.trans (foldl_put_nil front)⟩
  rw [hm.length]
  exact Lossy.length_foldl_put_lt Item.length_text_le_need (by decide) front

/-- Items of three kinds. -/
def someItems : List Item :=
  [.bool true, .cString none, .integer ⟨.unsignedInt, 7, by decide, by decide⟩]

theorem ofItems_whole_someItems :
    ∃ m, ofItems (List.replicate kSmallBuffer 0) someItems = some m ∧ m.length < kSmallBuffer ∧
      m.toString = someItems.foldl (Lossy.put Item.need Item.text kSmallBuffer) [] ∧
      ∃ whole : List Item, whole.Sublist someItems ∧ m.toString = whole.flatMap Item.text :=
  ofItems_whole List.length_replicate (by simp [someItems, Item.Defined]) _ List.prefix_rfl

end LogStream
