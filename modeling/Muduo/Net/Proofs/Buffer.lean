import Muduo.Net.Buffer

set_option autoImplicit false

/-! # What the operations of Buffer do

`InRange` is the picture at the top of `Buffer.h` read as an invariant. Each operation has one spec
lemma: from indices in range it touches no byte outside `buffer_`, leaves the indices in range, and
does to `readable` what the queue operation does. `append` and `readFromFd` need one thing more, the
room that `MakeSpace` is meant to provide: its resize branch provides it exactly when
`WriterIndex_ ≤ WriteableBytes()` (`GrowsSafely`).

With `size_t` the same holds where the sums do not wrap around (`SizeT.SumsFit`). Where one of them
does, the room is missing. -/

open Storage

namespace Buffer

/-- `kCheapPrepend <= ReaderIndex_ <= WriterIndex_ <= buffer_.size()`. -/
structure InRange (b : Buffer) : Prop where
  prepend : kCheapPrepend ≤ b.readerIndex
  reader : b.readerIndex ≤ b.writerIndex
  writer : b.writerIndex ≤ b.buffer.length

theorem inRange_new (initialSize : Nat) : (new initialSize).InRange where
  prepend := Nat.le_refl _
  reader := Nat.le_refl _
  writer := by simp [new]

@[simp] theorem readable_new (initialSize : Nat) : (new initialSize).readable = [] := by
  simp [new, readable]

variable {b : Buffer}

theorem InRange.length_readable (h : b.InRange) : b.readable.length = b.readableBytes := by
  have := h.writer
  simp only [readable, length_slice, readableBytes]
  omega

/-! ## Taking bytes out -/

theorem inRange_retrieveAll (h : b.InRange) : b.retrieveAll.InRange where
  prepend := Nat.le_refl _
  reader := Nat.le_refl _
  writer := by
    have := h.prepend
    have := h.reader
    have := h.writer
    simp only [retrieveAll]
    omega

@[simp] theorem readable_retrieveAll (b : Buffer) : b.retrieveAll.readable = [] := by
  simp [retrieveAll, readable]

theorem inRange_retrieve (h : b.InRange) (len : Nat) : (b.retrieve len).InRange := by
  unfold retrieve
  split
  · rename_i hlt
    simp only [readableBytes] at hlt
    have := h.prepend
    exact ⟨by simp only; omega, by simp only; omega, h.writer⟩
  · exact inRange_retrieveAll h

theorem readable_retrieve (h : b.InRange) (len : Nat) :
    (b.retrieve len).readable = b.readable.drop len := by
  unfold retrieve
  split
  · simp only [readable, drop_slice]
  · rename_i hle
    rw [readable_retrieveAll, List.drop_of_length_le]
    rw [h.length_readable]
    omega

theorem retrieveToString_eq (h : b.InRange) {len : Nat} (hlen : len ≤ b.readableBytes) :
    b.retrieveToString len = some (b.readable.take len, b.retrieve len) := by
  have hr := h.reader
  have hw := h.writer
  simp only [readableBytes] at hlen
  have hread : slice b.buffer b.readerIndex (b.readerIndex + len) = b.readable.take len := by
    rw [readable, take_slice _ _ _ _ (by omega)]
  simp only [retrieveToString, load]
  rw [if_pos (by omega), hread, Option.map_some]

/-! ## Making room -/

/-- Compaction moves the readable bytes to the front although the two ranges may overlap. What lay
    in front of them becomes writable. -/
theorem compact_spec (h : b.InRange) :
    ∃ b', b.compact = some b' ∧ b'.InRange ∧ b'.buffer.length = b.buffer.length ∧
      b'.readerIndex = kCheapPrepend ∧ b'.readable = b.readable ∧
      b'.writeableBytes = b.writeableBytes + (b.readerIndex - kCheapPrepend) := by
  have hp := h.prepend
  have hr := h.reader
  have hw := h.writer
  have hlen := h.length_readable
  have hmove : copyWithin b.buffer b.readerIndex kCheapPrepend b.readableBytes
      = store b.buffer kCheapPrepend b.readable := by
    have hend : b.readerIndex + b.readableBytes = b.writerIndex := by
      simp only [readableBytes]
      omega
    rw [copyWithin_eq_store _ hp (by omega), hend, readable]
  obtain ⟨mem, hmem⟩ : ∃ mem, store b.buffer kCheapPrepend b.readable = some mem := by
    simp only [readableBytes] at hlen
    simp only [store]
    rw [if_pos (by omega)]
    exact ⟨_, rfl⟩
  have hsize : mem.length = b.buffer.length := length_store hmem
  refine ⟨⟨mem, kCheapPrepend, kCheapPrepend + b.readableBytes⟩, ?_, ⟨?_, ?_, ?_⟩, hsize, rfl, ?_,
    ?_⟩
  · simp only [compact, hmove, hmem, Option.map_some]
  · exact Nat.le_refl _
  · exact Nat.le_add_right _ _
  · simp only [readableBytes]
    omega
  · rw [← hlen]
    exact slice_store_self hmem
  · simp only [writeableBytes, readableBytes]
    omega

theorem makeSpace_of_not_mustResize (h : b.InRange) {len : Nat} (hfit : ¬ b.mustResize len) :
    ∃ b', b.makeSpace len = some b' ∧ b'.InRange ∧ b'.buffer.length = b.buffer.length ∧
      b'.readerIndex = kCheapPrepend ∧ b'.readable = b.readable ∧ len ≤ b'.writeableBytes := by
  obtain ⟨b', hb', hin, hsize, hreader, hreadable, hgain⟩ := compact_spec h
  refine ⟨b', (if_neg hfit).trans hb', hin, hsize, hreader, hreadable, ?_⟩
  have hp := h.prepend
  simp only [mustResize, prependBytes] at hfit
  omega

/-- Room for `len` bytes needs the resize branch only when what it adds is counted from an index
    that `WriterIndex_` has not passed. -/
def GrowsSafely (b : Buffer) (len : Nat) : Prop :=
  b.writeableBytes < len → b.mustResize len → b.writerIndex ≤ b.writeableBytes

instance (b : Buffer) (len : Nat) : Decidable (b.GrowsSafely len) :=
  inferInstanceAs (Decidable (_ → _ → _))

theorem ensureWriteableBytes_spec (h : b.InRange) {len : Nat} (hgrow : b.GrowsSafely len) :
    ∃ b', b.ensureWriteableBytes len = some b' ∧ b'.InRange ∧ b'.readable = b.readable ∧
      len ≤ b'.writeableBytes := by
  unfold ensureWriteableBytes
  by_cases hroom : b.writeableBytes < len
  · rw [if_pos hroom]
    by_cases hres : b.mustResize len
    · have hle := hgrow hroom hres
      have hend : b.writerIndex ≤ b.writeableBytes + len := by omega
      refine ⟨{ b with buffer := resize 0 b.buffer (b.writeableBytes + len) }, ?_,
        ⟨h.prepend, h.reader, ?_⟩, ?_, ?_⟩
      · rw [makeSpace, if_pos hres]
      · simpa only [length_resize] using hend
      · exact slice_resize 0 b.buffer hend h.writer
      · simp only [writeableBytes, length_resize] at hle ⊢
        omega
    · obtain ⟨b', hb', hin, -, -, hread, hlen⟩ := makeSpace_of_not_mustResize h hres
      exact ⟨b', hb', hin, hread, hlen⟩
  · rw [if_neg hroom]
    exact ⟨b, rfl, h, rfl, by omega⟩

/-- Otherwise the vector ends up too short, possibly shorter than it was. -/
theorem ensureWriteableBytes_of_not_growsSafely {len : Nat} (hgrow : ¬ b.GrowsSafely len) :
    ∃ b', b.ensureWriteableBytes len = some b' ∧ b'.writerIndex = b.writerIndex ∧
      b'.buffer.length < b.writerIndex + len ∧ b'.writeableBytes < len := by
  simp only [GrowsSafely, Classical.not_imp, Nat.not_le] at hgrow
  obtain ⟨hroom, hres, hgt⟩ := hgrow
  refine ⟨{ b with buffer := resize 0 b.buffer (b.writeableBytes + len) }, ?_, rfl, ?_, ?_⟩
  · rw [ensureWriteableBytes, if_pos hroom, makeSpace, if_pos hres]
  · simp only [length_resize]
    omega
  · simp only [writeableBytes, length_resize] at hgt ⊢
    omega

theorem ensureWriteableBytes_iff (h : b.InRange) (len : Nat) :
    (∃ b', b.ensureWriteableBytes len = some b' ∧ len ≤ b'.writeableBytes) ↔ b.GrowsSafely len := by
  constructor
  · rintro ⟨b', hb', hlen⟩
    by_contra hgrow
    obtain ⟨b'', hb'', -, -, hlt⟩ := ensureWriteableBytes_of_not_growsSafely hgrow
    obtain rfl := Option.some.inj (hb'.symm.trans hb'')
    omega
  · intro hgrow
    obtain ⟨b', hb', -, -, hlen⟩ := ensureWriteableBytes_spec h hgrow
    exact ⟨b', hb', hlen⟩

/-! ## Putting bytes in -/

theorem append_spec (h : b.InRange) {data : Bytes} (hgrow : b.GrowsSafely data.length) :
    ∃ b', b.append data = some b' ∧ b'.InRange ∧ b'.readable = b.readable ++ data := by
  obtain ⟨b₁, hb₁, hin, hread, hlen⟩ := ensureWriteableBytes_spec h hgrow
  have hw := hin.writer
  simp only [writeableBytes] at hlen
  obtain ⟨mem, hmem⟩ : ∃ mem, store b₁.buffer b₁.writerIndex data = some mem := by
    simp only [store]
    rw [if_pos (by omega)]
    exact ⟨_, rfl⟩
  have hsize : mem.length = b₁.buffer.length := length_store hmem
  refine ⟨⟨mem, b₁.readerIndex, b₁.writerIndex + data.length⟩, ?_, ⟨hin.prepend, ?_, ?_⟩, ?_⟩
  · rw [append, hb₁, Option.bind_some, hmem, Option.map_some]
  · exact Nat.le_trans hin.reader (Nat.le_add_right _ _)
  · simp only [hsize]
    omega
  · rw [← hread]
    exact slice_store_append hin.reader hmem

/-- What fits behind `WriterIndex_` is written there and nothing else moves. -/
theorem append_of_fits (h : b.InRange) {data : Bytes} (hfit : data.length ≤ b.writeableBytes) :
    ∃ b', b.append data = some b' ∧ b'.readerIndex = b.readerIndex ∧
      b'.writerIndex = b.writerIndex + data.length ∧ b'.buffer.length = b.buffer.length := by
  have hw := h.writer
  obtain ⟨mem, hmem⟩ : ∃ mem, store b.buffer b.writerIndex data = some mem := by
    simp only [writeableBytes] at hfit
    exact ⟨_, if_pos (by omega)⟩
  refine ⟨{ b with buffer := mem, writerIndex := b.writerIndex + data.length }, ?_, rfl, rfl,
    length_store hmem⟩
  rw [append, ensureWriteableBytes, if_neg (Nat.not_lt.2 hfit), Option.bind_some, hmem,
    Option.map_some]

theorem append_of_not_growsSafely {data : Bytes} (hgrow : ¬ b.GrowsSafely data.length) :
    b.append data = none := by
  obtain ⟨b', hb', hw, hlen, -⟩ := ensureWriteableBytes_of_not_growsSafely hgrow
  rw [append, hb', Option.bind_some, hw, store, if_neg (by omega), Option.map_none]

theorem isSome_append_iff (h : b.InRange) (data : Bytes) :
    (b.append data).isSome ↔ b.GrowsSafely data.length := by
  constructor
  · intro hsome
    by_contra hgrow
    rw [append_of_not_growsSafely hgrow] at hsome
    exact absurd hsome (by simp)
  · intro hgrow
    obtain ⟨b', hb', -⟩ := append_spec h hgrow
    rw [hb', Option.isSome_some]

/-- Each of the strings finds its room, behind those before it. -/
def AppendsAll (b : Buffer) : List Bytes → Prop
  | [] => True
  | data :: rest => b.GrowsSafely data.length ∧ ∀ b', b.append data = some b' → b'.AppendsAll rest

theorem append_inv {b' : Buffer} {data : Bytes} (h : b.InRange)
    (happend : b.append data = some b') : b'.InRange ∧ b'.readable = b.readable ++ data := by
  have hgrow := (isSome_append_iff h data).1 (by rw [happend, Option.isSome_some])
  obtain ⟨b₁, hb₁, hin, hread⟩ := append_spec h hgrow
  obtain rfl := Option.some.inj (hb₁.symm.trans happend)
  exact ⟨hin, hread⟩

theorem appendAll_inv {b' : Buffer} {strings : List Bytes} (h : b.InRange)
    (happend : b.appendAll strings = some b') :
    b'.InRange ∧ b'.readable = b.readable ++ strings.flatten := by
  induction strings generalizing b with
  | nil =>
      obtain rfl := Option.some.inj happend
      exact ⟨h, (List.append_nil _).symm⟩
  | cons data rest ih =>
      obtain ⟨b₁, hb₁, hrest⟩ := Option.bind_eq_some_iff.1 happend
      obtain ⟨hin₁, hread₁⟩ := append_inv h hb₁
      obtain ⟨hin, hread⟩ := ih hin₁ hrest
      exact ⟨hin, by rw [hread, hread₁, List.flatten_cons, List.append_assoc]⟩

theorem isSome_appendAll_iff (h : b.InRange) (strings : List Bytes) :
    (b.appendAll strings).isSome ↔ b.AppendsAll strings := by
  induction strings generalizing b with
  | nil => simp [appendAll, AppendsAll]
  | cons data rest ih =>
      rw [AppendsAll, ← isSome_append_iff h, appendAll]
      cases hb : b.append data with
      | none => simp
      | some b' => simpa using ih (append_inv h hb).1

/-- The buffer after `readv` has filled all writable bytes, before the rest is appended. -/
theorem inRange_filled (h : b.InRange) {mem data : Bytes} (hdata : data.length = b.writeableBytes)
    (hmem : store b.buffer b.writerIndex data = some mem) :
    ({ b with buffer := mem, writerIndex := mem.length } : Buffer).InRange ∧
      ({ b with buffer := mem, writerIndex := mem.length } : Buffer).readable
        = b.readable ++ data := by
  have hr := h.reader
  have hw := h.writer
  have hsize : mem.length = b.buffer.length := length_store hmem
  have hend : mem.length = b.writerIndex + data.length := by
    simp only [writeableBytes] at hdata
    omega
  refine ⟨⟨h.prepend, ?_, Nat.le_refl _⟩, ?_⟩
  · simp only
    omega
  · simp only [readable, hend]
    exact slice_store_append hr hmem

theorem store_take_writeableBytes (h : b.InRange) (data : Bytes) :
    ∃ mem, store b.buffer b.writerIndex (data.take b.writeableBytes) = some mem := by
  have hw := h.writer
  refine ⟨_, if_pos ?_⟩
  simp only [List.length_take, writeableBytes]
  omega

/-- The bytes of `readv` that do not fit go through `append` on a full vector: its resize branch
    would shrink it below `WriterIndex_`, so only compaction can make the room. -/
def ReadsSafely (b : Buffer) : Readv → Prop
  | .error _ => True
  | .ok data => b.writeableBytes < data.length →
      data.length - b.writeableBytes + kCheapPrepend ≤ b.readerIndex

instance (b : Buffer) : DecidablePred b.ReadsSafely := fun r => by
  cases r <;> unfold ReadsSafely <;> infer_instance

theorem growsSafely_filled (h : b.InRange) {mem : Bytes} (hsize : mem.length = b.buffer.length)
    (len : Nat) :
    ({ b with buffer := mem, writerIndex := mem.length } : Buffer).GrowsSafely len
      ↔ len + kCheapPrepend ≤ b.readerIndex := by
  have hp := h.prepend
  have hr := h.reader
  have hw := h.writer
  simp only [kCheapPrepend] at hp
  simp only [GrowsSafely, mustResize, writeableBytes, prependBytes, kCheapPrepend]
  omega

/-- The bytes that `readFromFd` adds. -/
def Readv.received : Readv → Bytes
  | .error _ => []
  | .ok data => data

theorem readFromFd_spec (h : b.InRange) {r : Readv} (hread : b.ReadsSafely r) :
    ∃ n err b', b.readFromFd r = some (n, err, b') ∧ b'.InRange ∧
      b'.readable = b.readable ++ r.received := by
  cases r with
  | error errno => exact ⟨_, _, b, rfl, h, by simp [Readv.received]⟩
  | ok data =>
      obtain ⟨mem, hmem⟩ := store_take_writeableBytes h data
      have hsize : mem.length = b.buffer.length := length_store hmem
      have hr := h.reader
      have hw := h.writer
      by_cases hfit : data.length ≤ b.writeableBytes
      · have hall : data.take b.writeableBytes = data := List.take_of_length_le hfit
        refine ⟨data.length, none,
          { b with buffer := mem, writerIndex := b.writerIndex + data.length }, ?_,
          ⟨h.prepend, ?_, ?_⟩, ?_⟩
        · simp only [readFromFd, hmem, Option.bind_some, if_pos hfit]
        · exact Nat.le_trans hr (Nat.le_add_right _ _)
        · simp only [writeableBytes] at hfit
          simp only [hsize]
          omega
        · rw [hall] at hmem
          exact slice_store_append hr hmem
      · have hlen : (data.take b.writeableBytes).length = b.writeableBytes := by
          rw [List.length_take]
          omega
        obtain ⟨hfull, hfullRead⟩ := inRange_filled h hlen hmem
        have hgrow := (growsSafely_filled h hsize (data.drop b.writeableBytes).length).2 (by
          rw [List.length_drop]
          exact hread (by omega))
        obtain ⟨b', hb', hin, happ⟩ := append_spec hfull hgrow
        refine ⟨data.length, none, b', ?_, hin, ?_⟩
        · simp only [readFromFd, hmem, Option.bind_some, if_neg hfit, hb', Option.map_some]
        · rw [happ, hfullRead, List.append_assoc, List.take_append_drop, Readv.received]

theorem readFromFd_of_not_readsSafely (h : b.InRange) {r : Readv} (hread : ¬ b.ReadsSafely r) :
    b.readFromFd r = none := by
  cases r with
  | error errno => exact absurd trivial hread
  | ok data =>
      simp only [ReadsSafely, Classical.not_imp] at hread
      obtain ⟨hfit, hroom⟩ := hread
      obtain ⟨mem, hmem⟩ := store_take_writeableBytes h data
      have hfilled := growsSafely_filled h (length_store hmem) (data.drop b.writeableBytes).length
      have hgrow := mt hfilled.1 (by
        rw [List.length_drop]
        exact hroom)
      simp only [readFromFd, hmem, Option.bind_some, if_neg (Nat.not_le.2 hfit),
        append_of_not_growsSafely hgrow, Option.map_none]

theorem isSome_readFromFd_iff (h : b.InRange) (r : Readv) :
    (b.readFromFd r).isSome ↔ b.ReadsSafely r := by
  constructor
  · intro hsome
    by_contra hread
    rw [readFromFd_of_not_readsSafely h hread] at hsome
    exact absurd hsome (by simp)
  · intro hread
    obtain ⟨n, err, b', hb', -⟩ := readFromFd_spec h hread
    rw [hb', Option.isSome_some]

theorem readFromFd_inv {b' : Buffer} {r : Readv} {n : Int} {err : Option Nat} (h : b.InRange)
    (hread : b.readFromFd r = some (n, err, b')) :
    b'.InRange ∧ b'.readable = b.readable ++ r.received := by
  have hsafe := (isSome_readFromFd_iff h r).1 (by rw [hread, Option.isSome_some])
  obtain ⟨n₁, err₁, b₁, hb₁, hin, hreadable⟩ := readFromFd_spec h hsafe
  obtain rfl : b₁ = b' := congrArg (fun p => p.2.2) (Option.some.inj (hb₁.symm.trans hread))
  exact ⟨hin, hreadable⟩

/-- `readv` delivers nothing exactly when `ReadFromFd` answers 0. -/
theorem readFromFd_length {b' : Buffer} {data : Bytes} {n : Int} {err : Option Nat}
    (hread : b.readFromFd (.ok data) = some (n, err, b')) : n = data.length := by
  simp only [readFromFd] at hread
  obtain ⟨mem, -, hrest⟩ := Option.bind_eq_some_iff.1 hread
  split at hrest
  · exact (congrArg Prod.fst (Option.some.inj hrest)).symm
  · obtain ⟨b₁, -, hb₁⟩ := Option.map_eq_some_iff.1 hrest
    exact (congrArg Prod.fst hb₁).symm

/-! ## With size_t -/

namespace SizeT

variable {len : UInt64}

/-- A buffer in range whose vector has a size that is a `size_t`. -/
structure Sized (b : Buffer) : Prop extends b.InRange where
  size : b.buffer.length < UInt64.size

theorem toNat_writeableBytes (h : Sized b) : (writeableBytes b).toNat = b.writeableBytes := by
  have hw := h.writer
  have hsize := h.size
  have hle : UInt64.ofNat b.writerIndex ≤ UInt64.ofNat b.buffer.length := by
    rw [UInt64.le_iff_toNat_le, UInt64.toNat_ofNat_of_lt' hsize,
      UInt64.toNat_ofNat_of_lt' (Nat.lt_of_le_of_lt hw hsize)]
    exact hw
  rw [writeableBytes, UInt64.toNat_sub_of_le _ _ hle, UInt64.toNat_ofNat_of_lt' hsize,
    UInt64.toNat_ofNat_of_lt' (Nat.lt_of_le_of_lt hw hsize), Buffer.writeableBytes]

theorem writeableBytes_lt_iff (h : Sized b) :
    writeableBytes b < len ↔ b.writeableBytes < len.toNat := by
  rw [UInt64.lt_iff_toNat_lt, toNat_writeableBytes h]

/-- The left side of the test is at most the size of the vector. -/
theorem toNat_writeableBytes_add_prependBytes (h : Sized b) :
    (writeableBytes b + prependBytes b).toNat = b.writeableBytes + b.readerIndex := by
  have hr := h.reader
  have hw := h.writer
  have hsize := h.size
  have hprepend : (prependBytes b).toNat = b.readerIndex :=
    UInt64.toNat_ofNat_of_lt' (by omega)
  rw [UInt64.toNat_add, toNat_writeableBytes h, hprepend]
  refine Nat.mod_eq_of_lt (Nat.lt_of_le_of_lt ?_ hsize)
  simp only [Buffer.writeableBytes]
  omega

theorem toNat_add_kCheapPrepend (h : len.toNat + kCheapPrepend < UInt64.size) :
    (len + UInt64.ofNat kCheapPrepend).toNat = len.toNat + kCheapPrepend := by
  rw [UInt64.toNat_add]
  exact Nat.mod_eq_of_lt h

theorem mustResize_iff (h : Sized b) (hlen : len.toNat + kCheapPrepend < UInt64.size) :
    mustResize b len ↔ b.mustResize len.toNat := by
  rw [mustResize, UInt64.lt_iff_toNat_lt, toNat_writeableBytes_add_prependBytes h,
    toNat_add_kCheapPrepend hlen, Buffer.mustResize, Buffer.prependBytes]

/-- The right side of the test has wrapped around to less than there is in front of the readable
    bytes. -/
theorem not_mustResize_of_wraps (h : Sized b) (hlen : UInt64.size ≤ len.toNat + kCheapPrepend) :
    ¬ mustResize b len := by
  have hp := h.prepend
  have hlt := len.toNat_lt_size
  have hwrapped : (len + UInt64.ofNat kCheapPrepend).toNat
      = len.toNat + kCheapPrepend - UInt64.size := by
    rw [UInt64.toNat_add, show (2 : Nat) ^ 64 = UInt64.size from rfl,
      show (UInt64.ofNat kCheapPrepend).toNat = kCheapPrepend from rfl,
      Nat.mod_eq_sub_mod hlen, Nat.mod_eq_of_lt]
    have hsmall : kCheapPrepend < UInt64.size := by decide
    omega
  rw [mustResize, UInt64.lt_iff_toNat_lt, toNat_writeableBytes_add_prependBytes h, hwrapped]
  omega

/-- The sums that `EnsureWriteableBytes(len)` comes to form are inside of `size_t`. -/
def SumsFit (b : Buffer) (len : UInt64) : Prop :=
  b.writeableBytes < len.toNat → len.toNat + kCheapPrepend < UInt64.size ∧
    (b.mustResize len.toNat → b.writeableBytes + len.toNat < UInt64.size)

/-- `Buffer.GrowsSafely` for any `size_t`. -/
def GrowsSafely (b : Buffer) (len : UInt64) : Prop := SumsFit b len ∧ b.GrowsSafely len.toNat

theorem ensureWriteableBytes_eq (h : Sized b) (hfit : SumsFit b len) :
    ensureWriteableBytes b len = b.ensureWriteableBytes len.toNat := by
  rw [ensureWriteableBytes, Buffer.ensureWriteableBytes]
  simp only [writeableBytes_lt_iff h]
  by_cases hroom : b.writeableBytes < len.toNat
  · obtain ⟨hlen, hgrown⟩ := hfit hroom
    rw [if_pos hroom, if_pos hroom, makeSpace, Buffer.makeSpace]
    simp only [mustResize_iff h hlen]
    by_cases hres : b.mustResize len.toNat
    · have hsum : (writeableBytes b + len).toNat = b.writeableBytes + len.toNat := by
        rw [UInt64.toNat_add, toNat_writeableBytes h]
        exact Nat.mod_eq_of_lt (hgrown hres)
      rw [if_pos hres, if_pos hres, hsum]
    · rw [if_neg hres, if_neg hres]
  · rw [if_neg hroom, if_neg hroom]

/-- The vector has a size that is a `size_t`, however much room was asked for. -/
theorem size_ensureWriteableBytes {b' : Buffer} (hsize : b.buffer.length < UInt64.size)
    (hb' : ensureWriteableBytes b len = some b') : b'.buffer.length < UInt64.size := by
  rw [ensureWriteableBytes] at hb'
  split at hb'
  · rw [makeSpace] at hb'
    split at hb'
    · obtain rfl := Option.some.inj hb'
      rw [length_resize]
      exact UInt64.toNat_lt_size _
    · obtain ⟨mem, hmem, rfl⟩ := Option.map_eq_some_iff.1 hb'
      exact (length_copyWithin hmem).symm ▸ hsize
  · obtain rfl := Option.some.inj hb'
    exact hsize

theorem size_append {b' : Buffer} {data : Bytes} (hsize : b.buffer.length < UInt64.size)
    (hb' : append b data = some b') : b'.buffer.length < UInt64.size := by
  obtain ⟨b₁, hb₁, hstore⟩ := Option.bind_eq_some_iff.1 hb'
  obtain ⟨mem, hmem, rfl⟩ := Option.map_eq_some_iff.1 hstore
  exact (length_store hmem).symm ▸ size_ensureWriteableBytes hsize hb₁

theorem size_readFromFd {b' : Buffer} {r : Readv} {n : Int} {err : Option Nat}
    (hsize : b.buffer.length < UInt64.size) (hb' : readFromFd b r = some (n, err, b')) :
    b'.buffer.length < UInt64.size := by
  cases r with
  | error errno =>
      obtain rfl : b = b' := congrArg (fun p => p.2.2) (Option.some.inj hb')
      exact hsize
  | ok data =>
      obtain ⟨mem, hmem, hrest⟩ := Option.bind_eq_some_iff.1 hb'
      have hmemSize : mem.length < UInt64.size := (length_store hmem).symm ▸ hsize
      split at hrest
      · obtain rfl := congrArg (fun p => p.2.2) (Option.some.inj hrest)
        exact hmemSize
      · obtain ⟨b₁, hb₁, heq⟩ := Option.map_eq_some_iff.1 hrest
        obtain rfl : b₁ = b' := congrArg (fun p => p.2.2) heq
        exact size_append hmemSize hb₁

theorem ensureWriteableBytes_spec (h : Sized b) (hgrow : GrowsSafely b len) :
    ∃ b', ensureWriteableBytes b len = some b' ∧ Sized b' ∧ b'.readable = b.readable ∧
      len.toNat ≤ b'.writeableBytes := by
  obtain ⟨b', hb', hin, hread, hroom⟩ := Buffer.ensureWriteableBytes_spec h.toInRange hgrow.2
  rw [← ensureWriteableBytes_eq h hgrow.1] at hb'
  exact ⟨b', hb', ⟨hin, size_ensureWriteableBytes h.size hb'⟩, hread, hroom⟩

/-- A sum that wraps around leaves the vector too short. -/
theorem ensureWriteableBytes_of_not_sumsFit (h : Sized b) (hfit : ¬ SumsFit b len) :
    ∃ b', ensureWriteableBytes b len = some b' ∧ b'.buffer.length < b'.writerIndex + len.toNat := by
  simp only [SumsFit, Classical.not_imp] at hfit
  obtain ⟨hroom, hfit⟩ := hfit
  have hbranch : ensureWriteableBytes b len = makeSpace b len :=
    if_pos ((writeableBytes_lt_iff h).2 hroom)
  have hp := h.prepend
  have hsize := h.size
  have hlt := len.toNat_lt_size
  rw [hbranch]
  by_cases hlen : len.toNat + kCheapPrepend < UInt64.size
  · -- the new size is the sum that wraps around
    obtain ⟨hres, hgrown⟩ : b.mustResize len.toNat ∧
        UInt64.size ≤ b.writeableBytes + len.toNat := by
      simpa [hlen] using hfit
    have hwrapped : (writeableBytes b + len).toNat
        = b.writeableBytes + len.toNat - UInt64.size := by
      have hle : b.writeableBytes ≤ b.buffer.length := Nat.sub_le _ _
      rw [UInt64.toNat_add, toNat_writeableBytes h, show (2 : Nat) ^ 64 = UInt64.size from rfl,
        Nat.mod_eq_sub_mod hgrown, Nat.mod_eq_of_lt]
      omega
    refine ⟨_, if_pos ((mustResize_iff h hlen).2 hres), ?_⟩
    simp only [length_resize, hwrapped, Buffer.writeableBytes] at hgrown ⊢
    omega
  · -- nothing is resized, for a room that no vector has
    obtain ⟨b', hb', hin, hsame, -⟩ := compact_spec h.toInRange
    refine ⟨b', (if_neg (not_mustResize_of_wraps h (Nat.not_lt.1 hlen))).trans hb', ?_⟩
    have hfront := hin.prepend
    have hback := hin.reader
    omega

theorem ensureWriteableBytes_of_not_growsSafely (h : Sized b) (hgrow : ¬ GrowsSafely b len) :
    ∃ b', ensureWriteableBytes b len = some b' ∧ b'.buffer.length < b'.writerIndex + len.toNat := by
  by_cases hfit : SumsFit b len
  · obtain ⟨b', hb', hwriter, hshort, -⟩ :=
      Buffer.ensureWriteableBytes_of_not_growsSafely fun hnat => hgrow ⟨hfit, hnat⟩
    exact ⟨b', (ensureWriteableBytes_eq h hfit).trans hb', hwriter ▸ hshort⟩
  · exact ensureWriteableBytes_of_not_sumsFit h hfit

theorem ensureWriteableBytes_iff (h : Sized b) (len : UInt64) :
    (∃ b', ensureWriteableBytes b len = some b' ∧ b'.InRange ∧ len ≤ writeableBytes b')
      ↔ GrowsSafely b len := by
  constructor
  · rintro ⟨b', hb', hin, hroom⟩
    by_contra hgrow
    obtain ⟨b₁, hb₁, hshort⟩ := ensureWriteableBytes_of_not_growsSafely h hgrow
    obtain rfl := Option.some.inj (hb'.symm.trans hb₁)
    have hsized : Sized b' := ⟨hin, size_ensureWriteableBytes h.size hb'⟩
    rw [UInt64.le_iff_toNat_le, toNat_writeableBytes hsized, Buffer.writeableBytes] at hroom
    have hw := hin.writer
    omega
  · intro hgrow
    obtain ⟨b', hb', hsized, -, hroom⟩ := ensureWriteableBytes_spec h hgrow
    refine ⟨b', hb', hsized.toInRange, ?_⟩
    rwa [UInt64.le_iff_toNat_le, toNat_writeableBytes hsized]

theorem append_eq {data : Bytes} (h : Sized b) (hdata : data.length < UInt64.size)
    (hfit : SumsFit b (UInt64.ofNat data.length)) : append b data = b.append data := by
  rw [append, ensureWriteableBytes_eq h hfit, UInt64.toNat_ofNat_of_lt' hdata, Buffer.append]

theorem append_of_not_growsSafely {data : Bytes} (h : Sized b) (hdata : data.length < UInt64.size)
    (hgrow : ¬ GrowsSafely b (UInt64.ofNat data.length)) : append b data = none := by
  obtain ⟨b', hb', hshort⟩ := ensureWriteableBytes_of_not_growsSafely h hgrow
  rw [UInt64.toNat_ofNat_of_lt' hdata] at hshort
  rw [append, hb', Option.bind_some, store_eq_none hshort, Option.map_none]

/-- What is left for `append` came out of `extrabuf`, so it is not long. -/
theorem readFromFd_eq (h : Sized b) {data : Bytes} (hdata : data.length ≤ offered b) :
    readFromFd b (.ok data) = b.readFromFd (.ok data) := by
  obtain ⟨mem, hmem⟩ := store_take_writeableBytes h.toInRange data
  simp only [readFromFd, Buffer.readFromFd, toNat_writeableBytes h, hmem, Option.bind_some]
  by_cases hfit : data.length ≤ b.writeableBytes
  · rw [if_pos hfit, if_pos hfit]
  · have hsmall : extrabufSize + kCheapPrepend < UInt64.size := by decide
    have hrest : (data.drop b.writeableBytes).length ≤ extrabufSize := by
      rw [offered, toNat_writeableBytes h] at hdata
      rw [List.length_drop]
      split at hdata <;> omega
    have hfilled : (data.take b.writeableBytes).length = b.writeableBytes := by
      rw [List.length_take]
      omega
    have hfull := (inRange_filled h.toInRange hfilled hmem).1
    have hsized : Sized { b with buffer := mem, writerIndex := mem.length } :=
      ⟨hfull, (length_store hmem).symm ▸ h.size⟩
    have hnone : Buffer.writeableBytes { b with buffer := mem, writerIndex := mem.length } = 0 :=
      Nat.sub_self _
    rw [if_neg hfit, if_neg hfit, append_eq hsized (by omega) fun _ => ?_]
    rw [UInt64.toNat_ofNat_of_lt' (by omega), hnone]
    exact ⟨by omega, fun _ => by omega⟩

end SizeT

end Buffer
