import Muduo.Net.Proofs.Buffer

set_option autoImplicit false

/-! # MakeSpace without a resize

The test that keeps `MakeSpace` from resizing is right as long as its sum does not wrap around: the
bytes in front of the readable ones are then enough. For the last few values of `size_t` it wraps,
and the branch is taken although no buffer has that room. -/

namespace Buffer

variable {b : Buffer} {len : UInt64}

/-- What `MakeSpace(len)` is to make of `b` when it does not resize. -/
structure Compacted (b : Buffer) (len : UInt64) (b' : Buffer) : Prop where
  size : b'.buffer.length = b.buffer.length
  reader : b'.readerIndex = kCheapPrepend
  readable : b'.readable = b.readable
  room : len.toNat ≤ b'.writeableBytes

namespace SizeT

/-- Without a resize the readable bytes are moved, whatever `len` is. -/
theorem makeSpace_moves (h : b.InRange) (hfit : ¬ mustResize b len) :
    ∃ b', makeSpace b len = some b' ∧ b'.InRange ∧ b'.buffer.length = b.buffer.length ∧
      b'.readerIndex = kCheapPrepend ∧ b'.readable = b.readable ∧
      b'.writeableBytes = b.writeableBytes + (b.readerIndex - kCheapPrepend) := by
  obtain ⟨b', hb', hmoved⟩ := compact_spec h
  exact ⟨b', (if_neg hfit).trans hb', hmoved⟩

/-- Bytes that exist are missing, so the destination of the copy lies in front of its source, as
    `std::copy` asks of two ranges that overlap. -/
theorem kCheapPrepend_lt_readerIndex (h : Sized b)
    (hlen : len.toNat + kCheapPrepend < UInt64.size) (hroom : b.writeableBytes < len.toNat)
    (hfit : ¬ mustResize b len) : kCheapPrepend < b.readerIndex := by
  rw [mustResize_iff h hlen, Buffer.mustResize, Buffer.prependBytes] at hfit
  omega

/-- `MakeSpace` without a resize does what it is to do exactly when its test does not wrap. -/
theorem makeSpace_compacted_iff (h : b.InRange) (hsize : b.buffer.length < UInt64.size)
    (hroom : b.writeableBytes < len.toNat) (hfit : ¬ mustResize b len) :
    (∃ b', makeSpace b len = some b' ∧ ensureWriteableBytes b len = some b' ∧
      Compacted b len b') ↔ len.toNat + kCheapPrepend < UInt64.size := by
  obtain ⟨b', hb', hin, hsame, hreader, hreadable, hgain⟩ := makeSpace_moves h hfit
  constructor
  · rintro ⟨b'', hb'', -, hcompacted⟩
    obtain rfl := Option.some.inj (hb'.symm.trans hb'')
    -- the first bytes of the vector are never writable
    have hfront := hin.reader
    have hlen := hcompacted.room
    simp only [Buffer.writeableBytes] at hlen
    omega
  · intro hlen
    have hsized : Sized b := ⟨h, hsize⟩
    have hprepend := h.prepend
    rw [mustResize_iff hsized hlen, Buffer.mustResize, Buffer.prependBytes] at hfit
    refine ⟨b', hb', (if_pos ((writeableBytes_lt_iff hsized).2 hroom)).trans hb', hsame, hreader,
      hreadable, ?_⟩
    omega

/-- Six readable bytes move by two places. -/
theorem makeSpace_compacted_iff_overlapping :
    ∃ b', makeSpace ⟨[0, 0, 0, 0, 0, 0, 0, 0, 7, 7, 1, 2, 3, 4, 5, 6], 10, 16⟩ 2 = some b' ∧
      ensureWriteableBytes ⟨[0, 0, 0, 0, 0, 0, 0, 0, 7, 7, 1, 2, 3, 4, 5, 6], 10, 16⟩ 2
        = some b' ∧
      Compacted ⟨[0, 0, 0, 0, 0, 0, 0, 0, 7, 7, 1, 2, 3, 4, 5, 6], 10, 16⟩ 2 b' :=
  (makeSpace_compacted_iff ⟨by decide, by decide, by decide⟩ (by decide) (by decide)
    (by decide)).2 (by decide)

/-- A request for `SIZE_MAX` bytes on a fresh buffer. -/
theorem ensureWriteableBytes_wraps :
    (Buffer.new kInitialSize).InRange ∧
    ¬ mustResize (Buffer.new kInitialSize) 18446744073709551615 ∧
    ∃ b', makeSpace (Buffer.new kInitialSize) 18446744073709551615 = some b' ∧
      b'.writeableBytes = 1024 ∧
      ¬ Compacted (Buffer.new kInitialSize) 18446744073709551615 b' := by
  have hin := inRange_new kInitialSize
  have hsize : (Buffer.new kInitialSize).buffer.length = 1032 := List.length_replicate
  have hroom : (Buffer.new kInitialSize).writeableBytes = 1024 := by
    rw [Buffer.writeableBytes, hsize]
    rfl
  have hfit : ¬ mustResize (Buffer.new kInitialSize) 18446744073709551615 :=
    not_mustResize_of_wraps ⟨hin, by rw [hsize]; decide⟩ (by decide)
  obtain ⟨b', hb', -, -, -, -, hgain⟩ := makeSpace_moves hin hfit
  have hwriteable : b'.writeableBytes = 1024 := by
    rw [hgain, hroom]
    rfl
  refine ⟨hin, hfit, b', hb', hwriteable, fun hcompacted => ?_⟩
  have hlen := hcompacted.room
  rw [hwriteable] at hlen
  exact absurd hlen (by decide)

end SizeT

end Buffer
