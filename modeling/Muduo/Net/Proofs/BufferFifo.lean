import Muduo.Net.Proofs.Buffer
import Muduo.Lib.Fifo
import Muduo.Lib.Machine

set_option autoImplicit false

/-! # Buffer refines a FIFO byte queue

A run constructs a buffer for any `InitialSize` and makes any calls on it, with lengths that are
`size_t`. Each call that is safe does to the readable bytes what the queue operation does
(`op_spec`), and one that is not touches memory outside of the vector (`exec_of_not_safe`), so the
runs that refine the queue are exactly those whose calls are all safe. -/

namespace Buffer

variable {b : Buffer}

/-- The calls made on a buffer. `retrieveUntil` carries the offset of its pointer from `peek()`. -/
inductive Op
  | append (data : Bytes)
  | readFromFd (r : Readv)
  | retrieve (len : UInt64)
  | retrieveUntil (off : Nat)
  | retrieveAll
  | retrieveToString (len : UInt64)

/-- The call on the buffer; `none` when it touches a byte outside `buffer_`. -/
def Op.exec (b : Buffer) : Op → Option Buffer
  | .append data => SizeT.append b data
  | .readFromFd r => (SizeT.readFromFd b r).map fun res => res.2.2
  | .retrieve len => some (b.retrieve len.toNat)
  | .retrieveUntil off => some (b.retrieveUntil (b.readerIndex + off))
  | .retrieveAll => some b.retrieveAll
  | .retrieveToString len => (b.retrieveToString len.toNat).map Prod.snd

/-- What the kernel and the caller keep to: `data.size()` is a `size_t`, `readv` delivers no more
    than it is offered, and what is taken out lies in the readable region. -/
def Op.Admitted (b : Buffer) : Op → Prop
  | .append data => data.length < UInt64.size
  | .readFromFd (.ok data) => data.length ≤ SizeT.offered b
  | .retrieveUntil off => off ≤ b.readableBytes
  | .retrieveToString len => len.toNat ≤ b.readableBytes
  | _ => True

/-- The call needs no resize of `MakeSpace` that counts from the wrong place, and no sum that wraps
    around. -/
def Op.Safe (b : Buffer) : Op → Prop
  | .append data => SizeT.GrowsSafely b (UInt64.ofNat data.length)
  | .readFromFd r => b.ReadsSafely r
  | _ => True

/-- What the call does to the queue of bytes. -/
def Op.onQueue : Op → Fifo.Op Byte
  | .append data => .push data
  | .readFromFd r => .push r.received
  | .retrieve len => .pop len.toNat
  | .retrieveUntil off => .pop off
  | .retrieveAll => .clear
  | .retrieveToString len => .pop len.toNat

/-- A buffer in use; the state is `none` once a byte outside `buffer_` was touched. -/
def machine (initialSize : UInt64) : Machine (Option Buffer) Op where
  init s := s = some (SizeT.new initialSize)
  step s op := s.map op.exec

def Admitted (s : Option Buffer) (op : Op) : Prop := ∀ b, s = some b → op.Admitted b

def Safe (s : Option Buffer) (op : Op) : Prop := ∀ b, s = some b → op.Safe b

/-- The state is a buffer in range whose readable bytes are the content of the queue. -/
def Represents (s : Option Buffer) (q : Fifo Byte) : Prop :=
  ∃ b, s = some b ∧ SizeT.Sized b ∧ b.readable = q.content

/-- The constructed buffer and the buffer behind every call hold what the queue holds. -/
def RefinesFifo (initialSize : UInt64) (ops : List Op) : Prop :=
  ∀ before s, before <+: ops → (machine initialSize).Reaches Admitted before s →
    Represents s (Fifo.run (before.map Op.onQueue))

/-! ## The calls -/

theorem append_sized (h : SizeT.Sized b) {data : Bytes} (hdata : data.length < UInt64.size)
    (hgrow : SizeT.GrowsSafely b (UInt64.ofNat data.length)) :
    ∃ b', SizeT.append b data = some b' ∧ SizeT.Sized b' ∧ b'.readable = b.readable ++ data := by
  have hnat : b.GrowsSafely data.length := by
    have := hgrow.2
    rwa [UInt64.toNat_ofNat_of_lt' hdata] at this
  obtain ⟨b', hb', hin, hread⟩ := append_spec h.toInRange hnat
  rw [← SizeT.append_eq h hdata hgrow.1] at hb'
  exact ⟨b', hb', ⟨hin, SizeT.size_append h.size hb'⟩, hread⟩

theorem readFromFd_sized (h : SizeT.Sized b) {r : Readv} (hadm : Op.Admitted b (.readFromFd r))
    (hread : b.ReadsSafely r) :
    ∃ n err b', SizeT.readFromFd b r = some (n, err, b') ∧ SizeT.Sized b' ∧
      b'.readable = b.readable ++ r.received := by
  obtain ⟨n, err, b', hb', hin, hreadable⟩ := readFromFd_spec h.toInRange hread
  have hsame : SizeT.readFromFd b r = b.readFromFd r := by
    cases r with
    | error errno => rfl
    | ok data => exact SizeT.readFromFd_eq h hadm
  rw [← hsame] at hb'
  exact ⟨n, err, b', hb', ⟨hin, SizeT.size_readFromFd h.size hb'⟩, hreadable⟩

theorem retrieve_sized (h : SizeT.Sized b) (len : Nat) : SizeT.Sized (b.retrieve len) := by
  refine ⟨inRange_retrieve h.toInRange len, ?_⟩
  unfold retrieve
  split <;> exact h.size

theorem op_spec (h : SizeT.Sized b) {op : Op} (hadm : op.Admitted b) (hsafe : op.Safe b)
    {q : Fifo Byte} (hq : b.readable = q.content) :
    ∃ b', op.exec b = some b' ∧ SizeT.Sized b' ∧
      b'.readable = (q.apply op.onQueue).content := by
  cases op with
  | append data =>
      obtain ⟨b', hb', hsized, hread⟩ := append_sized h hadm hsafe
      exact ⟨b', hb', hsized, by rw [hread, hq]; rfl⟩
  | readFromFd r =>
      obtain ⟨n, err, b', hb', hsized, hread⟩ := readFromFd_sized h hadm hsafe
      exact ⟨b', by simp [Op.exec, hb'], hsized, by rw [hread, hq]; rfl⟩
  | retrieve len =>
      exact ⟨_, rfl, retrieve_sized h _, by rw [readable_retrieve h.toInRange, hq]; rfl⟩
  | retrieveUntil off =>
      have hoff : b.readerIndex + off - b.readerIndex = off := Nat.add_sub_cancel_left ..
      refine ⟨_, rfl, retrieve_sized h _, ?_⟩
      rw [retrieveUntil, readable_retrieve h.toInRange, hoff, hq]
      rfl
  | retrieveAll =>
      refine ⟨_, rfl, ⟨inRange_retrieveAll h.toInRange, h.size⟩, ?_⟩
      simp [Op.onQueue, Fifo.apply]
  | retrieveToString len =>
      refine ⟨b.retrieve len.toNat, ?_, retrieve_sized h _, ?_⟩
      · simp only [Op.exec, retrieveToString_eq h.toInRange hadm, Option.map_some]
      · rw [readable_retrieve h.toInRange, hq]
        rfl

theorem exec_of_not_safe (h : SizeT.Sized b) {op : Op} (hadm : op.Admitted b)
    (hsafe : ¬ op.Safe b) : op.exec b = none := by
  cases op with
  | append data => exact SizeT.append_of_not_growsSafely h hadm hsafe
  | readFromFd r =>
      cases r with
      | error errno => exact absurd trivial hsafe
      | ok data =>
          have hnone := readFromFd_of_not_readsSafely h.toInRange (r := .ok data) hsafe
          simp only [Op.exec, SizeT.readFromFd_eq h hadm, hnone, Option.map_none]
  | retrieve _ => exact absurd trivial hsafe
  | retrieveUntil _ => exact absurd trivial hsafe
  | retrieveAll => exact absurd trivial hsafe
  | retrieveToString _ => exact absurd trivial hsafe

/-! ## The constructor -/

theorem length_new {initialSize : UInt64} (h : kCheapPrepend + initialSize.toNat < UInt64.size) :
    (SizeT.new initialSize).buffer.length = kCheapPrepend + initialSize.toNat := by
  rw [SizeT.new, List.length_replicate, UInt64.toNat_add]
  exact Nat.mod_eq_of_lt h

/-- A sum that wraps around leaves fewer than the `kCheapPrepend` bytes that the indices skip. -/
theorem sized_new_iff (initialSize : UInt64) :
    SizeT.Sized (SizeT.new initialSize) ↔ kCheapPrepend + initialSize.toNat < UInt64.size := by
  constructor
  · intro h
    by_contra hwraps
    have hlt := initialSize.toNat_lt_size
    have hsmall : kCheapPrepend < UInt64.size := by decide
    have hlen : (SizeT.new initialSize).buffer.length
        = kCheapPrepend + initialSize.toNat - UInt64.size := by
      rw [SizeT.new, List.length_replicate, UInt64.toNat_add,
        show (UInt64.ofNat kCheapPrepend).toNat = kCheapPrepend from rfl,
        show (2 : Nat) ^ 64 = UInt64.size from rfl, Nat.mod_eq_sub_mod (Nat.not_lt.1 hwraps),
        Nat.mod_eq_of_lt (by omega)]
    have hw : kCheapPrepend ≤ (SizeT.new initialSize).buffer.length := h.writer
    omega
  · intro h
    have hlen := length_new h
    exact ⟨⟨Nat.le_refl _, Nat.le_refl _, hlen ▸ Nat.le_add_right _ _⟩, hlen ▸ h⟩

@[simp] theorem readable_new_sizeT (initialSize : UInt64) :
    (SizeT.new initialSize).readable = [] := by
  simp [SizeT.new, readable]

/-! ## Runs -/

variable {initialSize : UInt64} {ops : List Op} {s : Option Buffer}

theorem reaches_unique {t : Option Buffer} (run : (machine initialSize).Reaches Admitted ops s)
    (run' : (machine initialSize).Reaches Admitted ops t) : s = t :=
  run.unique (fun _ _ (hs : _ = _) (ht : _ = _) => hs.trans ht.symm) run'

theorem RefinesFifo.of_prefix {before : List Op} (h : RefinesFifo initialSize ops)
    (hfirst : before <+: ops) : RefinesFifo initialSize before :=
  fun first s hstart => h first s (hstart.trans hfirst)

/-- One call more: the queue is still refined if and only if the call is safe. -/
theorem refinesFifo_concat {op : Op} {t : Option Buffer}
    (run : (machine initialSize).Reaches Admitted ops s) (hadm : Admitted s op)
    (hstep : (machine initialSize).step s op = some t) :
    RefinesFifo initialSize (ops ++ [op]) ↔ RefinesFifo initialSize ops ∧ Safe s op := by
  have hrest (h : RefinesFifo initialSize ops) : ∃ b, s = some b ∧ SizeT.Sized b ∧
      b.readable = (Fifo.run (ops.map Op.onQueue)).content := h ops s (List.prefix_refl _) run
  constructor
  · intro h
    have hbefore := h.of_prefix (List.prefix_append ops [op])
    refine ⟨hbefore, ?_⟩
    rintro b rfl
    obtain ⟨b₁, hb₁, hsized, -⟩ := hrest hbefore
    obtain rfl := Option.some.inj hb₁
    by_contra hsafe
    obtain ⟨b', rfl, -⟩ := h _ t (List.prefix_refl _) (run.step hadm hstep)
    have hnone := exec_of_not_safe hsized (hadm b rfl) hsafe
    have hexec : op.exec b = some b' := Option.some.inj hstep
    exact absurd (hnone.symm.trans hexec) (by simp)
  · rintro ⟨h, hsafe⟩ before u hfirst hu
    rcases List.prefix_concat_iff.1 hfirst with rfl | hfirst
    · obtain ⟨b, rfl, hsized, hread⟩ := hrest h
      obtain ⟨b', hb', hsized', hread'⟩ := op_spec hsized (hadm b rfl) (hsafe b rfl) hread
      refine ⟨b', ?_, hsized', ?_⟩
      · rw [← hb', ← reaches_unique (run.step hadm hstep) hu]
        exact (Option.some.inj hstep).symm
      · rw [hread', List.map_append, List.map_singleton, Fifo.run_concat]
    · exact h before u hfirst hu

theorem refinesFifo_nil_iff (initialSize : UInt64) :
    RefinesFifo initialSize [] ↔ kCheapPrepend + initialSize.toNat < UInt64.size := by
  rw [← sized_new_iff]
  constructor
  · intro h
    obtain ⟨b, hb, hsized, -⟩ := h [] _ (List.prefix_refl _) (.init rfl)
    obtain rfl := Option.some.inj hb
    exact hsized
  · intro hsized before s hfirst run
    obtain rfl := List.prefix_nil.1 hfirst
    obtain rfl := reaches_unique run (.init rfl)
    exact ⟨_, rfl, hsized, by simp [Fifo.run]⟩

/-- Over every run of admitted calls on a buffer constructed for any `InitialSize`: the constructed
    buffer and the buffer behind every call are memory safe, in range and hold exactly the bytes of
    the FIFO queue if and only if `kCheapPrepend + InitialSize` does not wrap around and no call
    makes `MakeSpace` form a sum that wraps around, or resize with `WriterIndex_` past the writable
    bytes; and then these are the lengths for which `EnsureWriteableBytes` provides the room it is
    asked for. -/
theorem refines_fifo_iff_growsSafely (initialSize : UInt64) (ops : List Op) (s : Option Buffer)
    (run : (machine initialSize).Reaches Admitted ops s) :
    (RefinesFifo initialSize ops ↔ kCheapPrepend + initialSize.toNat < UInt64.size ∧
      (machine initialSize).Reaches (fun s op => Admitted s op ∧ Safe s op) ops s) ∧
    (RefinesFifo initialSize ops → ∀ b, s = some b → ∀ len,
      ((∃ b', SizeT.ensureWriteableBytes b len = some b' ∧ b'.InRange ∧
        len ≤ SizeT.writeableBytes b') ↔ SizeT.GrowsSafely b len)) := by
  have hguarded (hinit : kCheapPrepend + initialSize.toNat < UInt64.size) :
      RefinesFifo initialSize ops ↔
        (machine initialSize).Reaches (fun s op => Admitted s op ∧ Safe s op) ops s :=
    run.iff_guarded (P := fun ops _ => RefinesFifo initialSize ops)
      (fun _ _ => (refinesFifo_nil_iff initialSize).2 hinit)
      fun _ _ _ _ run hadm hstep => refinesFifo_concat run hadm hstep
  refine ⟨⟨fun h => ?_, fun ⟨hinit, hsafe⟩ => (hguarded hinit).2 hsafe⟩, ?_⟩
  · have hinit := (refinesFifo_nil_iff initialSize).1 (h.of_prefix List.nil_prefix)
    exact ⟨hinit, (hguarded hinit).1 h⟩
  · rintro h b rfl len
    obtain ⟨b₁, hb₁, hsized, -⟩ := h ops _ (List.prefix_refl _) run
    obtain rfl := Option.some.inj hb₁
    exact SizeT.ensureWriteableBytes_iff hsized len

/-- Two bytes fill a small buffer, and one is taken out: a third one fits by compaction. -/
theorem refines_fifo_append_retrieve :
    RefinesFifo 2 [.append [97, 98], .retrieve 1] ∧
    ∃ b', SizeT.ensureWriteableBytes ⟨[0, 0, 0, 0, 0, 0, 0, 0, 97, 98], 9, 10⟩ 1 = some b' ∧
      b'.InRange ∧ 1 ≤ SizeT.writeableBytes b' := by
  have first : SizeT.append (SizeT.new 2) [97, 98]
      = some ⟨[0, 0, 0, 0, 0, 0, 0, 0, 97, 98], 8, 10⟩ := by decide +kernel
  have hadm : Admitted (some (SizeT.new 2)) (.append [97, 98]) := by
    rintro b hb
    exact (by decide : 2 < UInt64.size)
  have hsafe : Safe (some (SizeT.new 2)) (.append [97, 98]) := by
    rintro b hb
    obtain rfl := Option.some.inj hb
    exact ⟨fun hroom => absurd hroom (by decide), fun hroom => absurd hroom (by decide)⟩
  have run : (machine 2).Reaches Admitted [.append [97, 98], .retrieve 1]
      (some ⟨[0, 0, 0, 0, 0, 0, 0, 0, 97, 98], 9, 10⟩) :=
    ((Machine.Reaches.init rfl).step hadm (congrArg some first)).step (fun _ _ => trivial) rfl
  have safe : (machine 2).Reaches (fun s op => Admitted s op ∧ Safe s op)
      [.append [97, 98], .retrieve 1] (some ⟨[0, 0, 0, 0, 0, 0, 0, 0, 97, 98], 9, 10⟩) :=
    ((Machine.Reaches.init rfl).step ⟨hadm, hsafe⟩ (congrArg some first)).step
      ⟨fun _ _ => trivial, fun _ _ => trivial⟩ rfl
  obtain ⟨hiff, hroom⟩ := refines_fifo_iff_growsSafely 2 _ _ run
  have hrefines := hiff.2 ⟨by decide, safe⟩
  refine ⟨hrefines, (hroom hrefines _ rfl 1).2 ⟨fun _ => ⟨by decide, ?_⟩, fun _ => ?_⟩⟩
  · exact fun hres => absurd hres (by decide)
  · exact fun hres => absurd hres (by decide)

/-- 1000 bytes fit into a buffer of the default size. -/
theorem append_to_default :
    ∃ b, SizeT.append (SizeT.new 1024) (List.replicate 1000 97) = some b ∧ SizeT.Sized b ∧
      b.readerIndex = 8 ∧ b.writerIndex = 1008 ∧ b.buffer.length = 1032 := by
  have hsized := (sized_new_iff 1024).2 (by decide)
  have hnew : (SizeT.new 1024).buffer.length = 1032 := length_new (by decide)
  have hlen : (List.replicate 1000 (97 : Byte)).length = 1000 := List.length_replicate
  have hdata : (List.replicate 1000 (97 : Byte)).length < UInt64.size := by
    rw [hlen]
    decide
  have hfit : (List.replicate 1000 (97 : Byte)).length ≤ (SizeT.new 1024).writeableBytes := by
    rw [hlen, writeableBytes, hnew]
    decide
  have hgrow : SizeT.GrowsSafely (SizeT.new 1024)
      (UInt64.ofNat (List.replicate 1000 (97 : Byte)).length) := by
    rw [SizeT.GrowsSafely, SizeT.SumsFit, Buffer.GrowsSafely, UInt64.toNat_ofNat_of_lt' hdata]
    exact ⟨fun hroom => absurd hroom (Nat.not_lt.2 hfit),
      fun hroom => absurd hroom (Nat.not_lt.2 hfit)⟩
  obtain ⟨b, hb, hsized', -⟩ := append_sized hsized hdata hgrow
  obtain ⟨b₁, hb₁, hr, hw, hsize⟩ := append_of_fits hsized.toInRange hfit
  rw [← SizeT.append_eq hsized hdata hgrow.1] at hb₁
  obtain rfl := Option.some.inj (hb.symm.trans hb₁)
  exact ⟨b, hb, hsized', hr, by rw [hw, hlen]; rfl, hsize.trans hnew⟩

/-- A buffer of the default size with 1000 bytes in it: the next 100 bytes make `MakeSpace` shrink
    the vector to 124 bytes, and they are copied behind its end. -/
theorem append_overruns_default_buffer :
    (machine 1024).Reaches Admitted
      [.append (List.replicate 1000 97), .append (List.replicate 100 98)] none ∧
    ¬ RefinesFifo 1024 [.append (List.replicate 1000 97), .append (List.replicate 100 98)] := by
  have hlen (n : Nat) (x : Byte) (hn : n < UInt64.size) :
      (List.replicate n x).length < UInt64.size := by rwa [List.length_replicate]
  obtain ⟨b, hb, hsized, hr, hw, hsize⟩ := append_to_default
  have hgrow : ¬ SizeT.GrowsSafely b (UInt64.ofNat (List.replicate 100 (98 : Byte)).length) := by
    rw [List.length_replicate, SizeT.GrowsSafely, Buffer.GrowsSafely, mustResize, prependBytes,
      writeableBytes, hr, hw, hsize]
    exact fun h => absurd (h.2 (by decide) (by decide)) (by decide)
  have hover := SizeT.append_of_not_growsSafely hsized (hlen 100 98 (by decide)) hgrow
  have first : (machine 1024).Reaches Admitted ([] ++ [.append (List.replicate 1000 97)])
      (some b) := .step (.init rfl) (fun _ _ => hlen 1000 97 (by decide)) (congrArg some hb)
  have run : (machine 1024).Reaches Admitted
      ([.append (List.replicate 1000 97)] ++ [.append (List.replicate 100 98)]) none :=
    first.step (fun _ _ => hlen 100 98 (by decide)) (congrArg some hover)
  refine ⟨run, fun h => ?_⟩
  obtain ⟨b', hb', -⟩ := h _ none (List.prefix_refl _) run
  exact absurd hb' (by simp)

end Buffer
