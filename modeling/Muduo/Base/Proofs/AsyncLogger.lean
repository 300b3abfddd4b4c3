import Muduo.Base.AsyncLogger

set_option autoImplicit false

/-! # The logger's buffers

`Sound` is what holds of the pointers, for each point of `StartLog`: `CurrentBuffer_` is missing
only while the lock is held, and `buffer2` is missing only when the batch has a second buffer to
replace it. -/

namespace AsyncLogger

variable {s t : AsyncLogger} {a : Action}

/-! ## What a step of StartLog does -/

/-- The steps of `StartLog`, one constructor for each outcome. -/
inductive Logs (s : AsyncLogger) : AsyncLogger → Prop
  | countDown (hpc : s.pc = .countDown) :
      Logs s { s with
        pc := .testRunning, buffer1 := some (.new _), buffer2 := some (.new _) }
  | goOn (hpc : s.pc = .testRunning) (hrunning : s.running = true) : Logs s { s with pc := .lock }
  | leave (hpc : s.pc = .testRunning) (hrunning : s.running = false) :
      Logs s { s with pc := .lastFlush }
  | lock (hpc : s.pc = .lock) : Logs s { s with pc := .testBuffers }
  | wait (hpc : s.pc = .testBuffers) : Logs s { s with pc := .waiting }
  | full (hpc : s.pc = .testBuffers) : Logs s { s with pc := .pushCurrent }
  | wake (hpc : s.pc = .waiting) : Logs s { s with pc := .pushCurrent }
  | pushCurrent (hpc : s.pc = .pushCurrent) :
      Logs s { s with
        pc := .moveBuffer1, buffers := s.buffers ++ [s.currentBuffer], currentBuffer := none }
  | moveBuffer1 (hpc : s.pc = .moveBuffer1) :
      Logs s { s with pc := .swap, currentBuffer := s.buffer1, buffer1 := none }
  | swap (hpc : s.pc = .swap) :
      Logs s { s with pc := .testNext, buffersWrite := s.buffers, buffers := s.buffersWrite }
  | nextMissing (hpc : s.pc = .testNext) (hnext : s.nextBuffer = none) :
      Logs s { s with pc := .moveBuffer2 }
  | nextThere (hpc : s.pc = .testNext) (hnext : s.nextBuffer ≠ none) :
      Logs s { s with pc := .unlock }
  | moveBuffer2 (hpc : s.pc = .moveBuffer2) :
      Logs s { s with pc := .unlock, nextBuffer := s.buffer2, buffer2 := none }
  | unlock (hpc : s.pc = .unlock) : Logs s { s with pc := .testSize }
  | tooMany (hpc : s.pc = .testSize) (hsize : 25 < s.buffersWrite.length) :
      Logs s { s with pc := .notice }
  | fewEnough (hpc : s.pc = .testSize) : Logs s { s with pc := .write 0 }
  | notice (now : Timestamp) (hpc : s.pc = .notice) :
      Logs s { s with
        pc := .erase, output := s.output ++ [.notice now (s.buffersWrite.length - 2)] }
  | erase (hpc : s.pc = .erase) :
      Logs s { s with
        pc := .write 0
        buffersWrite := s.buffersWrite.take 2
        erased := s.erased ++ (s.buffersWrite.drop 2).map content }
  | write {k : Nat} {b : Buffer} (hpc : s.pc = .write k)
      (hget : s.buffersWrite[k]? = some (some b)) :
      Logs s { s with pc := .write (k + 1), output := s.output ++ [.buffer b.data] }
  | null {k : Nat} (hpc : s.pc = .write k) (hget : s.buffersWrite[k]? = some none) :
      Logs s { s with pc := .write k, fault := true }
  | written {k : Nat} (hpc : s.pc = .write k) (hget : s.buffersWrite[k]? = none) :
      Logs s { s with pc := .resize }
  | resize (hpc : s.pc = .resize) :
      Logs s { s with pc := .refillBuffer1, buffersWrite := s.buffersWrite.take 2 }
  | refillBuffer1 {b : Buffer} (hpc : s.pc = .refillBuffer1)
      (hlast : s.buffersWrite.getLast? = some (some b)) :
      Logs s { s with
        pc := .refillBuffer2
        buffersWrite := s.buffersWrite.dropLast
        buffer1 := some (.new _) }
  | noBuffer1 (hpc : s.pc = .refillBuffer1) (hmissing : s.buffer1 = none)
      (hlast : ∀ b, s.buffersWrite.getLast? ≠ some (some b)) :
      Logs s { s with pc := .refillBuffer2, fault := true }
  | keepBuffer1 (hpc : s.pc = .refillBuffer1) (hthere : s.buffer1 ≠ none) :
      Logs s { s with pc := .refillBuffer2 }
  | refillBuffer2 {b : Buffer} (hpc : s.pc = .refillBuffer2) (hmissing : s.buffer2 = none)
      (hlast : s.buffersWrite.getLast? = some (some b)) :
      Logs s { s with
        pc := .clear
        buffersWrite := s.buffersWrite.dropLast
        buffer2 := some (.new _) }
  | noBuffer2 (hpc : s.pc = .refillBuffer2) (hmissing : s.buffer2 = none)
      (hlast : ∀ b, s.buffersWrite.getLast? ≠ some (some b)) :
      Logs s { s with pc := .clear, fault := true }
  | keepBuffer2 (hpc : s.pc = .refillBuffer2) (hthere : s.buffer2 ≠ none) :
      Logs s { s with pc := .clear }
  | clear (hpc : s.pc = .clear) : Logs s { s with pc := .flush, buffersWrite := [] }
  | flush (hpc : s.pc = .flush) : Logs s { s with pc := .testRunning }
  | lastFlush (hpc : s.pc = .lastFlush) : Logs s { s with pc := .done }

/-- Keeping at most two buffers is what `resize` does to any vector. -/
theorem take_two_of_not_gt {l : BufferVector} :
    (if l.length > 2 then l.take 2 else l) = l.take 2 := by
  split
  · rfl
  · exact (List.take_of_length_le (by omega)).symm

theorem refill_cases (s : AsyncLogger) (store : AsyncLogger → BufferPtr → AsyncLogger) :
    (∃ b, s.buffersWrite.getLast? = some (some b) ∧
      s.refill store =
        store { s with buffersWrite := s.buffersWrite.dropLast } (some (.new _))) ∨
      (∀ b, s.buffersWrite.getLast? ≠ some (some b)) ∧
        s.refill store = { s with fault := true } := by
  unfold refill
  split
  · rename_i b hlast
    exact Or.inl ⟨b, hlast, rfl⟩
  · rename_i hlast
    exact Or.inr ⟨hlast, rfl⟩

theorem log_cases {now : Timestamp} (h : s.log now = some t) : Logs s t := by
  cases hpc : s.pc with
  | idle => exact absurd h (by simp [log, hpc])
  | done => exact absurd h (by simp [log, hpc])
  | testRunning =>
      simp only [log, hpc, Option.some.injEq] at h
      obtain rfl := h
      split
      · rename_i hrunning
        exact .goOn hpc hrunning
      · rename_i hrunning
        exact .leave hpc (by simpa using hrunning)
  | testBuffers =>
      simp only [log, hpc, Option.some.injEq] at h
      obtain rfl := h
      split
      · exact .wait hpc
      · exact .full hpc
  | testNext =>
      simp only [log, hpc, Option.some.injEq] at h
      obtain rfl := h
      split
      · rename_i hnext
        exact .nextMissing hpc hnext
      · rename_i hnext
        exact .nextThere hpc hnext
  | testSize =>
      simp only [log, hpc, Option.some.injEq] at h
      obtain rfl := h
      split
      · rename_i hsize
        exact .tooMany hpc hsize
      · exact .fewEnough hpc
  | write k =>
      simp only [log, hpc] at h
      split at h
      · rename_i hget
        obtain rfl := Option.some.inj h
        exact .written hpc hget
      · rename_i hget
        obtain rfl := Option.some.inj h
        exact .null hpc hget
      · rename_i b hget
        obtain rfl := Option.some.inj h
        exact .write hpc hget
  | resize =>
      simp only [log, hpc, Option.some.injEq, take_two_of_not_gt] at h
      obtain rfl := h
      exact .resize hpc
  | refillBuffer1 =>
      simp only [log, hpc, Option.some.injEq] at h
      obtain rfl := h
      split
      · rename_i hmissing
        rcases refill_cases { s with pc := .refillBuffer2 } fun s b => { s with buffer1 := b } with
          ⟨b, hlast, heq⟩ | ⟨hlast, heq⟩
        · exact heq ▸ .refillBuffer1 hpc hlast
        · exact heq ▸ .noBuffer1 hpc hmissing hlast
      · rename_i hthere
        exact .keepBuffer1 hpc hthere
  | refillBuffer2 =>
      simp only [log, hpc, Option.some.injEq] at h
      obtain rfl := h
      split
      · rename_i hmissing
        rcases refill_cases { s with pc := .clear } fun s b => { s with buffer2 := b } with
          ⟨b, hlast, heq⟩ | ⟨hlast, heq⟩
        · exact heq ▸ .refillBuffer2 hpc hmissing hlast
        · exact heq ▸ .noBuffer2 hpc hmissing hlast
      · rename_i hthere
        exact .keepBuffer2 hpc hthere
  | countDown =>
      simp only [log, hpc, Option.some.injEq] at h
      obtain rfl := h
      exact .countDown hpc
  | lock =>
      simp only [log, hpc, Option.some.injEq] at h
      obtain rfl := h
      exact .lock hpc
  | waiting =>
      simp only [log, hpc, Option.some.injEq] at h
      obtain rfl := h
      exact .wake hpc
  | pushCurrent =>
      simp only [log, hpc, Option.some.injEq] at h
      obtain rfl := h
      exact .pushCurrent hpc
  | moveBuffer1 =>
      simp only [log, hpc, Option.some.injEq] at h
      obtain rfl := h
      exact .moveBuffer1 hpc
  | swap =>
      simp only [log, hpc, Option.some.injEq] at h
      obtain rfl := h
      exact .swap hpc
  | moveBuffer2 =>
      simp only [log, hpc, Option.some.injEq] at h
      obtain rfl := h
      exact .moveBuffer2 hpc
  | unlock =>
      simp only [log, hpc, Option.some.injEq] at h
      obtain rfl := h
      exact .unlock hpc
  | notice =>
      simp only [log, hpc, Option.some.injEq] at h
      obtain rfl := h
      exact .notice now hpc
  | erase =>
      simp only [log, hpc, Option.some.injEq] at h
      obtain rfl := h
      exact .erase hpc
  | clear =>
      simp only [log, hpc, Option.some.injEq] at h
      obtain rfl := h
      exact .clear hpc
  | flush =>
      simp only [log, hpc, Option.some.injEq] at h
      obtain rfl := h
      exact .flush hpc
  | lastFlush =>
      simp only [log, hpc, Option.some.injEq] at h
      obtain rfl := h
      exact .lastFlush hpc

/-- What `StartLog` leaves alone. -/
theorem Logs.frame (hstep : Logs s t) :
    t.owner = s.owner ∧ t.running = s.running ∧ t.appended = s.appended ∧
      t.beforeStop = s.beforeStop := by
  cases hstep <;> exact ⟨rfl, rfl, rfl, rfl⟩

/-- Without a thread there are no steps of it. -/
theorem Logs.pc_started (hstep : Logs s t) : s.pc ≠ .idle ∧ s.pc ≠ .done := by
  cases hstep <;> simp_all

theorem Logs.pc_ne (hstep : Logs s t) (hswap : s.pc = .swap) : t.pc ≠ .swap := by
  cases hstep <;> simp_all

/-! ## The pointers -/

/-- Non-null and empty. -/
def Spare (b : BufferPtr) : Prop := b = some (.new _)

/-- What holds whenever `mutex_` is free. -/
def Shared (s : AsyncLogger) : Prop :=
  s.currentBuffer ≠ none ∧ (s.nextBuffer = none → s.buffers ≠ [])

/-- The thread has both of its buffers and no batch. -/
def Idle (s : AsyncLogger) : Prop := Spare s.buffer1 ∧ Spare s.buffer2 ∧ s.buffersWrite = []

/-- The thread has a batch, and its buffers can be replaced from it. -/
def Holds (s : AsyncLogger) : Prop :=
  s.buffer1 = none ∧ 1 ≤ s.buffersWrite.length ∧
    (Spare s.buffer2 ∨ s.buffer2 = none ∧ 2 ≤ s.buffersWrite.length)

/-- The pointers at each point of `StartLog`. -/
def Phase (s : AsyncLogger) : Prop :=
  match s.pc with
  | .idle => s.Shared ∧ s.buffersWrite = []
  | .countDown => s.Shared ∧ s.buffersWrite = []
  | .moveBuffer1 =>
      s.Idle ∧ 1 ≤ s.buffers.length ∧ (s.nextBuffer = none → 2 ≤ s.buffers.length)
  | .swap =>
      s.currentBuffer ≠ none ∧ s.buffer1 = none ∧ Spare s.buffer2 ∧ s.buffersWrite = [] ∧
        1 ≤ s.buffers.length ∧ (s.nextBuffer = none → 2 ≤ s.buffers.length)
  | .testNext =>
      s.currentBuffer ≠ none ∧ s.buffer1 = none ∧ Spare s.buffer2 ∧ 1 ≤ s.buffersWrite.length ∧
        (s.nextBuffer = none → 2 ≤ s.buffersWrite.length)
  | .moveBuffer2 =>
      s.currentBuffer ≠ none ∧ s.buffer1 = none ∧ Spare s.buffer2 ∧ 2 ≤ s.buffersWrite.length
  | .unlock => s.currentBuffer ≠ none ∧ s.nextBuffer ≠ none ∧ s.Holds
  | .testSize => s.Shared ∧ s.Holds
  | .notice => s.Shared ∧ s.Holds ∧ 25 < s.buffersWrite.length
  | .erase => s.Shared ∧ s.Holds ∧ 25 < s.buffersWrite.length
  | .write _ => s.Shared ∧ s.Holds
  | .resize => s.Shared ∧ s.Holds
  | .refillBuffer1 => s.Shared ∧ s.Holds
  | .refillBuffer2 =>
      s.Shared ∧ Spare s.buffer1 ∧ (Spare s.buffer2 ∨ s.buffer2 = none ∧ 1 ≤ s.buffersWrite.length)
  | .clear => s.Shared ∧ Spare s.buffer1 ∧ Spare s.buffer2
  | _ => s.Shared ∧ s.Idle

structure Sound (s : AsyncLogger) : Prop where
  fault : s.fault = false
  buffers : none ∉ s.buffers
  batch : none ∉ s.buffersWrite
  next : ∀ b ∈ s.nextBuffer, b = .new _
  phase : s.Phase

/-! ### append -/

/-- What `append` leaves alone. -/
theorem append_frame (s : AsyncLogger) (msg : Bytes) :
    (s.append msg).owner = s.owner ∧ (s.append msg).pc = s.pc ∧
      (s.append msg).running = s.running ∧ (s.append msg).buffer1 = s.buffer1 ∧
      (s.append msg).buffer2 = s.buffer2 ∧ (s.append msg).buffersWrite = s.buffersWrite ∧
      (s.append msg).output = s.output ∧ (s.append msg).erased = s.erased ∧
      (s.append msg).beforeStop = s.beforeStop := by
  unfold append
  split
  · simp
  · split <;> simp

theorem appended_append (s : AsyncLogger) (msg : Bytes) :
    s.appended <+: (s.append msg).appended := by
  unfold append
  split
  · exact List.prefix_refl _
  · split <;> exact List.prefix_append _ _

/-- The message joins the current buffer, or a spare one when it does not fit. -/
theorem append_cases (hs : s.Sound) (hshared : s.Shared) (msg : Bytes) :
    ∃ current : Buffer, s.currentBuffer = some current ∧
      (current.freeSize > msg.length ∧
          s.append msg =
            { s with
              currentBuffer := some (current.append msg)
              appended := s.appended ++ [msg] } ∨
        s.append msg =
          { s with
            buffers := s.buffers ++ [some current]
            nextBuffer := none
            currentBuffer := some ((FixedBuffer.new _).append msg)
            appended := s.appended ++ [msg] }) := by
  obtain ⟨current, hcurrent⟩ := Option.ne_none_iff_exists'.1 hshared.1
  refine ⟨current, hcurrent, ?_⟩
  by_cases hfits : current.freeSize > msg.length
  · refine Or.inl ⟨hfits, ?_⟩
    simp only [append, hcurrent, if_pos hfits]
  · have hnext : s.nextBuffer.getD (.new _) = .new _ := by
      cases hb : s.nextBuffer with
      | none => rfl
      | some b => exact hs.next b hb
    right
    simp only [append, hcurrent, if_neg hfits, hnext]

/-- Outside of the critical section nothing is missing. -/
theorem Phase.shared (h : s.Phase) (hfree : s.pc.locked = false) : s.Shared := by
  unfold Phase at h
  revert h hfree
  cases s.pc <;> intro h hfree <;> first | exact h.1 | exact absurd hfree (by decide)

/-- The points of `StartLog` are not concerned by what happens to the shared buffers. -/
theorem Phase.of_shared (h : s.Phase) (hfree : s.pc.locked = false) (ht : t.Shared)
    (hframe : t.pc = s.pc ∧ t.buffer1 = s.buffer1 ∧ t.buffer2 = s.buffer2 ∧
      t.buffersWrite = s.buffersWrite) : t.Phase := by
  obtain ⟨hpc, hbuffer1, hbuffer2, hbatch⟩ := hframe
  unfold Phase at h ⊢
  simp only [Idle, Holds, hpc, hbuffer1, hbuffer2, hbatch] at h ⊢
  revert h hfree
  cases s.pc <;> intro h hfree <;> first | exact absurd hfree (by decide) | exact ⟨ht, h.2⟩

theorem Sound.append (h : s.Sound) (hfree : s.pc.locked = false) (msg : Bytes) :
    (s.append msg).Sound := by
  have hshared := h.phase.shared hfree
  obtain ⟨-, hpc, -, hbuffer1, hbuffer2, hbatch, -⟩ := s.append_frame msg
  have hphase : (s.append msg).Shared → (s.append msg).Phase := fun ht =>
    h.phase.of_shared hfree ht ⟨hpc, hbuffer1, hbuffer2, hbatch⟩
  obtain ⟨current, hcurrent, ⟨hfits, heq⟩ | heq⟩ := append_cases h hshared msg
  · rw [heq] at hphase ⊢
    exact ⟨h.fault, h.buffers, h.batch, h.next, hphase ⟨by simp, hshared.2⟩⟩
  · rw [heq] at hphase ⊢
    refine ⟨h.fault, ?_, h.batch, by simp, hphase ⟨by simp, by simp⟩⟩
    simpa using h.buffers

/-! ### StartLog -/

theorem ne_none_of_spare {b : BufferPtr} (h : Spare b) : b ≠ none := by
  unfold Spare at h
  simp [h]

/-- A vector without null pointers has a last buffer. -/
theorem exists_getLast? {l : BufferVector} (hnull : none ∉ l) (hlength : 1 ≤ l.length) :
    ∃ b, l.getLast? = some (some b) := by
  obtain ⟨last, hlast⟩ := Option.ne_none_iff_exists'.1
    (fun h => absurd (List.getLast?_eq_none_iff.1 h) (List.length_pos_iff.1 hlength))
  cases last with
  | none => exact absurd (List.mem_of_getLast? hlast) hnull
  | some b => exact ⟨b, hlast⟩

theorem length_of_queued {l : BufferVector} {next : BufferPtr} (b : BufferPtr)
    (hqueued : next = none → l ≠ []) :
    1 ≤ (l ++ [b]).length ∧ (next = none → 2 ≤ (l ++ [b]).length) := by
  rw [List.length_append, List.length_singleton]
  refine ⟨by omega, ?_⟩
  intro hnext
  have hlength := List.length_pos_iff.2 (hqueued hnext)
  omega

theorem Sound.log (h : s.Sound) (hstep : Logs s t) : t.Sound := by
  have hphase := h.phase
  unfold Phase at hphase
  cases hstep with
  | countDown hpc =>
      simp only [hpc] at hphase
      exact ⟨h.fault, h.buffers, h.batch, h.next, hphase.1, rfl, rfl, hphase.2⟩
  -- nothing happens to the pointers
  | goOn hpc | leave hpc | lock hpc | wait hpc | full hpc | wake hpc | fewEnough hpc | notice _ hpc
  | write hpc | written hpc | flush hpc | lastFlush hpc =>
      simp only [hpc] at hphase
      exact ⟨h.fault, h.buffers, h.batch, h.next, hphase⟩
  | pushCurrent hpc =>
      simp only [hpc] at hphase
      obtain ⟨⟨hcurrent, hqueued⟩, hidle⟩ := hphase
      have hbuffers : none ∉ s.buffers ++ [s.currentBuffer] := by
        simpa [h.buffers] using Ne.symm hcurrent
      exact ⟨h.fault, hbuffers, h.batch, h.next, hidle, length_of_queued _ hqueued⟩
  | moveBuffer1 hpc =>
      simp only [hpc] at hphase
      obtain ⟨⟨hbuffer1, hbuffer2, hbatch⟩, hlength⟩ := hphase
      exact ⟨h.fault, h.buffers, h.batch, h.next, ne_none_of_spare hbuffer1, rfl, hbuffer2, hbatch,
        hlength⟩
  | swap hpc =>
      simp only [hpc] at hphase
      obtain ⟨hcurrent, hbuffer1, hbuffer2, hbatch, hlength⟩ := hphase
      exact ⟨h.fault, h.batch, h.buffers, h.next, hcurrent, hbuffer1, hbuffer2, hlength⟩
  | nextMissing hpc hnext =>
      simp only [hpc] at hphase
      obtain ⟨hcurrent, hbuffer1, hbuffer2, -, hlength⟩ := hphase
      exact ⟨h.fault, h.buffers, h.batch, h.next, hcurrent, hbuffer1, hbuffer2, hlength hnext⟩
  | nextThere hpc hnext =>
      simp only [hpc] at hphase
      obtain ⟨hcurrent, hbuffer1, hbuffer2, hlength, -⟩ := hphase
      exact ⟨h.fault, h.buffers, h.batch, h.next, hcurrent, hnext, hbuffer1, hlength,
        Or.inl hbuffer2⟩
  | moveBuffer2 hpc =>
      simp only [hpc] at hphase
      obtain ⟨hcurrent, hbuffer1, hbuffer2, hlength⟩ := hphase
      have hnext : ∀ b ∈ s.buffer2, b = .new _ := by
        intro b hb
        exact Option.some.inj (hb.symm.trans hbuffer2)
      exact ⟨h.fault, h.buffers, h.batch, hnext, hcurrent, ne_none_of_spare hbuffer2, hbuffer1,
        Nat.le_of_succ_le hlength, Or.inr ⟨rfl, hlength⟩⟩
  | unlock hpc =>
      simp only [hpc] at hphase
      obtain ⟨hcurrent, hnext, hholds⟩ := hphase
      exact ⟨h.fault, h.buffers, h.batch, h.next, ⟨hcurrent, fun hnone => absurd hnone hnext⟩,
        hholds⟩
  | tooMany hpc hsize =>
      simp only [hpc] at hphase
      exact ⟨h.fault, h.buffers, h.batch, h.next, hphase.1, hphase.2, hsize⟩
  | erase hpc =>
      simp only [hpc] at hphase
      obtain ⟨hshared, ⟨hbuffer1, -, hbuffer2⟩, hsize⟩ := hphase
      -- two buffers are left, as many as can be missing
      have hlength : 2 ≤ (s.buffersWrite.take 2).length := by
        rw [List.length_take]
        omega
      exact ⟨h.fault, h.buffers, fun hnull => h.batch (List.mem_of_mem_take hnull), h.next, hshared,
        hbuffer1, Nat.le_of_succ_le hlength, hbuffer2.imp_right fun hnone => ⟨hnone.1, hlength⟩⟩
  | null hpc hget => exact absurd (List.mem_of_getElem? hget) h.batch
  | resize hpc =>
      simp only [hpc] at hphase
      obtain ⟨hshared, hbuffer1, hlength, hbuffer2⟩ := hphase
      have htake : ∀ n ≤ 2, n ≤ s.buffersWrite.length → n ≤ (s.buffersWrite.take 2).length := by
        intro n hn hle
        rw [List.length_take]
        omega
      exact ⟨h.fault, h.buffers, fun hnull => h.batch (List.mem_of_mem_take hnull), h.next, hshared,
        hbuffer1, htake 1 (by omega) hlength,
        hbuffer2.imp_right fun hnone => ⟨hnone.1, htake 2 (by omega) hnone.2⟩⟩
  | refillBuffer1 hpc =>
      simp only [hpc] at hphase
      obtain ⟨hshared, -, -, hbuffer2⟩ := hphase
      have hrest : 2 ≤ s.buffersWrite.length → 1 ≤ s.buffersWrite.dropLast.length := by
        rw [List.length_dropLast]
        omega
      exact ⟨h.fault, h.buffers, fun hnull => h.batch (List.dropLast_subset _ hnull), h.next,
        hshared, rfl, hbuffer2.imp_right fun hnone => ⟨hnone.1, hrest hnone.2⟩⟩
  | noBuffer1 hpc hmissing hlast =>
      simp only [hpc] at hphase
      obtain ⟨b, hb⟩ := exists_getLast? h.batch hphase.2.2.1
      exact absurd hb (hlast b)
  | keepBuffer1 hpc hthere =>
      simp only [hpc] at hphase
      exact absurd hphase.2.1 hthere
  | refillBuffer2 hpc =>
      simp only [hpc] at hphase
      exact ⟨h.fault, h.buffers, fun hnull => h.batch (List.dropLast_subset _ hnull), h.next,
        hphase.1, hphase.2.1, rfl⟩
  | noBuffer2 hpc hmissing hlast =>
      simp only [hpc] at hphase
      obtain ⟨-, -, hspare | ⟨-, hlength⟩⟩ := hphase
      · exact absurd hmissing (ne_none_of_spare hspare)
      · obtain ⟨b, hb⟩ := exists_getLast? h.batch hlength
        exact absurd hb (hlast b)
  | keepBuffer2 hpc hthere =>
      simp only [hpc] at hphase
      obtain ⟨hshared, hbuffer1, hspare | ⟨hnone, -⟩⟩ := hphase
      · exact ⟨h.fault, h.buffers, h.batch, h.next, hshared, hbuffer1, hspare⟩
      · exact absurd hnone hthere
  | clear hpc =>
      simp only [hpc] at hphase
      obtain ⟨hshared, hbuffer1, hbuffer2⟩ := hphase
      exact ⟨h.fault, h.buffers, by simp, h.next, hshared, hbuffer1, hbuffer2, rfl⟩

/-- The callers' steps that are no `append`. -/
inductive Calls (s : AsyncLogger) : Action → AsyncLogger → Prop
  | start (howner : s.owner = .constructed) :
      Calls s .start { s with owner := .waitLatch, running := true, pc := .countDown }
  | waitLatch (howner : s.owner = .waitLatch) : Calls s .waitLatch { s with owner := .started }
  | stop (howner : s.owner = .started) :
      Calls s .stop { s with owner := .notify, running := false, beforeStop := s.appended }
  | notify (howner : s.owner = .notify) : Calls s .notify { s with owner := .join }
  | join (howner : s.owner = .join) (hpc : s.pc = .done) :
      Calls s .join { s with owner := .stopped }

theorem step_cases (h : s.step a = some t) :
    (∃ msg, a = .append msg ∧ s.pc.locked = false ∧ t = s.append msg) ∨
      (∃ now, a = .log now ∧ Logs s t) ∨ Calls s a t := by
  cases a with
  | append msg =>
      simp only [step, Option.ite_none_left_eq_some, Option.some.injEq] at h
      exact Or.inl ⟨msg, rfl, by simpa using h.1, h.2.symm⟩
  | log now => exact Or.inr (Or.inl ⟨now, rfl, log_cases h⟩)
  | start =>
      simp only [step, Option.ite_none_right_eq_some, Option.some.injEq] at h
      obtain ⟨howner, rfl⟩ := h
      exact Or.inr (Or.inr (.start howner))
  | waitLatch =>
      simp only [step, Option.ite_none_right_eq_some, Option.some.injEq] at h
      obtain ⟨howner, rfl⟩ := h
      exact Or.inr (Or.inr (.waitLatch howner.1))
  | stop =>
      simp only [step, Option.ite_none_right_eq_some, Option.some.injEq] at h
      obtain ⟨howner, rfl⟩ := h
      exact Or.inr (Or.inr (.stop howner))
  | notify =>
      simp only [step, Option.ite_none_right_eq_some, Option.some.injEq] at h
      obtain ⟨howner, rfl⟩ := h
      exact Or.inr (Or.inr (.notify howner))
  | join =>
      simp only [step, Option.ite_none_right_eq_some, Option.some.injEq] at h
      obtain ⟨howner, rfl⟩ := h
      exact Or.inr (Or.inr (.join howner.1 howner.2))

/-- Before `start` there is no thread. -/
def Started (s : AsyncLogger) : Prop := s.owner = .constructed → s.pc = .idle

theorem Started.step (h : s.Started) (hstep : s.step a = some t) : t.Started := by
  rcases step_cases hstep with ⟨msg, -, -, rfl⟩ | ⟨now, -, hlog⟩ | hcall
  · obtain ⟨howner, hpc, -⟩ := s.append_frame msg
    unfold Started
    rw [howner, hpc]
    exact h
  · intro howner
    rw [hlog.frame.1] at howner
    exact absurd (h howner) hlog.pc_started.1
  · cases hcall <;> exact fun howner => absurd howner (by simp)

theorem Sound.calls (h : s.Sound) (hstarted : s.Started) (hstep : Calls s a t) : t.Sound := by
  cases hstep with
  | start howner =>
      have hphase := h.phase
      simp only [Phase, hstarted howner] at hphase
      exact ⟨h.fault, h.buffers, h.batch, h.next, hphase⟩
  | waitLatch | stop | notify | join => exact ⟨h.fault, h.buffers, h.batch, h.next, h.phase⟩

theorem Sound.step (h : s.Sound) (hstarted : s.Started) (hstep : s.step a = some t) :
    t.Sound := by
  rcases step_cases hstep with ⟨msg, -, hfree, rfl⟩ | ⟨now, -, hlog⟩ | hcall
  · exact h.append hfree msg
  · exact h.log hlog
  · exact h.calls hstarted hcall

theorem sound_of_reaches {ok : AsyncLogger → Action → Prop} {as : List Action}
    (run : machine.Reaches ok as s) : s.Started ∧ s.Sound := by
  refine run.invariant (I := fun s => s.Started ∧ s.Sound) ?_ ?_
  · intro s hinit
    obtain rfl := hinit
    exact ⟨fun _ => rfl, rfl, by simp [new], by simp [new], by simp [new], by
      simp [Phase, Shared, new]⟩
  · intro s a t h _ hstep
    exact ⟨h.1.step hstep, h.2.step h.1 hstep⟩

/-- Whatever is appended, of any length, and however it is interleaved with the logging thread. -/
theorem buffers_never_run_out (run : machine.Reachable s) :
    (s.pc.locked = false → s.currentBuffer ≠ none) ∧
    (s.pc = .moveBuffer1 → Spare s.buffer1) ∧
    (s.pc = .moveBuffer2 → Spare s.buffer2) ∧
    (s.pc = .refillBuffer1 → s.buffersWrite ≠ []) ∧
    (s.pc = .refillBuffer2 → s.buffer2 = none → s.buffersWrite ≠ []) ∧
    s.fault = false := by
  obtain ⟨as, run⟩ := run
  obtain ⟨-, hs⟩ := sound_of_reaches run
  have hphase := hs.phase
  unfold Phase at hphase
  refine ⟨fun hfree => (hs.phase.shared hfree).1, ?_, ?_, ?_, ?_, hs.fault⟩
  · intro hpc
    simp only [hpc] at hphase
    exact hphase.1.1
  · intro hpc
    simp only [hpc] at hphase
    exact hphase.2.2.1
  · intro hpc
    simp only [hpc] at hphase
    exact List.length_pos_iff.1 hphase.2.2.1
  · intro hpc hmissing
    simp only [hpc] at hphase
    obtain ⟨-, -, hspare | ⟨-, hlength⟩⟩ := hphase
    · exact absurd hmissing (ne_none_of_spare hspare)
    · exact List.length_pos_iff.1 hlength

/-- Two passes, the second over a buffer that was handed back by the first. -/
def twoPasses : List Action :=
  [.append [104], .start] ++ List.replicate 14 (.log .zero) ++ [.append [105]] ++
    List.replicate 17 (.log .zero)

theorem buffers_never_run_out_twoPasses :
    ∃ s, machine.Reachable s ∧ s.output = [.buffer [104], .buffer [105]] ∧
      s.buffersWrite ≠ [] ∧ s.fault = false := by
  obtain ⟨s, run, hpc, houtput⟩ := machine.exists_reaches_of_exec Machine.anyStep new twoPasses
    (fun s => s.pc = .refillBuffer1 ∧ s.output = [.buffer [104], .buffer [105]]) rfl (by decide)
  obtain ⟨-, -, -, hbatch, -, hfault⟩ := buffers_never_run_out ⟨_, run⟩
  exact ⟨s, ⟨_, run⟩, houtput, hbatch hpc, hfault⟩

end AsyncLogger
