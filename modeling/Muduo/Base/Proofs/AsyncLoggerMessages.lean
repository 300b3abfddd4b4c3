import Muduo.Base.Proofs.AsyncLogger
import Muduo.Lib.Ledger

set_option autoImplicit false

/-! # The messages in the logger's buffers

`Conserved` is where the messages are, block by block: every step moves whole blocks, and the only
ones that do not reach the file are those of the buffers that `StartLog` erases, which it reports.
-/

namespace AsyncLogger

variable {s t : AsyncLogger} {a : Action}

/-- The buffers of the batch that are certain to be written. -/
def settled (s : AsyncLogger) : BufferVector :=
  match s.pc with
  | .write k => s.buffersWrite.drop k
  | _ => []

/-- The buffers of a batch that has not been looked at. -/
def queued (s : AsyncLogger) : BufferVector :=
  match s.pc with
  | .write _ => []
  | .resize => []
  | .refillBuffer1 => []
  | .refillBuffer2 => []
  | .clear => []
  | _ => s.buffersWrite

theorem unwritten_eq (s : AsyncLogger) : s.unwritten = s.settled ++ s.queued := by
  unfold unwritten settled queued
  cases s.pc <;> simp

/-- The messages, block by block: those in buffers whose fate is certain, in the batch, in
    `buffers_` and in `CurrentBuffer_`. -/
structure Conserved (s : AsyncLogger) (past : Ledger Bytes) (batch full : List (List Bytes))
    (cur : List Bytes) : Prop where
  appended : past.all ++ batch.flatten ++ full.flatten ++ cur = s.appended
  kept : past.kept.map List.flatten = s.logged ++ s.settled.map content
  dropped : past.dropped.map List.flatten = s.erased
  batch : batch.map List.flatten = s.queued.map content
  full : full.map List.flatten = s.buffers.map content
  current : cur.flatten = content s.currentBuffer
  emptied : s.pc = .moveBuffer1 ∨ s.pc = .swap → cur = []

variable {past : Ledger Bytes} {batch full : List (List Bytes)} {cur : List Bytes}

/-- Nothing happens to the buffers. -/
theorem Conserved.of_eq (h : s.Conserved past batch full cur)
    (happended : t.appended = s.appended) (hlogged : t.logged = s.logged)
    (hsettled : t.settled = s.settled) (herased : t.erased = s.erased)
    (hqueued : t.queued = s.queued) (hbuffers : t.buffers = s.buffers)
    (hcurrent : content t.currentBuffer = content s.currentBuffer)
    (hemptied : t.pc = .moveBuffer1 ∨ t.pc = .swap → s.pc = .moveBuffer1 ∨ s.pc = .swap) :
    t.Conserved past batch full cur where
  appended := h.appended.trans happended.symm
  kept := by
    rw [hlogged, hsettled]
    exact h.kept
  dropped := h.dropped.trans herased.symm
  batch := by
    rw [hqueued]
    exact h.batch
  full := by
    rw [hbuffers]
    exact h.full
  current := h.current.trans hcurrent.symm
  emptied hpc := h.emptied (hemptied hpc)

theorem Conserved.append (h : s.Conserved past batch full cur) (hs : s.Sound)
    (hfree : s.pc.locked = false) {msg : Bytes} (hmsg : msg.length < kLargeBuffer) :
    ∃ full' cur', (s.append msg).Conserved past batch full' cur' := by
  have hemptied : ∀ l : List Bytes, s.pc = .moveBuffer1 ∨ s.pc = .swap → l = [] := by
    intro l hpc
    rcases hpc with hpc | hpc
    · exact absurd hfree (by simp [hpc, Pc.locked])
    · exact absurd hfree (by simp [hpc, Pc.locked])
  obtain ⟨b, hb, ⟨hfits, heq⟩ | heq⟩ := append_cases hs (hs.phase.shared hfree) msg
  · rw [heq]
    refine ⟨full, cur ++ [msg], ?_, h.kept, h.dropped, h.batch, h.full, ?_, hemptied _⟩
    · rw [← h.appended]
      simp
    · have hcontent := h.current
      simp only [hb, content] at hcontent
      simpa [content, FixedBuffer.data_append hfits] using hcontent
  · rw [heq]
    refine ⟨full ++ [cur], [msg], ?_, h.kept, h.dropped, h.batch, ?_, ?_, hemptied _⟩
    · rw [← h.appended]
      simp
    · have hcontent := h.current
      rw [hb] at hcontent
      simp [h.full, hcontent]
    · have hdata : ((FixedBuffer.new kLargeBuffer).append msg).data = [] ++ msg :=
        FixedBuffer.data_append hmsg
      simp [content, hdata]

/-- A step of the logging thread moves blocks, and what it has taken changes at the swap only. -/
theorem Conserved.log (h : s.Conserved past batch full cur) (hs : s.Sound)
    (hstep : Logs s t) :
    ∃ past' batch' full' cur', t.Conserved past' batch' full' cur' ∧
      past'.all ++ batch'.flatten =
        if s.pc = .swap then s.appended else past.all ++ batch.flatten := by
  have hphase := hs.phase
  unfold Phase at hphase
  cases hstep with
  | countDown hpc | goOn hpc | leave hpc | lock hpc | wait hpc | full hpc | wake hpc
  | nextMissing hpc | nextThere hpc | moveBuffer2 hpc | unlock hpc | tooMany hpc | flush hpc
  | lastFlush hpc =>
      refine ⟨past, batch, full, cur, ?_, by simp [hpc]⟩
      exact h.of_eq rfl rfl (by simp [settled, hpc]) rfl (by simp [queued, hpc]) rfl rfl (by simp)
  | pushCurrent hpc =>
      refine ⟨past, batch, full ++ [cur], [], ⟨?_, ?_, h.dropped, ?_, ?_, rfl, by simp⟩,
        by simp [hpc]⟩
      · rw [← h.appended]
        simp
      · simpa [settled, hpc, logged] using h.kept
      · simpa [queued, hpc] using h.batch
      · simp [h.full, h.current]
  | moveBuffer1 hpc =>
      simp only [hpc] at hphase
      have hcurrent : cur = [] := h.emptied (Or.inl hpc)
      subst hcurrent
      refine ⟨past, batch, full, [], ⟨h.appended, ?_, h.dropped, ?_, h.full, ?_, by simp⟩,
        by simp [hpc]⟩
      · simpa [settled, hpc, logged] using h.kept
      · simpa [queued, hpc] using h.batch
      · rw [hphase.1.1]
        rfl
  | swap hpc =>
      simp only [hpc] at hphase
      have hnone : s.buffersWrite = [] := hphase.2.2.2.1
      have hcurrent : cur = [] := h.emptied (Or.inr hpc)
      have hbatch : batch = [] := by simpa [queued, hpc, hnone] using h.batch
      subst hcurrent hbatch
      refine ⟨past, full, [], [], ⟨?_, ?_, h.dropped, ?_, ?_, h.current, by simp⟩, ?_⟩
      · rw [← h.appended]
        simp
      · simpa [settled, hpc, logged] using h.kept
      · simpa [queued] using h.full
      · simp [hnone]
      · rw [if_pos hpc, ← h.appended]
        simp
  | fewEnough hpc =>
      refine ⟨past ++ Ledger.mark true batch, [], full, cur,
        ⟨?_, ?_, ?_, rfl, h.full, h.current, by simp⟩, by simp [hpc]⟩
      · rw [← h.appended]
        simp
      · have hkept := h.kept
        have hbatch := h.batch
        simp only [settled, hpc, List.map_nil, List.append_nil] at hkept
        simp only [queued, hpc] at hbatch
        simp [hkept, hbatch, settled, logged]
      · simpa using h.dropped
  | notice now hpc =>
      refine ⟨past, batch, full, cur, ?_, by simp [hpc]⟩
      exact h.of_eq rfl (by simp [logged]) (by simp [settled, hpc]) rfl (by simp [queued, hpc])
        rfl rfl (by simp)
  | erase hpc =>
      have hkept := h.kept
      have hbatch := h.batch
      simp only [settled, hpc, List.map_nil, List.append_nil] at hkept
      simp only [queued, hpc] at hbatch
      refine ⟨past ++ Ledger.mark true (batch.take 2) ++ Ledger.mark false (batch.drop 2), [], full,
        cur, ⟨?_, ?_, ?_, rfl, h.full, h.current, by simp⟩, ?_⟩
      · rw [← h.appended]
        simp [← List.flatten_append]
      · simp [hkept, List.map_take, hbatch, settled, logged]
      · simp [h.dropped, List.map_drop, hbatch]
      · simp [hpc, ← List.flatten_append]
  | @write k b hpc hget =>
      refine ⟨past, batch, full, cur, ⟨h.appended, ?_, h.dropped, ?_, h.full, h.current, by simp⟩,
        by simp [hpc]⟩
      · have hkept := h.kept
        have hdrop : s.buffersWrite.drop k = some b :: s.buffersWrite.drop (k + 1) :=
          List.drop_eq_getElem?_toList_append.trans (by rw [hget]; rfl)
        simp only [settled, hpc, hdrop] at hkept
        simpa [settled, logged, content] using hkept
      · simpa [queued, hpc] using h.batch
  | null hpc hget => exact absurd (List.mem_of_getElem? hget) hs.batch
  | @written k hpc hget =>
      have hdrop : s.buffersWrite.drop k = [] :=
        List.drop_eq_nil_of_le (List.getElem?_eq_none_iff.1 hget)
      refine ⟨past, batch, full, cur, ?_, by simp [hpc]⟩
      exact h.of_eq rfl rfl (by simp [settled, hpc, hdrop]) rfl (by simp [queued, hpc]) rfl rfl
        (by simp)
  | resize hpc | refillBuffer1 hpc | noBuffer1 hpc | keepBuffer1 hpc | refillBuffer2 hpc
  | noBuffer2 hpc | keepBuffer2 hpc | clear hpc =>
      refine ⟨past, batch, full, cur, ?_, by simp [hpc]⟩
      exact h.of_eq rfl rfl (by simp [settled, hpc]) rfl (by simp [queued, hpc]) rfl rfl (by simp)

theorem Conserved.calls (h : s.Conserved past batch full cur) (hstarted : s.Started)
    (hstep : Calls s a t) : t.Conserved past batch full cur := by
  cases hstep with
  | start howner =>
      have hpc := hstarted howner
      exact h.of_eq rfl rfl (by simp [settled, hpc]) rfl (by simp [queued, hpc]) rfl rfl (by simp)
  | waitLatch | stop | notify | join => exact h.of_eq rfl rfl rfl rfl rfl rfl rfl id

/-- A step moves blocks. What the logging thread has taken changes when it leaves the swap, and then
    it is everything. -/
theorem Conserved.step (h : s.Conserved past batch full cur) (hstarted : s.Started) (hs : s.Sound)
    (hok : ShortMessages s a) (hstep : s.step a = some t) :
    ∃ past' batch' full' cur', t.Conserved past' batch' full' cur' ∧
      past'.all ++ batch'.flatten =
        if s.pc = .swap ∧ t.pc ≠ .swap then s.appended else past.all ++ batch.flatten := by
  rcases step_cases hstep with ⟨msg, rfl, hfree, rfl⟩ | ⟨now, -, hlog⟩ | hcall
  · obtain ⟨full', cur', h'⟩ := h.append hs hfree hok
    obtain ⟨-, hpc, -⟩ := s.append_frame msg
    refine ⟨past, batch, full', cur', h', ?_⟩
    rw [hpc, if_neg fun hswap => hswap.2 hswap.1]
  · obtain ⟨past', batch', full', cur', h', htaken⟩ := h.log hs hlog
    refine ⟨past', batch', full', cur', h', htaken.trans ?_⟩
    by_cases hswap : s.pc = .swap
    · rw [if_pos hswap, if_pos ⟨hswap, hlog.pc_ne hswap⟩]
    · rw [if_neg hswap, if_neg fun hboth => hswap hboth.1]
  · refine ⟨past, batch, full, cur, h.calls hstarted hcall, ?_⟩
    cases hcall with
    | start howner =>
        have hpc := hstarted howner
        simp [hpc]
    | _ => simp

theorem conserved_of_reaches {as : List Action} (run : machine.Reaches ShortMessages as s) :
    ∃ past batch full cur, s.Conserved past batch full cur := by
  induction run with
  | init hinit =>
      obtain rfl := hinit
      exact ⟨[], [], [], [], rfl, rfl, rfl, rfl, rfl, rfl, fun _ => rfl⟩
  | @step as s t a run hok hstep ih =>
      obtain ⟨past, batch, full, cur, h⟩ := ih
      obtain ⟨hstarted, hs⟩ := sound_of_reaches run
      obtain ⟨past', batch', full', cur', h', -⟩ := h.step hstarted hs hok hstep
      exact ⟨past', batch', full', cur', h'⟩

/-- What is erased is reported. -/
def Reported (s : AsyncLogger) : Prop :=
  s.erased ≠ [] ∨ s.pc = .erase → ∃ now buffers, .notice now buffers ∈ s.output

theorem Reported.step (h : s.Reported) (hstep : s.step a = some t) : t.Reported := by
  have hkeep : t.erased = s.erased → t.output = s.output → t.pc ≠ .erase → t.Reported := by
    intro herased houtput hpc hor
    rw [houtput]
    exact h (Or.inl (herased ▸ hor.resolve_right hpc))
  rcases step_cases hstep with ⟨msg, -, hfree, rfl⟩ | ⟨now, -, hlog⟩ | hcall
  · obtain ⟨-, hpc, -, -, -, -, houtput, herased, -⟩ := s.append_frame msg
    unfold Reported
    rw [hpc, houtput, herased]
    exact h
  · cases hlog with
    | notice now hpc => exact fun _ => ⟨now, _, List.mem_append_right _ (List.mem_singleton_self _)⟩
    | erase hpc => exact fun _ => h (Or.inr hpc)
    | write hpc hget =>
        intro hor
        obtain ⟨now, buffers, hnotice⟩ := h (Or.inl (hor.resolve_right (by simp)))
        exact ⟨now, buffers, List.mem_append_left _ hnotice⟩
    | _ => exact hkeep rfl rfl (by simp)
  · cases hcall with
    | start howner => exact hkeep rfl rfl (by simp)
    | _ => exact fun hor => h hor

theorem reported_of_reaches {as : List Action} (run : machine.Reaches ShortMessages as s) :
    s.Reported := by
  refine run.invariant ?_ fun s a t h _ hstep => h.step hstep
  intro s hinit
  obtain rfl := hinit
  intro hor
  exact absurd hor (by simp [new])

/-- The messages are in the file, in the batch, in `buffers_` and in `CurrentBuffer_`, whole and in
    the order in which they were appended, but for those in buffers that were erased as a whole and
    reported. -/
theorem log_conserved {as : List Action} (run : machine.Reaches ShortMessages as s) :
    ∃ blocks : Ledger Bytes,
      blocks.all = s.appended ∧
      blocks.kept.map List.flatten =
        s.logged ++ (s.unwritten ++ s.buffers ++ [s.currentBuffer]).map content ∧
      blocks.dropped.map List.flatten = s.erased ∧
      ((∀ now buffers, .notice now buffers ∉ s.output) →
        s.appended.flatten =
          (s.logged ++ (s.unwritten ++ s.buffers ++ [s.currentBuffer]).map content).flatten) := by
  obtain ⟨past, batch, full, cur, h⟩ := conserved_of_reaches run
  let blocks : Ledger Bytes := past ++ Ledger.mark true (batch ++ full ++ [cur])
  have hall : blocks.all = s.appended := by
    rw [← h.appended]
    simp [blocks]
  have hkept : blocks.kept.map List.flatten =
      s.logged ++ (s.unwritten ++ s.buffers ++ [s.currentBuffer]).map content := by
    simp [blocks, h.kept, h.batch, h.full, h.current, unwritten_eq]
  have hdropped : blocks.dropped.map List.flatten = s.erased := by
    simpa [blocks] using h.dropped
  refine ⟨blocks, hall, hkept, hdropped, ?_⟩
  intro hquiet
  have herased : s.erased = [] := by
    by_contra hne
    obtain ⟨now, buffers, hnotice⟩ := reported_of_reaches run (Or.inl hne)
    exact hquiet now buffers hnotice
  have hnone : blocks.dropped = [] := by simpa [herased] using hdropped
  rw [← hall, ← Ledger.flatten_kept hnone, ← hkept]
  simp [List.flatten_flatten]

/-- One message is written, one is in the batch and one is in the current buffer. -/
theorem log_conserved_threeMessages :
    ∃ s, machine.Reaches ShortMessages (twoPasses.take 31 ++ [.append [106]]) s ∧
      s.logged = [[104]] ∧ s.appended = [[104], [105], [106]] ∧
      s.appended.flatten =
        (s.logged ++ (s.unwritten ++ s.buffers ++ [s.currentBuffer]).map content).flatten := by
  obtain ⟨s, run, hlogged, happended, houtput⟩ := machine.exists_reaches_of_exec ShortMessages new
    (twoPasses.take 31 ++ [.append [106]])
    (fun s => s.logged = [[104]] ∧ s.appended = [[104], [105], [106]] ∧
      s.output = [.buffer [104]]) rfl (by decide)
  obtain ⟨blocks, -, -, -, hall⟩ := log_conserved run
  exact ⟨s, run, hlogged, happended, hall (by simp [houtput])⟩

end AsyncLogger
