import Muduo.Base.Proofs.AsyncLoggerMessages

set_option autoImplicit false

/-! # What it takes to lose a message

`StartLog` erases buffers when it takes more than 25 of them at once. All of these but the last were
given up by `append`, which gives up a buffer only when a message does not fit any more. So behind
every notice is a backlog of that many nearly full buffers, appended one message after the other. -/

namespace AsyncLogger

variable {s t : AsyncLogger} {a : Action} {m : Nat}

/-- Every message is at most `m` bytes long. -/
def MessagesWithin (m : Nat) (_ : AsyncLogger) : Action → Prop
  | .append msg => msg.length ≤ m
  | _ => True

instance (m : Nat) (s : AsyncLogger) (a : Action) : Decidable (MessagesWithin m s a) :=
  match a with
  | .append msg => Nat.decLe msg.length m
  | .start | .waitLatch | .stop | .notify | .join | .log _ => isTrue trivial

theorem shortMessages_of_within (hm : m < kLargeBuffer) (h : MessagesWithin m s a) :
    ShortMessages s a := by
  cases a with
  | append msg => exact Nat.lt_of_le_of_lt h hm
  | start | waitLatch | stop | notify | join | log now => trivial

/-- At most `m` bytes are missing. -/
def Filled (m : Nat) (b : BufferPtr) : Prop := kLargeBuffer ≤ (content b).length + m

/-- `buffers_` ends in what `CurrentBuffer_` was. -/
def Pc.pushed : Pc → Bool
  | .moveBuffer1 => true
  | .swap => true
  | _ => false

/-- The batch is as it was taken. -/
def Pc.whole : Pc → Bool
  | .testNext => true
  | .moveBuffer2 => true
  | .unlock => true
  | .testSize => true
  | .notice => true
  | _ => false

/-- The buffers that were given up are filled. -/
structure GivenUp (m : Nat) (s : AsyncLogger) : Prop where
  buffers : s.pc.pushed = false → ∀ b ∈ s.buffers, Filled m b
  pushed : s.pc.pushed = true → ∀ b ∈ s.buffers.dropLast, Filled m b
  batch : s.pc.whole = true → ∀ b ∈ s.buffersWrite.dropLast, Filled m b

/-- `append` gives a buffer up if the message does not fit. -/
theorem buffers_append (s : AsyncLogger) (msg : Bytes) :
    (s.append msg).buffers = s.buffers ∨
      ∃ current : Buffer, ¬ current.freeSize > msg.length ∧
        (s.append msg).buffers = s.buffers ++ [some current] := by
  unfold append
  split
  · exact Or.inl rfl
  · next current _ =>
      split
      · exact Or.inl rfl
      · next hfull => exact Or.inr ⟨current, hfull, rfl⟩

theorem GivenUp.append (h : s.GivenUp m) (hfree : s.pc.locked = false) {msg : Bytes}
    (hmsg : msg.length ≤ m) : (s.append msg).GivenUp m := by
  obtain ⟨-, hpc, -, -, -, hbatch, -⟩ := s.append_frame msg
  have hpushed : s.pc.pushed = false := by
    revert hfree
    cases s.pc <;> simp [Pc.locked, Pc.pushed]
  refine ⟨fun _ => ?_, fun hnow => ?_, ?_⟩
  · rcases s.buffers_append msg with hsame | ⟨current, hfull, hmore⟩
    · rw [hsame]
      exact h.buffers hpushed
    · rw [hmore, List.forall_mem_append, List.forall_mem_singleton]
      refine ⟨h.buffers hpushed, ?_⟩
      have hlength := current.length_le
      unfold FixedBuffer.freeSize at hfull
      simp only [Filled, content, Option.elim_some]
      omega
  · rw [hpc, hpushed] at hnow
    exact absurd hnow (by simp)
  · rw [hpc, hbatch]
    exact h.batch

theorem GivenUp.log (h : s.GivenUp m) (hs : s.Sound) (hstep : Logs s t) : t.GivenUp m := by
  -- nothing is given up, and the batch stays whole or is not looked at any more
  have hkeep (hpushed : s.pc.pushed = t.pc.pushed) (hbuffers : t.buffers = s.buffers)
      (hbatch : t.pc.whole = true → s.pc.whole = true ∧ t.buffersWrite = s.buffersWrite) :
      t.GivenUp m := by
    refine ⟨?_, ?_, fun hwhole => ?_⟩
    · rw [← hpushed, hbuffers]
      exact h.buffers
    · rw [← hpushed, hbuffers]
      exact h.pushed
    · obtain ⟨hbefore, hsame⟩ := hbatch hwhole
      rw [hsame]
      exact h.batch hbefore
  cases hstep with
  | pushCurrent hpc =>
      refine ⟨by simp [Pc.pushed], fun _ => ?_, by simp [Pc.whole]⟩
      rw [List.dropLast_concat]
      exact h.buffers (by simp [hpc, Pc.pushed])
  | swap hpc =>
      have hphase := hs.phase
      simp only [Phase, hpc] at hphase
      obtain ⟨-, -, -, hbatch, -⟩ := hphase
      refine ⟨fun _ => ?_, by simp [Pc.pushed], fun _ => h.pushed (by simp [hpc, Pc.pushed])⟩
      simp [hbatch]
  | _ => exact hkeep (by simp_all [Pc.pushed]) rfl (by simp_all [Pc.whole])

theorem GivenUp.step (h : s.GivenUp m) (hstarted : s.Started) (hs : s.Sound)
    (hok : MessagesWithin m s a) (hstep : s.step a = some t) : t.GivenUp m := by
  rcases step_cases hstep with ⟨msg, rfl, hfree, rfl⟩ | ⟨now, -, hlog⟩ | hcall
  · exact h.append hfree hok
  · exact h.log hs hlog
  · cases hcall with
    | start howner =>
        have hpc := hstarted howner
        exact ⟨fun _ => h.buffers (by simp [hpc, Pc.pushed]), by simp [Pc.pushed],
          by simp [Pc.whole]⟩
    | waitLatch | stop | notify | join => exact ⟨h.buffers, h.pushed, h.batch⟩

theorem givenUp_of_reaches {as : List Action} (run : machine.Reaches (MessagesWithin m) as s) :
    s.GivenUp m := by
  induction run with
  | init hinit =>
      obtain rfl := hinit
      exact ⟨by simp [new], by simp [new], by simp [new]⟩
  | step run hok hstep ih =>
      obtain ⟨hstarted, hs⟩ := sound_of_reaches run
      exact ih.step hstarted hs hok hstep

/-! ## Notices -/

/-- All but the last of `n + 1` sequences have at least `k` elements. -/
theorem mul_le_length_flatten {α : Type} {l : List (List α)} {n k : Nat} (hlength : n < l.length)
    (h : ∀ x ∈ l.dropLast, k ≤ x.length) : n * k ≤ l.flatten.length := by
  induction l generalizing n with
  | nil => exact absurd hlength (Nat.not_lt_zero n)
  | cons x l ih =>
      cases n with
      | zero => simp
      | succ n =>
          have hne : l ≠ [] := List.ne_nil_of_length_pos (by simp at hlength; omega)
          rw [List.dropLast_cons_of_ne_nil hne, List.forall_mem_cons] at h
          have htail := ih (by simpa using hlength) h.2
          rw [List.flatten_cons, List.length_append, Nat.add_mul, Nat.one_mul]
          have hx := h.1
          omega

/-- The messages in the batch, one behind the other, when the notice is written. -/
theorem exists_backlog {as : List Action} (hm : m < kLargeBuffer)
    (run : machine.Reaches (MessagesWithin m) as s) (hpc : s.pc = .notice) :
    25 < s.buffersWrite.length ∧ ∃ backlog, backlog <:+: s.appended ∧
      (s.buffersWrite.length - 1) * (kLargeBuffer - m) ≤ backlog.flatten.length := by
  obtain ⟨past, batch, full, cur, h⟩ :=
    conserved_of_reaches (run.mono fun _ _ hok => shortMessages_of_within hm hok)
  have hphase := (sound_of_reaches run).2.phase
  simp only [Phase, hpc] at hphase
  have hbatch : batch.map List.flatten = s.buffersWrite.map content := by
    simpa [queued, hpc] using h.batch
  have hfilled := (givenUp_of_reaches run).batch (by rw [hpc]; rfl)
  refine ⟨hphase.2.2, batch.flatten, ⟨past.all, full.flatten ++ cur, ?_⟩, ?_⟩
  · rw [← h.appended]
    simp
  · rw [List.flatten_flatten, hbatch]
    refine mul_le_length_flatten ?_ ?_
    · rw [List.length_map]
      omega
    · rw [← List.map_dropLast]
      intro text htext
      obtain ⟨b, hb, rfl⟩ := List.mem_map.1 htext
      have hsize := hfilled b hb
      unfold Filled at hsize
      omega

/-- Every notice is about a backlog. -/
def Noticed (m : Nat) (s : AsyncLogger) : Prop :=
  ∀ now buffers, .notice now buffers ∈ s.output → 24 ≤ buffers ∧
    ∃ backlog, backlog <:+: s.appended ∧
      (buffers + 1) * (kLargeBuffer - m) ≤ backlog.flatten.length

theorem Noticed.mono (h : s.Noticed m) (happended : s.appended <+: t.appended)
    (hnotices : ∀ now buffers, .notice now buffers ∈ t.output → .notice now buffers ∈ s.output) :
    t.Noticed m := by
  intro now buffers hmem
  obtain ⟨hcount, backlog, hinfix, hlength⟩ := h now buffers (hnotices now buffers hmem)
  exact ⟨hcount, backlog, hinfix.trans happended.isInfix, hlength⟩

theorem noticed_of_reaches {as : List Action} (hm : m < kLargeBuffer)
    (run : machine.Reaches (MessagesWithin m) as s) : s.Noticed m := by
  induction run with
  | init hinit =>
      obtain rfl := hinit
      exact fun _ _ hmem => absurd hmem List.not_mem_nil
  | @step as s t a run _ hstep ih =>
      rcases step_cases hstep with ⟨msg, -, -, rfl⟩ | ⟨now, -, hlog⟩ | hcall
      · obtain ⟨-, -, -, -, -, -, houtput, -⟩ := s.append_frame msg
        exact ih.mono (s.appended_append msg) fun _ _ => houtput ▸ id
      · cases hlog with
        | notice now hpc =>
            intro now' buffers hmem
            rcases List.mem_append.1 hmem with hmem | hmem
            · exact ih now' buffers hmem
            · obtain ⟨-, rfl⟩ := Record.notice.inj (List.mem_singleton.1 hmem)
              obtain ⟨hsize, backlog, hinfix, hlength⟩ := exists_backlog hm run hpc
              refine ⟨by omega, backlog, hinfix, ?_⟩
              rwa [show s.buffersWrite.length - 2 + 1 = s.buffersWrite.length - 1 by omega]
        | write hpc hget =>
            refine ih.mono (List.prefix_refl _) fun now buffers hmem => ?_
            rcases List.mem_append.1 hmem with hmem | hmem
            · exact hmem
            · exact absurd (List.mem_singleton.1 hmem) (by simp)
        | _ => exact ih.mono (List.prefix_refl _) fun _ _ => id
      · cases hcall <;> exact ih.mono (List.prefix_refl _) fun _ _ => id

/-- With messages of at most `m` bytes a notice of `n` buffers, `n` being 24 at least, comes behind
    messages that follow each other and have `n + 1` times `4 MiB - m` bytes together. While fewer
    than 25 times as many bytes were appended nothing is lost. -/
theorem overflow_needs_backlog {as : List Action} (hm : m < kLargeBuffer)
    (run : machine.Reaches (MessagesWithin m) as s) :
    (∀ now buffers, .notice now buffers ∈ s.output → 24 ≤ buffers ∧
      ∃ backlog, backlog <:+: s.appended ∧
        (buffers + 1) * (kLargeBuffer - m) ≤ backlog.flatten.length) ∧
    (s.appended.flatten.length < 25 * (kLargeBuffer - m) →
      s.erased = [] ∧ ∀ now buffers, .notice now buffers ∉ s.output) := by
  have hnoticed := noticed_of_reaches hm run
  refine ⟨hnoticed, fun hfew => ?_⟩
  have hquiet : ∀ now buffers, .notice now buffers ∉ s.output := by
    intro now buffers hmem
    obtain ⟨hcount, backlog, ⟨before, behind, heq⟩, hlength⟩ := hnoticed now buffers hmem
    have hbytes : backlog.flatten.length ≤ s.appended.flatten.length := by
      rw [← heq]
      simp only [List.flatten_append, List.length_append]
      omega
    have hmany : 25 * (kLargeBuffer - m) ≤ (buffers + 1) * (kLargeBuffer - m) :=
      Nat.mul_le_mul_right _ (Nat.succ_le_succ hcount)
    omega
  refine ⟨?_, hquiet⟩
  by_contra hlost
  have hshort := run.mono fun _ _ hok => shortMessages_of_within hm hok
  obtain ⟨now, buffers, hmem⟩ := reported_of_reaches hshort (Or.inl hlost)
  exact hquiet now buffers hmem

/-- Two messages, and two passes. -/
theorem overflow_needs_backlog_twoPasses :
    ∃ s, machine.Reaches (MessagesWithin 1) twoPasses s ∧ s.appended = [[104], [105]] ∧
      s.erased = [] := by
  obtain ⟨s, run, happended⟩ := machine.exists_reaches_of_exec (MessagesWithin 1) new twoPasses
    (fun s => s.appended = [[104], [105]]) rfl (by decide)
  refine ⟨s, run, happended, ((overflow_needs_backlog (by decide) run).2 ?_).1⟩
  rw [happended]
  decide

end AsyncLogger
