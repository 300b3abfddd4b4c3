import Muduo.Base.Proofs.AsyncLoggerMessages
import Mathlib.Data.List.Infix

set_option autoImplicit false

/-! # Stopping the logger

`stop` clears `running_`, and the logging thread leaves its loop at the next test. It takes what has
been appended only if it is between the test and the swap. Otherwise the messages in `buffers_` and
`CurrentBuffer_` stay where they are, and nobody looks at them after the join. -/

namespace AsyncLogger

variable {s t : AsyncLogger} {a : Action}

/-- Between the test of `running_` and the swap. -/
def Pc.collects : Pc → Bool
  | .lock => true
  | .testBuffers => true
  | .waiting => true
  | .pushCurrent => true
  | .moveBuffer1 => true
  | .swap => true
  | _ => false

/-- The bytes that have been appended since the last swap. -/
def uncollected (s : AsyncLogger) : Bytes := (s.buffers ++ [s.currentBuffer]).flatMap content

/-- Short messages, and a `stop` only when the logging thread will still collect or has nothing to
    collect. -/
def StopsInTime (s : AsyncLogger) : Action → Prop
  | .stop => s.pc.collects = true ∨ s.uncollected = []
  | a => ShortMessages s a

instance (s : AsyncLogger) (a : Action) : Decidable (StopsInTime s a) := by
  unfold StopsInTime
  split <;> infer_instance

theorem stopsInTime_of_ne (h : ShortMessages s a) (ha : a ≠ .stop) : StopsInTime s a := by
  cases a with
  | stop => exact absurd rfl ha
  | _ => exact h

theorem shortMessages_of_stopsInTime (h : StopsInTime s a) : ShortMessages s a := by
  cases a with
  | append msg => exact h
  | _ => trivial

/-- `stop` has stored `running_`. -/
def Stopping (s : AsyncLogger) : Prop :=
  s.owner = .notify ∨ s.owner = .join ∨ s.owner = .stopped

/-- The messages of before `stop` have been handed to `LogFile::append` or erased with their
    buffers. A message without bytes needs no writing. -/
def Drained (s : AsyncLogger) : Prop :=
  ∃ (blocks : Ledger Bytes) (silent : List Bytes),
    blocks.kept.map List.flatten = s.logged ∧ blocks.dropped.map List.flatten = s.erased ∧
      (∀ m ∈ silent, m = []) ∧ s.beforeStop <+: blocks.all ++ silent

/-! ## Behind the store -/

/-- Behind its store `stop` does not touch anything any more, and neither does anybody else touch
    what it has done. -/
theorem Stopping.step (h : s.Stopping) (hstep : s.step a = some t) :
    t.Stopping ∧ t.running = s.running ∧ t.beforeStop = s.beforeStop ∧
      s.appended <+: t.appended := by
  rcases step_cases hstep with ⟨msg, -, hfree, rfl⟩ | ⟨now, -, hlog⟩ | hcall
  · obtain ⟨howner, -, hrunning, -, -, -, -, -, hbefore⟩ := s.append_frame msg
    unfold Stopping
    rw [howner]
    exact ⟨h, hrunning, hbefore, s.appended_append msg⟩
  · obtain ⟨howner, hrunning, happended, hbefore⟩ := hlog.frame
    unfold Stopping
    rw [howner, happended]
    exact ⟨h, hrunning, hbefore, List.prefix_refl _⟩
  · unfold Stopping at h
    cases hcall with
    | start howner | waitLatch howner | stop howner => simp [howner] at h
    | notify howner => exact ⟨Or.inr (Or.inl rfl), rfl, rfl, List.prefix_refl _⟩
    | join howner hpc => exact ⟨Or.inr (Or.inr rfl), rfl, rfl, List.prefix_refl _⟩

/-- Nothing but `stop` begins it. -/
theorem stop_of_stopping (h : ¬ s.Stopping) (hstep : s.step a = some t) (ht : t.Stopping) :
    a = .stop := by
  unfold Stopping at h ht
  rcases step_cases hstep with ⟨msg, -, hfree, rfl⟩ | ⟨now, -, hlog⟩ | hcall
  · rw [(s.append_frame msg).1] at ht
    exact absurd ht h
  · rw [hlog.frame.1] at ht
    exact absurd ht h
  · cases hcall with
    | start howner | waitLatch howner => exact absurd ht (by simp)
    | stop howner => rfl
    | notify howner => exact absurd (Or.inl howner) h
    | join howner hpc => exact absurd (Or.inr (Or.inl howner)) h

/-- Once `running_` is cleared, the thread collects at most what it has set out to collect. -/
theorem collects_step (hstarted : s.Started) (hrunning : s.running = false)
    (hstep : s.step a = some t) :
    t.pc.collects = s.pc.collects ∧ ¬ (s.pc = .swap ∧ t.pc ≠ .swap) ∨
      t.pc.collects = false ∧ s.pc = .swap ∧ t.pc ≠ .swap := by
  rcases step_cases hstep with ⟨msg, -, hfree, rfl⟩ | ⟨now, -, hlog⟩ | hcall
  · simp [(s.append_frame msg).2.1]
  · cases hlog with
    | goOn hpc hother => exact absurd (hrunning.symm.trans hother) (by simp)
    | swap hpc => exact Or.inr ⟨rfl, hpc, by simp⟩
    | _ => simp_all [Pc.collects]
  · cases hcall with
    | start howner => simp [Pc.collects, hstarted howner]
    | _ => simp

/-! ## In time or late -/

/-- What the logging thread has `taken` covers the messages of before `stop`, or will. -/
def InTime (s : AsyncLogger) (taken : List Bytes) : Prop :=
  s.Stopping → s.running = false ∧ (s.pc.collects = true → s.beforeStop <+: s.appended) ∧
    (s.pc.collects = false →
      ∃ silent : List Bytes, (∀ m ∈ silent, m = []) ∧ s.beforeStop <+: taken ++ silent)

/-- Some byte of before `stop` is not taken and will not be. -/
def Late (s : AsyncLogger) (taken : List Bytes) : Prop :=
  s.Stopping ∧ s.running = false ∧ s.pc.collects = false ∧
    taken.flatten.length < s.beforeStop.flatten.length

variable {past : Ledger Bytes} {batch full : List (List Bytes)} {cur taken : List Bytes}

theorem InTime.step_stopping (h : s.InTime taken) (hstopping : s.Stopping) (hstarted : s.Started)
    (hstep : s.step a = some t) :
    t.InTime (if s.pc = .swap ∧ t.pc ≠ .swap then s.appended else taken) := by
  intro _
  obtain ⟨hrunning, hcollects, htaken⟩ := h hstopping
  obtain ⟨-, hrunning', hbefore, happended⟩ := hstopping.step hstep
  refine ⟨hrunning'.trans hrunning, ?_, ?_⟩
  · intro hpc
    rcases collects_step hstarted hrunning hstep with ⟨heq, -⟩ | ⟨hnot, -⟩
    · rw [hbefore]
      exact (hcollects (heq.symm.trans hpc)).trans happended
    · exact absurd (hpc.symm.trans hnot) (by simp)
  · intro hpc
    rcases collects_step hstarted hrunning hstep with ⟨heq, hsame⟩ | ⟨-, hleft⟩
    · rw [if_neg hsame, hbefore]
      exact htaken (heq.symm.trans hpc)
    · rw [if_pos hleft, hbefore]
      refine ⟨[], by simp, ?_⟩
      rw [List.append_nil]
      exact hcollects (by rw [hleft.1]; rfl)

theorem Late.step (h : s.Late taken) (hstarted : s.Started) (hstep : s.step a = some t) :
    t.Late (if s.pc = .swap ∧ t.pc ≠ .swap then s.appended else taken) := by
  obtain ⟨hstopping, hrunning, hpc, hlength⟩ := h
  obtain ⟨hstopping', hrunning', hbefore, -⟩ := hstopping.step hstep
  have hnot : s.pc ≠ .swap := by
    intro hswap
    exact absurd hpc (by simp [hswap, Pc.collects])
  rw [if_neg fun hleft => hnot hleft.1]
  rcases collects_step hstarted hrunning hstep with ⟨heq, -⟩ | ⟨-, hswap, -⟩
  · exact ⟨hstopping', hrunning'.trans hrunning, heq.trans hpc, by rw [hbefore]; exact hlength⟩
  · exact absurd hswap hnot

/-- The bytes that have not been collected are those of the messages behind what is taken. -/
theorem Conserved.uncollected (h : s.Conserved past batch full cur) :
    s.uncollected = (full.flatten ++ cur).flatten := by
  have hfull : (s.buffers.map content).flatten = full.flatten.flatten := by
    rw [← h.full]
    exact List.flatten_flatten.symm
  simp [AsyncLogger.uncollected, List.flatMap_def, hfull, h.current]

/-- A `stop` at the right moment. -/
theorem Conserved.inTime_stop (h : s.Conserved past batch full cur)
    (hok : s.pc.collects = true ∨ s.uncollected = []) :
    InTime { s with owner := .notify, running := false, beforeStop := s.appended }
      (past.all ++ batch.flatten) := by
  intro _
  refine ⟨rfl, fun _ => List.prefix_refl _, ?_⟩
  intro hpc
  have hempty : (full.flatten ++ cur).flatten = [] := by
    rw [← h.uncollected]
    exact hok.resolve_left (by simpa using hpc)
  refine ⟨full.flatten ++ cur, List.flatten_eq_nil_iff.1 hempty, ?_⟩
  rw [← List.append_assoc, h.appended]

/-- A `stop` at any other moment. -/
theorem Conserved.late_stop (h : s.Conserved past batch full cur)
    (hok : ¬ (s.pc.collects = true ∨ s.uncollected = [])) :
    Late { s with owner := .notify, running := false, beforeStop := s.appended }
      (past.all ++ batch.flatten) := by
  obtain ⟨hpc, hbytes⟩ := not_or.1 hok
  refine ⟨Or.inl rfl, rfl, by simpa using hpc, ?_⟩
  have hpos : 0 < (full.flatten ++ cur).flatten.length := by
    rw [← h.uncollected]
    exact List.length_pos_iff.2 hbytes
  have happended : s.appended.flatten =
      (past.all ++ batch.flatten).flatten ++ (full.flatten ++ cur).flatten := by
    rw [← h.appended, List.append_assoc (past.all ++ batch.flatten), List.flatten_append]
  show _ < s.appended.flatten.length
  rw [happended, List.length_append]
  omega

/-- What `stop` leaves. -/
theorem step_stop (hstep : s.step .stop = some t) :
    t = { s with owner := .notify, running := false, beforeStop := s.appended } := by
  simp only [step, Option.ite_none_right_eq_some, Option.some.injEq] at hstep
  exact hstep.2.symm

theorem inTime_of_reaches {as : List Action} (run : machine.Reaches StopsInTime as s) :
    ∃ past batch full cur, s.Conserved past batch full cur ∧
      s.InTime (past.all ++ batch.flatten) := by
  induction run with
  | init hinit =>
      obtain ⟨past, batch, full, cur, h⟩ := conserved_of_reaches (.init hinit)
      refine ⟨past, batch, full, cur, h, ?_⟩
      obtain rfl := hinit
      intro hstopping
      exact absurd hstopping (by simp [Stopping, new])
  | @step as s t a run hok hstep ih =>
      obtain ⟨past, batch, full, cur, h, hin⟩ := ih
      obtain ⟨hstarted, hs⟩ := sound_of_reaches run
      obtain ⟨past', batch', full', cur', h', htaken⟩ :=
        h.step hstarted hs (shortMessages_of_stopsInTime hok) hstep
      refine ⟨past', batch', full', cur', h', ?_⟩
      rw [htaken]
      by_cases hstopping : s.Stopping
      · exact hin.step_stopping hstopping hstarted hstep
      by_cases ha : a = .stop
      · subst ha
        obtain rfl := step_stop hstep
        rw [if_neg fun hleft => hleft.2 hleft.1]
        exact h.inTime_stop hok
      · exact fun ht => absurd (stop_of_stopping hstopping hstep ht) ha

/-- A run keeps the condition until it is late, and then it stays late. -/
theorem inTime_or_late {as : List Action} (run : machine.Reaches ShortMessages as s) :
    machine.Reaches StopsInTime as s ∨ ∃ past batch full cur,
      s.Conserved past batch full cur ∧ s.Late (past.all ++ batch.flatten) := by
  induction run with
  | init hinit => exact Or.inl (.init hinit)
  | @step as s t a run hok hstep ih =>
      obtain ⟨hstarted, hs⟩ := sound_of_reaches run
      rcases ih with hrun | ⟨past, batch, full, cur, h, hlate⟩
      · by_cases hin : StopsInTime s a
        · exact Or.inl (hrun.step hin hstep)
        -- only a `stop` can miss the condition
        by_cases ha : a = .stop
        · subst ha
          obtain ⟨past, batch, full, cur, h⟩ := conserved_of_reaches run
          obtain rfl := step_stop hstep
          obtain ⟨past', batch', full', cur', h', htaken⟩ := h.step hstarted hs hok hstep
          refine Or.inr ⟨past', batch', full', cur', h', ?_⟩
          rw [htaken, if_neg fun hleft => hleft.2 hleft.1]
          exact h.late_stop hin
        · exact absurd (stopsInTime_of_ne hok ha) hin
      · obtain ⟨past', batch', full', cur', h', htaken⟩ := h.step hstarted hs hok hstep
        refine Or.inr ⟨past', batch', full', cur', h', ?_⟩
        rw [htaken]
        exact hlate.step hstarted hstep

/-! ## When stop returns -/

/-- `stop` returns when the thread is gone. -/
theorem done_of_stopped {ok : AsyncLogger → Action → Prop} {as : List Action}
    (run : machine.Reaches ok as s) : s.owner = .stopped → s.pc = .done := by
  refine run.invariant (I := fun s => s.owner = .stopped → s.pc = .done) ?_ ?_
  · intro s hinit hstopped
    obtain rfl := hinit
    exact absurd hstopped (by simp [new])
  · intro s a t h _ hstep hstopped
    rcases step_cases hstep with ⟨msg, -, hfree, rfl⟩ | ⟨now, -, hlog⟩ | hcall
    · obtain ⟨howner, hpc, -⟩ := s.append_frame msg
      rw [hpc]
      exact h (howner.symm.trans hstopped)
    · exact absurd (h (hlog.frame.1.symm.trans hstopped)) hlog.pc_started.2
    · cases hcall with
      | join howner hpc => exact hpc
      | _ => exact absurd hstopped (by simp)

/-- Behind its loop the thread has written what it has taken. -/
theorem Conserved.of_done (h : s.Conserved past batch full cur) (hs : s.Sound)
    (hpc : s.pc = .done) : batch = [] ∧ past.kept.map List.flatten = s.logged := by
  have hphase := hs.phase
  simp only [Phase, hpc] at hphase
  have hbatch := h.batch
  have hkept := h.kept
  simp only [queued, hpc, hphase.2.2.2] at hbatch
  simp only [settled, hpc] at hkept
  exact ⟨by simpa using hbatch, by simpa using hkept⟩

/-- When `stop` returns, the messages of before it are in the file or in buffers that were erased,
    if and only if it was called while the logging thread would still collect them or there was
    nothing to collect. -/
theorem stop_drains_iff {as : List Action} (run : machine.Reaches ShortMessages as s)
    (hstopped : s.owner = .stopped) : s.Drained ↔ machine.Reaches StopsInTime as s := by
  have hpc := done_of_stopped run hstopped
  obtain ⟨-, hs⟩ := sound_of_reaches run
  constructor
  · rintro ⟨blocks, silent, hkept, hdropped, hsilent, hcovers⟩
    refine (inTime_or_late run).resolve_right ?_
    rintro ⟨past, batch, full, cur, h, -, -, -, hlate⟩
    obtain ⟨rfl, hpast⟩ := h.of_done hs hpc
    -- both ledgers hold the same bytes, and the messages of before `stop` have more
    have hlength : ∀ l : Ledger Bytes, l.kept.map List.flatten = s.logged →
        l.dropped.map List.flatten = s.erased →
        l.all.flatten.length = (s.logged ++ s.erased).flatten.length := by
      intro l hk hd
      have hperm := l.perm_all.flatten.length_eq
      rw [hperm, ← hk, ← hd]
      simp [List.flatten_flatten]
    have hle := (List.IsPrefix.flatten hcovers).length_le
    have hnone : silent.flatten = [] := List.flatten_eq_nil_iff.2 hsilent
    rw [List.flatten_append, hnone, List.append_nil, hlength blocks hkept hdropped] at hle
    rw [List.flatten_nil, List.append_nil, hlength past hpast h.dropped] at hlate
    omega
  · intro hrun
    obtain ⟨past, batch, full, cur, h, hin⟩ := inTime_of_reaches hrun
    obtain ⟨rfl, hpast⟩ := h.of_done hs hpc
    obtain ⟨-, -, htaken⟩ := hin (Or.inr (Or.inr hstopped))
    obtain ⟨silent, hsilent, hcovers⟩ := htaken (by rw [hpc]; rfl)
    rw [List.flatten_nil, List.append_nil] at hcovers
    exact ⟨past, silent, hpast, h.dropped, hsilent, hcovers⟩

/-- `start`, and the thread up to its first test of `running_`. -/
def started : List Action := [.start, .log .zero, .waitLatch]

/-- The thread waits when `stop` is called. -/
def stopWaiting : List Action :=
  started ++ List.replicate 3 (.log .zero) ++ [.append [120], .stop, .append [121], .notify] ++
    List.replicate 16 (.log .zero) ++ [.join]

theorem stop_drains_waiting :
    ∃ s, machine.Reaches StopsInTime stopWaiting s ∧ s.beforeStop = [[120]] ∧ s.Drained := by
  obtain ⟨s, run, hstopped, hbefore⟩ := machine.exists_reaches_of_exec StopsInTime new stopWaiting
    (fun s => s.owner = .stopped ∧ s.beforeStop = [[120]]) rfl (by decide)
  exact ⟨s, run, hbefore,
    (stop_drains_iff (run.mono fun _ _ h => shortMessages_of_stopsInTime h) hstopped).2 run⟩

/-- `stop` is called before the first test of `running_`. -/
def stopAtOnce : List Action :=
  started ++ [.append [120], .stop, .notify, .log .zero, .log .zero, .join]

theorem stop_loses_messages :
    ∃ s, machine.Reaches ShortMessages stopAtOnce s ∧ s.owner = .stopped ∧
      s.beforeStop = [[120]] ∧ s.output = [] ∧ ¬ s.Drained := by
  obtain ⟨s, run, hstopped, hbefore, houtput, herased⟩ := machine.exists_reaches_of_exec
    ShortMessages new stopAtOnce
    (fun s => s.owner = .stopped ∧ s.beforeStop = [[120]] ∧ s.output = [] ∧ s.erased = []) rfl
    (by decide)
  refine ⟨s, run, hstopped, hbefore, houtput, ?_⟩
  rintro ⟨blocks, silent, hkept, hdropped, hsilent, hcovers⟩
  have hk : blocks.kept = [] := by simpa [logged, houtput] using hkept
  have hd : blocks.dropped = [] := by simpa [herased] using hdropped
  have hall : blocks.all = [] := by simpa [hk, hd] using blocks.perm_all
  rw [hall, List.nil_append, hbefore] at hcovers
  exact absurd (hsilent [120] (hcovers.subset (by simp))) (by simp)

end AsyncLogger
