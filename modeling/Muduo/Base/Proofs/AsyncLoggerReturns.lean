import Muduo.Base.Proofs.AsyncLoggerStop
import Muduo.Lib.Progress

set_option autoImplicit false

/-! # stop returns

Once `running_` is cleared the logging thread ends its pass and its loop. It has at most 25 buffers
to write, however many the other threads fill in the meantime, because it erases what is too much
before it writes. -/

namespace AsyncLogger

variable {s t : AsyncLogger} {a : Action}

/-- A step of the logging thread. -/
def Action.isLog : Action → Bool
  | .log _ => true
  | _ => false

/-- The steps that the logging thread has still to take at most when `running_` is cleared and
    `BuffersWrite` has `batch` buffers. -/
def Pc.left (batch : Nat) : Pc → Nat
  | .idle | .done => 0
  | .lastFlush => 1
  | .testRunning => 2
  | .countDown | .flush => 3
  | .clear => 4
  | .refillBuffer2 => 5
  | .refillBuffer1 => 6
  | .resize => 7
  | .write k => batch - k + 8
  | .erase => 11
  | .notice => 12
  | .testSize => 34
  | .unlock => 35
  | .moveBuffer2 => 36
  | .testNext => 37
  | .swap => 38
  | .moveBuffer1 => 39
  | .pushCurrent => 40
  | .waiting => 41
  | .testBuffers => 42
  | .lock => 43

def left (s : AsyncLogger) : Nat := s.pc.left s.buffersWrite.length

/-- What is being written are 25 buffers at most. -/
def FewToWrite (s : AsyncLogger) : Prop := ∀ k, s.pc = .write k → s.buffersWrite.length ≤ 25

theorem FewToWrite.left_le (h : s.FewToWrite) : s.left ≤ 43 := by
  cases hpc : s.pc with
  | write k =>
      have hfew := h k hpc
      simp only [left, hpc, Pc.left]
      omega
  | _ => simp [left, hpc, Pc.left]

/-- `BuffersWrite.size() > 25` -/
theorem log_testSize {now : Timestamp} (hpc : s.pc = .testSize) (h : s.log now = some t) :
    t.pc = .notice ∨
      s.buffersWrite.length ≤ 25 ∧ t.pc = .write 0 ∧ t.buffersWrite = s.buffersWrite := by
  simp only [log, hpc, Option.some.injEq] at h
  subst h
  by_cases hsize : s.buffersWrite.length > 25
  · exact Or.inl (if_pos hsize)
  · exact Or.inr ⟨Nat.le_of_not_gt hsize, if_neg hsize, rfl⟩

theorem FewToWrite.log {now : Timestamp} (h : s.FewToWrite) (hstep : s.log now = some t) :
    t.FewToWrite := by
  cases log_cases hstep with
  | tooMany | fewEnough =>
      intro k hk
      obtain hnotice | ⟨hfew, -, hbatch⟩ := log_testSize (by assumption) hstep
      · exact absurd (hk.symm.trans hnotice) (by simp)
      · exact hbatch ▸ hfew
  | erase =>
      intro k _
      have hle := List.length_take_le 2 s.buffersWrite
      simp only
      omega
  | write hpc | null hpc => exact fun _ _ => h _ hpc
  | _ => exact fun _ hk => absurd hk (by simp)

theorem FewToWrite.step (h : s.FewToWrite) (hstep : s.step a = some t) : t.FewToWrite := by
  rcases step_cases hstep with ⟨msg, -, -, rfl⟩ | ⟨now, rfl, -⟩ | hcall
  · obtain ⟨-, hpc, -, -, -, hbatch, -⟩ := s.append_frame msg
    unfold FewToWrite
    rw [hpc, hbatch]
    exact h
  · exact h.log hstep
  · cases hcall with
    | start => exact fun _ hk => absurd hk (by simp)
    | _ => exact h

/-- A step of the logging thread when `running_` is cleared. -/
theorem left_log {now : Timestamp} (hs : s.Sound) (hrunning : s.running = false)
    (hstep : s.log now = some t) : t.left < s.left := by
  by_cases htest : s.pc = .testSize
  · obtain hnotice | ⟨hfew, hwrite, hbatch⟩ := log_testSize htest hstep
    · simp [left, htest, hnotice, Pc.left]
    · simp only [left, htest, hwrite, hbatch, Pc.left]
      omega
  · cases log_cases hstep with
    | tooMany hpc | fewEnough hpc => exact absurd hpc htest
    | goOn _ hgo => exact absurd hgo (by simp [hrunning])
    | erase hpc =>
        have hle := List.length_take_le 2 s.buffersWrite
        simp only [left, hpc, Pc.left]
        omega
    | write hpc hget =>
        have hlt := (List.getElem?_eq_some_iff.1 hget).1
        simp only [left, hpc, Pc.left]
        omega
    | null _ hget => exact absurd (List.mem_of_getElem? hget) hs.batch
    | written hpc hget =>
        simp only [left, hpc, Pc.left]
        omega
    | _ => simp_all [left, Pc.left]

/-- The others leave it to the logging thread. -/
theorem left_step (h : s.Stopping) (hs : s.Sound) (hrunning : s.running = false)
    (hstep : s.step a = some t) : t.left ≤ s.left ∧ (a.isLog = true → t.left < s.left) := by
  rcases step_cases hstep with ⟨msg, rfl, -, rfl⟩ | ⟨now, rfl, -⟩ | hcall
  · obtain ⟨-, hpc, -, -, -, hbatch, -⟩ := s.append_frame msg
    simp [left, hpc, hbatch, Action.isLog]
  · have hlt := left_log hs hrunning hstep
    exact ⟨Nat.le_of_lt hlt, fun _ => hlt⟩
  · unfold Stopping at h
    cases hcall with
    | start howner | waitLatch howner | stop howner => simp [howner] at h
    | notify | join => exact ⟨Nat.le_refl _, by simp [Action.isLog]⟩

/-! ## Runs -/

/-- What a run keeps and `stop` relies on. -/
structure Ends (s : AsyncLogger) : Prop where
  few : s.FewToWrite
  cleared : s.Stopping → s.running = false
  started : s.pc = .idle → s.owner = .constructed

theorem Ends.step (h : s.Ends) (hstep : s.step a = some t) : t.Ends where
  few := h.few.step hstep
  cleared hstopping := by
    by_cases hbefore : s.Stopping
    · rw [(hbefore.step hstep).2.1]
      exact h.cleared hbefore
    · obtain rfl := stop_of_stopping hbefore hstep hstopping
      simp only [AsyncLogger.step, Option.ite_none_right_eq_some, Option.some.injEq] at hstep
      rw [← hstep.2]
  started hidle := by
    rcases step_cases hstep with ⟨msg, -, -, rfl⟩ | ⟨now, -, hlog⟩ | hcall
    · obtain ⟨howner, hpc, -⟩ := s.append_frame msg
      exact howner.trans (h.started (hpc.symm.trans hidle))
    · cases hlog <;> exact absurd hidle (by simp)
    · cases hcall with
      | start => exact absurd hidle (by simp)
      | waitLatch howner | stop howner | notify howner | join howner =>
          exact absurd (howner.symm.trans (h.started hidle)) (by simp)

theorem ends_of_reaches {ok : AsyncLogger → Action → Prop} {as : List Action}
    (run : machine.Reaches ok as s) : s.Ends := by
  refine run.invariant ?_ fun s a t h _ hstep => h.step hstep
  rintro s rfl
  exact ⟨fun k hk => absurd hk (by simp [new]), by simp [Stopping, new], fun _ => rfl⟩

/-- The logging thread is not held up before it is done. -/
theorem log_isSome (hidle : s.pc ≠ .idle) (hdone : s.pc ≠ .done) (now : Timestamp) :
    (s.log now).isSome = true := by
  unfold log
  split
  · rename_i hpc
    exact absurd hpc hidle
  all_goals first
    | rfl
    | (split <;> rfl)
    | (rename_i hpc; exact absurd hpc hdone)

/-- Until `stop` has returned it can go on, or the logging thread can. -/
theorem goes_on (h : s.Ends) (hstopping : s.Stopping) :
    s.owner = .stopped ∨ (∀ now, (s.step (.log now)).isSome = true) ∨
      (s.step .notify).isSome = true ∨ (s.step .join).isSome = true := by
  rcases hstopping with howner | howner | howner
  · exact Or.inr (Or.inr (Or.inl (by simp [step, howner])))
  · by_cases hdone : s.pc = .done
    · exact Or.inr (Or.inr (Or.inr (by simp [step, howner, hdone])))
    · have hidle : s.pc ≠ .idle := fun hpc =>
        absurd ((h.started hpc).symm.trans howner) (by simp)
      exact Or.inr (Or.inl fun now => log_isSome hidle hdone now)
  · exact Or.inl howner

/-- When `stop` has cleared `running_`, then in whatever way it goes on, with any number of other
    threads that append, the logging thread takes 43 steps at most. Until `stop` has returned, the
    logging thread or `stop` can go on. -/
theorem stop_returns {as bs : List Action} (run : machine.Reaches Machine.anyStep as s)
    (hstopping : s.Stopping) (hmore : machine.exec Machine.anyStep s bs = some t) :
    bs.countP Action.isLog ≤ 43 ∧
    (t.owner = .stopped ∨ (∀ now, (t.step (.log now)).isSome = true) ∨
      (t.step .notify).isSome = true ∨ (t.step .join).isSome = true) := by
  let I (s : AsyncLogger) : Prop := s.Started ∧ s.Sound ∧ s.Ends ∧ s.Stopping
  have hkeep (s : AsyncLogger) (a : Action) (t : AsyncLogger) (hI : I s)
      (hstep : machine.step s a = some t) : I t := by
    obtain ⟨hstarted, hs, hends, hstopping⟩ := hI
    exact ⟨hstarted.step hstep, hs.step hstarted hstep, hends.step hstep, (hstopping.step hstep).1⟩
  have hleft (s : AsyncLogger) (a : Action) (_ : a ∈ bs) (t : AsyncLogger) (hI : I s)
      (hstep : machine.step s a = some t) :
      t.left ≤ s.left ∧ (a.isLog = true → t.left < s.left) := by
    obtain ⟨-, hs, hends, hstopping⟩ := hI
    exact left_step hstopping hs (hends.cleared hstopping) hstep
  have hends := ends_of_reaches run
  obtain ⟨hstarted, hs⟩ := sound_of_reaches run
  have hI : I s := ⟨hstarted, hs, hends, hstopping⟩
  have hcount := Machine.exec_countP_le left Action.isLog hkeep
    (fun s a ha t hI hstep => (hleft s a ha t hI hstep).1)
    (fun s a ha t hI hstep => (hleft s a ha t hI hstep).2) hI hmore
  have hle := hends.few.left_le
  obtain ⟨-, -, hends', hstopping'⟩ := Machine.exec_invariant hI hkeep hmore
  exact ⟨by omega, goes_on hends' hstopping'⟩

/-- Until `stop` has cleared `running_`. -/
def stopCleared : List Action := started ++ [.append [120], .log .zero, .log .zero, .stop]

/-- The rest of `stop`, while another thread appends. -/
def stopEnds : List Action :=
  [.notify, .log .zero, .append [121]] ++ List.replicate 16 (.log .zero) ++ [.join]

theorem stop_returns_stopEnds :
    ∃ s t, machine.Reaches Machine.anyStep stopCleared s ∧
      machine.exec Machine.anyStep s stopEnds = some t ∧ t.owner = .stopped ∧
      stopEnds.countP Action.isLog ≤ 43 := by
  obtain ⟨s, run, howner, hs⟩ := machine.exists_reaches_of_exec Machine.anyStep new stopCleared
    (fun s => s.owner = .notify ∧
      (machine.exec Machine.anyStep s stopEnds).any (·.owner = .stopped) = true) rfl (by decide)
  obtain ⟨t, ht, hstopped⟩ := (Option.any_eq_true _ _).1 hs
  exact ⟨s, t, run, ht, by simpa using hstopped, (stop_returns run (Or.inl howner) ht).1⟩

end AsyncLogger
