import Muduo.Net.Proofs.TimerQueue

set_option autoImplicit false

/-! # Cancelled timers

A timer is in one place at a time: with the `AddTimer` that made it, in the functor that inserts it,
in `timers_`, or in the expired batch. `CancelTimerInLoop` looks into `timers_` only, because
`HandleRead` never sets the flag that makes it remember an id. So a timer is gone for good when it
was in `timers_`, or when it was in the batch and does not repeat. -/

namespace TimerLoop

variable {s t : TimerLoop} {a : Action}

/-! ## Where a timer is -/

/-- The expired timers that the event going on may still put back. -/
@[simp] def Phase.expired : Phase → List ExpiredTimer
  | .idle => []
  | .running _ expired _ => expired
  | .resetting _ rest => rest

/-- The functor that inserts the timer with this id. -/
def Functor.adds (timerid : Nat) : Functor → Bool
  | .addTimerInLoop timer => timer.id == timerid
  | .cancelTimerInLoop _ => false

/-- How often a timer with this id is in a place from which it gets into `timers_`. -/
def held (s : TimerLoop) (timerid : Nat) : Nat :=
  s.queue.timers.countP (·.id == timerid) + s.phase.expired.countP (·.id == timerid) +
    s.functors.countP (Functor.adds timerid) + s.creating.countP (·.id == timerid)

/-- The id that a step executes `CancelTimerInLoop` for. -/
def cancels (s : TimerLoop) : Action → Option TimerID
  | .cancel timerid => some timerid
  | .runFunctor _ =>
      match s.functors with
      | .cancelTimerInLoop timerid :: _ => some timerid
      | _ => none
  | _ => none

/-- When `CancelTimerInLoop` is executed for an id, no functor that inserts the timer is queued, and
    the timer is not a repeating one that has expired in this event. -/
def CancelsInTime (s : TimerLoop) (a : Action) : Prop :=
  ∀ timerid ∈ s.cancels a, (∀ f ∈ s.functors, f.adds timerid = false) ∧
    ∀ e ∈ s.phase.expired, e.id = timerid → e.timer.repeat_ = false

instance (s : TimerLoop) (a : Action) : Decidable (CancelsInTime s a) :=
  match h : s.cancels a with
  | none => isTrue (by simp [CancelsInTime, h])
  | some timerid =>
      decidable_of_iff ((∀ f ∈ s.functors, f.adds timerid = false) ∧
        ∀ e ∈ s.phase.expired, e.id = timerid → e.timer.repeat_ = false)
        (by simp [CancelsInTime, h])

/-! ## Counting -/

theorem countP_eraseP {α : Type} (p : α → Bool) (l : List α) :
    (l.eraseP p).countP p = l.countP p - 1 := by
  induction l with
  | nil => rfl
  | cons x xs ih =>
      by_cases hx : p x = true
      · rw [List.eraseP_cons_of_pos hx, List.countP_cons_of_pos hx]
        rfl
      · rw [List.eraseP_cons_of_neg hx, List.countP_cons_of_neg hx, List.countP_cons_of_neg hx, ih]

/-- What a timer with the first id counts for the second. -/
def occurs (id timerid : Nat) : Nat := if id = timerid then 1 else 0

theorem occurs_of_ne {id timerid : Nat} (h : id ≠ timerid) : occurs id timerid = 0 := if_neg h

theorem occurs_succ_le (n timerid : Nat) :
    occurs (n + 1) timerid ≤ if n < timerid ∧ timerid ≤ n + 1 then 1 else 0 := by
  unfold occurs
  split_ifs <;> omega

section

variable (timerid : Nat)

@[simp] theorem countP_entry_cons (e : ExpiredTimer) (l : List ExpiredTimer) :
    (e :: l).countP (·.id == timerid) = occurs e.timer.id timerid + l.countP (·.id == timerid) := by
  rw [List.countP_cons, Nat.add_comm]
  simp [occurs, ExpiredTimer.id]

@[simp] theorem countP_timer_cons (timer : Timer) (l : List Timer) :
    (timer :: l).countP (·.id == timerid)
      = occurs timer.id timerid + l.countP (·.id == timerid) := by
  rw [List.countP_cons, Nat.add_comm]
  simp [occurs]

@[simp] theorem countP_add_cons (timer : Timer) (l : List Functor) :
    (.addTimerInLoop timer :: l).countP (Functor.adds timerid)
      = occurs timer.id timerid + l.countP (Functor.adds timerid) := by
  rw [List.countP_cons, Nat.add_comm]
  simp [occurs, Functor.adds]

@[simp] theorem countP_cancel_cons (id : TimerID) (l : List Functor) :
    (.cancelTimerInLoop id :: l).countP (Functor.adds timerid)
      = l.countP (Functor.adds timerid) := by
  rw [List.countP_cons_of_neg (by simp [Functor.adds])]

end

/-- An insertion puts at most the timer inserted into `timers_`. -/
theorem countP_of_place {timers : List ExpiredTimer} {l : List ExpiredTimer} {e : ExpiredTimer}
    {pos : Nat} (h : Ordered.place ExpiredTimer.lt l e pos = some timers) (timerid : Nat) :
    timers.countP (·.id == timerid) ≤ occurs e.timer.id timerid + l.countP (·.id == timerid) := by
  rcases Ordered.perm_of_place h with rfl | hperm
  · omega
  · rw [hperm.countP_eq, countP_entry_cons]

/-- Cancelling takes a timer that occurs at most once out of `timers_`. -/
theorem countP_cancelTimerInLoop (q : TimerQueue) (timerid : Nat)
    (h : q.timers.countP (·.id == timerid) ≤ 1) :
    (q.cancelTimerInLoop timerid).timers.countP (·.id == timerid) = 0 := by
  rw [TimerQueue.cancelTimerInLoop_timers, countP_eraseP]
  omega

theorem countP_cancelTimerInLoop_le (q : TimerQueue) (timerid other : Nat) :
    (q.cancelTimerInLoop timerid).timers.countP (·.id == other)
      ≤ q.timers.countP (·.id == other) := by
  rw [TimerQueue.cancelTimerInLoop_timers]
  exact List.eraseP_sublist.countP_le

theorem cancelInLoop_queue (s : TimerLoop) (timerid : Nat) :
    (s.cancelInLoop timerid).queue = s.queue.cancelTimerInLoop timerid := by
  simp only [cancelInLoop]
  split <;> rfl

theorem held_cancelInLoop_le (s : TimerLoop) (timerid other : Nat) :
    (s.cancelInLoop timerid).held other ≤ s.held other := by
  have hqueue := countP_cancelTimerInLoop_le s.queue timerid other
  simp only [cancelInLoop]
  split <;> simp only [held] <;> omega

theorem cancelInLoop_functors (s : TimerLoop) (timerid : Nat) :
    (s.cancelInLoop timerid).functors = s.functors := by
  simp only [cancelInLoop]
  split <;> rfl

theorem cancelInLoop_creating (s : TimerLoop) (timerid : Nat) :
    (s.cancelInLoop timerid).creating = s.creating := by
  simp only [cancelInLoop]
  split <;> rfl

theorem cancelInLoop_phase (s : TimerLoop) (timerid : Nat) :
    (s.cancelInLoop timerid).phase = s.phase := by
  simp only [cancelInLoop]
  split <;> rfl

theorem cancelInLoop_totalNum (s : TimerLoop) (timerid : Nat) :
    (s.cancelInLoop timerid).totalNum = s.totalNum := by
  simp only [cancelInLoop]
  split <;> rfl

theorem restarted_eq_some {q : TimerQueue} {e : ExpiredTimer} {now : Timestamp} {timer : Timer}
    (h : q.restarted e now = some timer) : e.timer.repeat_ = true ∧ timer.id = e.timer.id := by
  simp only [TimerQueue.restarted, Option.ite_none_right_eq_some, Option.some.injEq] at h
  obtain ⟨⟨hrepeat, -⟩, rfl⟩ := h
  refine ⟨hrepeat, ?_⟩
  simp [Timer.restart, hrepeat]

/-- A step moves timers, drops them, or makes one with a fresh id. -/
theorem Step.held_le (h : Step s a t) (timerid : Nat) :
    s.totalNum ≤ t.totalNum ∧
      t.held timerid ≤ s.held timerid +
        if s.totalNum < timerid ∧ timerid ≤ t.totalNum then 1 else 0 := by
  cases h with
  | newTimer countDown interval =>
      refine ⟨Nat.le_succ _, ?_⟩
      have hfresh := occurs_succ_le s.totalNum timerid
      simp only [held, List.countP_append, countP_timer_cons, List.countP_nil]
      omega
  | queueAdd hcreating =>
      refine ⟨Nat.le_refl _, Nat.le_add_right_of_le ?_⟩
      have hsplit := (List.perm_cons_erase hcreating).countP_eq (·.id == timerid)
      simp only [held, List.countP_append, countP_timer_cons, countP_add_cons, List.countP_nil]
        at hsplit ⊢
      omega
  | queueCancel hreturned =>
      refine ⟨Nat.le_refl _, Nat.le_add_right_of_le ?_⟩
      simp [held, Functor.adds]
  | addTimer hcallable hplace =>
      refine ⟨Nat.le_succ _, ?_⟩
      have hcount := countP_of_place hplace timerid
      have hfresh := occurs_succ_le s.totalNum timerid
      simp only [held] at hcount ⊢
      omega
  | cancel hcallable hreturned =>
      rw [cancelInLoop_totalNum]
      exact ⟨Nat.le_refl _, Nat.le_add_right_of_le (held_cancelInLoop_le s _ timerid)⟩
  | runAdd hidle hfunctors hplace =>
      refine ⟨Nat.le_refl _, Nat.le_add_right_of_le ?_⟩
      have hcount := countP_of_place hplace timerid
      simp only [held, hfunctors, countP_add_cons] at hcount ⊢
      omega
  | runCancel hidle hfunctors =>
      rw [cancelInLoop_totalNum]
      refine ⟨Nat.le_refl _, Nat.le_add_right_of_le ((held_cancelInLoop_le _ _ timerid).trans ?_)⟩
      simp [held, hfunctors]
  | handleRead now hidle =>
      refine ⟨Nat.le_refl _, Nat.le_add_right_of_le ?_⟩
      have hsplit := congrArg (List.countP (·.id == timerid))
        (List.takeWhile_append_dropWhile (p := fun e => !decide (now < e.timestamp))
          (l := s.queue.timers))
      rw [List.countP_append] at hsplit
      simp only [held, hidle, Phase.expired, TimerQueue.getExpiredTimer, List.countP_nil]
      omega
  | runTimer hphase =>
      refine ⟨Nat.le_refl _, Nat.le_add_right_of_le ?_⟩
      simp [held, hphase, Phase.expired]
  | beginReset hphase =>
      refine ⟨Nat.le_refl _, Nat.le_add_right_of_le ?_⟩
      simp [held, hphase, Phase.expired]
  | resetTimer hphase hrestarted hplace =>
      refine ⟨Nat.le_refl _, Nat.le_add_right_of_le ?_⟩
      have hcount := countP_of_place hplace timerid
      rw [(restarted_eq_some hrestarted).2] at hcount
      simp only [held, hphase, Phase.expired, countP_entry_cons] at hcount ⊢
      omega
  | skipTimer hphase hnone =>
      refine ⟨Nat.le_refl _, Nat.le_add_right_of_le ?_⟩
      simp only [held, hphase, Phase.expired, countP_entry_cons]
      omega
  | endReset hphase =>
      refine ⟨Nat.le_refl _, Nat.le_add_right_of_le ?_⟩
      simp [held, hphase, Phase.expired]

/-! ## The invariant -/

/-- A timer cancelled in time: it is at most among the expired ones, and does not repeat. -/
structure Gone (s : TimerLoop) (timerid : Nat) : Prop where
  known : timerid ≤ s.totalNum
  timers : s.queue.timers.countP (·.id == timerid) = 0
  functors : s.functors.countP (Functor.adds timerid) = 0
  creating : s.creating.countP (·.id == timerid) = 0
  expired : ∀ e ∈ s.phase.expired, e.timer.id = timerid → e.timer.repeat_ = false

/-- What the runs keep. -/
structure Tidy (s : TimerLoop) : Prop where
  /-- No timer is in two places. -/
  unique : ∀ timerid : Nat, s.held timerid ≤ 1
  /-- No timer has an id that was not given out. -/
  known : ∀ timerid : Nat, s.totalNum < timerid → s.held timerid = 0
  /-- Only a timer that is with the loop is cancelled. -/
  queued : ∀ timerid : Nat, .cancelTimerInLoop timerid ∈ s.functors →
    timerid ≤ s.totalNum ∧ s.creating.countP (·.id == timerid) = 0
  /-- A timer whose cancellation is over is nowhere. -/
  settled : ∀ timerid : Nat, .settled timerid ∈ s.log → timerid ≤ s.totalNum ∧ s.held timerid = 0
  cancelled : ∀ timerid ∈ s.cancelled, s.Gone timerid
  idle : s.phase = .idle → s.cancelled = []
  /-- What has still to run has expired. -/
  running : ∀ now expired rest, s.phase = .running now expired rest → ∀ e ∈ rest, e ∈ expired
  once : ∀ timerid : Nat, Trace.NeverAfter (· = .settled timerid) (· = .ran timerid) s.log

theorem Tidy.new : Tidy new where
  unique _ := Nat.zero_le _
  known _ _ := rfl
  queued _ h := absurd h (by simp [TimerLoop.new])
  settled _ h := absurd h (by simp [TimerLoop.new])
  cancelled _ h := absurd h (by simp [TimerLoop.new])
  idle _ := rfl
  running _ _ _ h := absurd h (by simp [TimerLoop.new])
  once _ := Trace.neverAfter_nil

namespace Tidy

/-! ### Steps, one part of the invariant at a time -/

theorem unique_step (h : Tidy s) (hstep : Step s a t) (timerid : Nat) : t.held timerid ≤ 1 := by
  have hheld := (hstep.held_le timerid).2
  have hunique := h.unique timerid
  split at hheld
  · rename_i hfresh
    have := h.known timerid hfresh.1
    omega
  · omega

theorem known_step (h : Tidy s) (hstep : Step s a t) (timerid : Nat)
    (hnew : t.totalNum < timerid) : t.held timerid = 0 := by
  obtain ⟨hmono, hheld⟩ := hstep.held_le timerid
  have hzero := h.known timerid (by omega)
  have hold : ¬ (s.totalNum < timerid ∧ timerid ≤ t.totalNum) := by omega
  rw [if_neg hold] at hheld
  omega

/-- A timer that was nowhere stays away. -/
theorem held_step (hstep : Step s a t) {timerid : Nat} (hknown : timerid ≤ s.totalNum)
    (hheld : s.held timerid = 0) : t.held timerid = 0 := by
  have hle := (hstep.held_le timerid).2
  have hold : ¬ (s.totalNum < timerid ∧ timerid ≤ t.totalNum) := by omega
  rw [if_neg hold] at hle
  omega

theorem countP_returned {timerid : Nat} (h : s.Returned timerid) :
    s.creating.countP (·.id == timerid) = 0 :=
  List.countP_eq_zero.2 fun timer ht => by simpa using h.2.2 timer ht

theorem queued_step (h : Tidy s) (hstep : Step s a t) (timerid : Nat)
    (hmem : .cancelTimerInLoop timerid ∈ t.functors) :
    timerid ≤ t.totalNum ∧ t.creating.countP (·.id == timerid) = 0 := by
  cases hstep with
  | newTimer countDown interval =>
      obtain ⟨hknown, hcreating⟩ := h.queued timerid hmem
      have hne : occurs (s.totalNum + 1) timerid = 0 := occurs_of_ne (by omega)
      refine ⟨Nat.le_succ_of_le hknown, ?_⟩
      simp only [List.countP_append, countP_timer_cons, List.countP_nil]
      omega
  | queueAdd hcreating =>
      obtain ⟨hknown, hzero⟩ := h.queued timerid (by simpa using hmem)
      refine ⟨hknown, Nat.eq_zero_of_le_zero ?_⟩
      rw [← hzero]
      exact List.erase_sublist.countP_le
  | queueCancel hreturned =>
      rcases List.mem_append.1 hmem with hmem | hmem
      · exact h.queued timerid hmem
      · obtain rfl : timerid = _ := by simpa using hmem
        exact ⟨hreturned.2.1, countP_returned hreturned⟩
  | addTimer hcallable hplace =>
      obtain ⟨hknown, hcreating⟩ := h.queued timerid hmem
      exact ⟨Nat.le_succ_of_le hknown, hcreating⟩
  | cancel hcallable hreturned =>
      rw [cancelInLoop_functors] at hmem
      rw [cancelInLoop_totalNum, cancelInLoop_creating]
      exact h.queued timerid hmem
  | runAdd hidle hfunctors hplace =>
      exact h.queued timerid (hfunctors ▸ List.mem_cons_of_mem _ hmem)
  | runCancel hidle hfunctors =>
      rw [cancelInLoop_functors] at hmem
      rw [cancelInLoop_totalNum, cancelInLoop_creating]
      exact h.queued timerid (hfunctors ▸ List.mem_cons_of_mem _ hmem)
  | handleRead now hidle => exact h.queued timerid hmem
  | runTimer hphase => exact h.queued timerid hmem
  | beginReset hphase => exact h.queued timerid hmem
  | resetTimer hphase hrestarted hplace => exact h.queued timerid hmem
  | skipTimer hphase hnone => exact h.queued timerid hmem
  | endReset hphase => exact h.queued timerid hmem

end Tidy

theorem Gone.cancelInLoop {timerid : Nat} (h : Gone s timerid) (other : Nat) :
    Gone (s.cancelInLoop other) timerid where
  known := by
    rw [cancelInLoop_totalNum]
    exact h.known
  timers := by
    rw [cancelInLoop_queue]
    have := countP_cancelTimerInLoop_le s.queue other timerid
    have := h.timers
    omega
  functors := by
    rw [cancelInLoop_functors]
    exact h.functors
  creating := by
    rw [cancelInLoop_creating]
    exact h.creating
  expired := by
    rw [cancelInLoop_phase]
    exact h.expired

/-- Another timer may be inserted. -/
theorem Gone.countP_place {timerid : Nat} {timers : List ExpiredTimer} {e : ExpiredTimer}
    {pos : Nat} (h : Gone s timerid) (hne : e.timer.id ≠ timerid)
    (hplace : Ordered.place ExpiredTimer.lt s.queue.timers e pos = some timers) :
    timers.countP (·.id == timerid) = 0 := by
  have hcount := countP_of_place hplace timerid
  rw [occurs_of_ne hne, h.timers] at hcount
  omega

/-- A timer cancelled in time stays gone. -/
theorem Gone.step {timerid : Nat} (h : Gone s timerid) (hstep : Step s a t) : Gone t timerid := by
  have hfresh : s.totalNum + 1 ≠ timerid := by
    have := h.known
    omega
  cases hstep with
  | newTimer countDown interval =>
      refine ⟨Nat.le_succ_of_le h.known, h.timers, h.functors, ?_, h.expired⟩
      simp only [List.countP_append, countP_timer_cons, List.countP_nil, h.creating,
        occurs_of_ne hfresh]
  | queueAdd hcreating =>
      have hsplit := (List.perm_cons_erase hcreating).countP_eq (·.id == timerid)
      rw [h.creating, countP_timer_cons] at hsplit
      refine ⟨h.known, h.timers, ?_, ?_, h.expired⟩
      · simp only [List.countP_append, countP_add_cons, List.countP_nil, h.functors]
        omega
      · simp only
        omega
  | queueCancel hreturned =>
      refine ⟨h.known, h.timers, ?_, h.creating, h.expired⟩
      rw [List.countP_append, countP_cancel_cons, List.countP_nil, h.functors]
  | addTimer hcallable hplace =>
      exact ⟨Nat.le_succ_of_le h.known, h.countP_place hfresh hplace, h.functors, h.creating,
        h.expired⟩
  | cancel hcallable hreturned => exact h.cancelInLoop _
  | @runAdd pos timer functors timers armed hidle hfunctors hplace =>
      -- no queued functor adds the timer, so this one adds another
      have hcount := h.functors
      rw [hfunctors, countP_add_cons] at hcount
      have hne : timer.id ≠ timerid := by
        intro heq
        simp [occurs, heq] at hcount
      refine ⟨h.known, h.countP_place hne hplace, ?_, h.creating, h.expired⟩
      simp only
      omega
  | @runCancel pos cancelled functors hidle hfunctors =>
      have hcount := h.functors
      rw [hfunctors, countP_cancel_cons] at hcount
      exact Gone.cancelInLoop (s := { s with functors })
        ⟨h.known, h.timers, hcount, h.creating, h.expired⟩ _
  | handleRead now hidle =>
      have hnone : ∀ e ∈ s.queue.timers, ¬ e.timer.id = timerid := by
        simpa [ExpiredTimer.id] using List.countP_eq_zero.1 h.timers
      refine ⟨h.known, ?_, h.functors, h.creating, fun e he heq => ?_⟩
      · exact List.countP_eq_zero.2 fun e he => by
          simpa [ExpiredTimer.id] using hnone e (List.dropWhile_subset _ he)
      · exact absurd heq (hnone e (List.takeWhile_subset _ he))
  | runTimer hphase =>
      have hexpired := h.expired
      rw [hphase] at hexpired
      exact ⟨h.known, h.timers, h.functors, h.creating, hexpired⟩
  | beginReset hphase =>
      have hexpired := h.expired
      rw [hphase] at hexpired
      exact ⟨h.known, h.timers, h.functors, h.creating, hexpired⟩
  | resetTimer hphase hrestarted hplace =>
      have hexpired := h.expired
      rw [hphase] at hexpired
      obtain ⟨hrepeat, hid⟩ := restarted_eq_some hrestarted
      -- a timer that is put back repeats, so it is another one
      refine ⟨h.known, h.countP_place (fun heq => ?_) hplace, h.functors, h.creating,
        fun e he => hexpired e (List.mem_cons_of_mem _ he)⟩
      have hnot := hexpired _ List.mem_cons_self (hid.symm.trans heq)
      exact absurd (hrepeat.symm.trans hnot) (by simp)
  | skipTimer hphase hnone =>
      have hexpired := h.expired
      rw [hphase] at hexpired
      exact ⟨h.known, h.timers, h.functors, h.creating,
        fun e he => hexpired e (List.mem_cons_of_mem _ he)⟩
  | endReset hphase =>
      exact ⟨h.known, by simpa using h.timers, h.functors, h.creating, by simp⟩

/-- When no event is going on, a timer that is gone is nowhere. -/
theorem Gone.held_eq_zero {timerid : Nat} (h : Gone s timerid) (hidle : s.phase = .idle) :
    s.held timerid = 0 := by
  simp [held, h.timers, h.functors, h.creating, hidle]

/-- The timer that `CancelTimerInLoop` is executed for in time is gone. -/
theorem gone_of_cancelInLoop {timerid : Nat} (hknown : timerid ≤ s.totalNum)
    (hunique : s.held timerid ≤ 1) (hcreating : s.creating.countP (·.id == timerid) = 0)
    (hfunctors : ∀ f ∈ s.functors, f.adds timerid = false)
    (hexpired : ∀ e ∈ s.phase.expired, e.timer.id = timerid → e.timer.repeat_ = false) :
    Gone (s.cancelInLoop timerid) timerid := by
  constructor
  · rw [cancelInLoop_totalNum]
    exact hknown
  · rw [cancelInLoop_queue]
    refine countP_cancelTimerInLoop _ _ ?_
    rw [held] at hunique
    omega
  · rw [cancelInLoop_functors]
    exact List.countP_eq_zero.2 (by simpa using hfunctors)
  · rw [cancelInLoop_creating]
    exact hcreating
  · rw [cancelInLoop_phase]
    exact hexpired

namespace Tidy

/-- The id that a step cancels is gone behind it. -/
theorem gone_of_cancels (h : Tidy s) (hok : CancelsInTime s a) (hstep : Step s a t) {timerid : Nat}
    (hcancels : timerid ∈ s.cancels a) : Gone t timerid := by
  obtain ⟨hfunctors, hexpired⟩ := hok timerid hcancels
  cases hstep with
  | newTimer countDown interval => exact absurd hcancels (by simp [cancels])
  | queueAdd hcreating => exact absurd hcancels (by simp [cancels])
  | queueCancel hreturned => exact absurd hcancels (by simp [cancels])
  | addTimer hcallable hplace => exact absurd hcancels (by simp [cancels])
  | cancel hcallable hreturned =>
      obtain rfl : _ = timerid := Option.some.inj hcancels
      exact gone_of_cancelInLoop hreturned.2.1 (h.unique _) (countP_returned hreturned) hfunctors
        hexpired
  | runAdd hidle hqueue hplace => exact absurd hcancels (by simp [cancels, hqueue])
  | @runCancel pos cancelled functors hidle hqueue =>
      obtain rfl : cancelled = timerid := by simpa [cancels, hqueue] using hcancels
      obtain ⟨hknown, hcreating⟩ := h.queued cancelled (hqueue ▸ List.mem_cons_self)
      have hheld : ({ s with functors } : TimerLoop).held cancelled ≤ 1 := by
        have := h.unique cancelled
        simp only [held, hqueue, countP_cancel_cons] at this ⊢
        exact this
      exact gone_of_cancelInLoop hknown hheld hcreating
        (fun f hf => hfunctors f (hqueue ▸ List.mem_cons_of_mem _ hf)) hexpired
  | handleRead now hidle => exact absurd hcancels (by simp [cancels])
  | runTimer hphase => exact absurd hcancels (by simp [cancels])
  | beginReset hphase => exact absurd hcancels (by simp [cancels])
  | resetTimer hphase hrestarted hplace => exact absurd hcancels (by simp [cancels])
  | skipTimer hphase hnone => exact absurd hcancels (by simp [cancels])
  | endReset hphase => exact absurd hcancels (by simp [cancels])

end Tidy

theorem cancelInLoop_ghosts (s : TimerLoop) (timerid : TimerID) :
    (s.phase = .idle ∧ (s.cancelInLoop timerid).cancelled = s.cancelled ∧
      (s.cancelInLoop timerid).log = s.log ++ [.settled timerid]) ∨
    (s.phase ≠ .idle ∧ (s.cancelInLoop timerid).cancelled = s.cancelled ++ [timerid] ∧
      (s.cancelInLoop timerid).log = s.log) := by
  simp only [cancelInLoop]
  split
  · rename_i hidle
    exact Or.inl ⟨hidle, rfl, rfl⟩
  · rename_i hbusy
    exact Or.inr ⟨hbusy, rfl, rfl⟩

/-- A step cancels, and settles the id or remembers it; or it ends an event and settles what was
    remembered; or it settles nothing, and may run a timer. -/
theorem Step.ghosts (h : Step s a t) :
    (∃ timerid ∈ s.cancels a, t.phase = s.phase ∧
      ((s.phase = .idle ∧ t.cancelled = s.cancelled ∧ t.log = s.log ++ [.settled timerid]) ∨
        (s.phase ≠ .idle ∧ t.cancelled = s.cancelled ++ [timerid] ∧ t.log = s.log))) ∨
    (t.phase = .idle ∧ t.cancelled = [] ∧ t.log = s.log ++ s.cancelled.map .settled) ∨
    (t.cancelled = s.cancelled ∧ (t.phase = .idle → s.phase = .idle) ∧
      (t.log = s.log ∨ ∃ now expired rest e, s.phase = .running now expired (e :: rest) ∧
        t.log = s.log ++ [.ran e.timer.id])) := by
  cases h with
  | newTimer countDown interval => exact Or.inr (Or.inr ⟨rfl, id, Or.inl rfl⟩)
  | queueAdd hcreating => exact Or.inr (Or.inr ⟨rfl, id, Or.inl rfl⟩)
  | queueCancel hreturned => exact Or.inr (Or.inr ⟨rfl, id, Or.inl rfl⟩)
  | addTimer hcallable hplace => exact Or.inr (Or.inr ⟨rfl, id, Or.inl rfl⟩)
  | cancel hcallable hreturned =>
      exact Or.inl ⟨_, rfl, cancelInLoop_phase _ _, cancelInLoop_ghosts _ _⟩
  | runAdd hidle hfunctors hplace => exact Or.inr (Or.inr ⟨rfl, id, Or.inl rfl⟩)
  | @runCancel pos timerid functors hidle hfunctors =>
      exact Or.inl ⟨timerid, by simp [cancels, hfunctors], cancelInLoop_phase _ _,
        cancelInLoop_ghosts { s with functors } timerid⟩
  | handleRead now hidle => exact Or.inr (Or.inr ⟨rfl, fun _ => hidle, Or.inl rfl⟩)
  | runTimer hphase =>
      exact Or.inr (Or.inr ⟨rfl, by simp, Or.inr ⟨_, _, _, _, hphase, rfl⟩⟩)
  | beginReset hphase => exact Or.inr (Or.inr ⟨rfl, by simp, Or.inl rfl⟩)
  | resetTimer hphase hrestarted hplace => exact Or.inr (Or.inr ⟨rfl, by simp, Or.inl rfl⟩)
  | skipTimer hphase hnone => exact Or.inr (Or.inr ⟨rfl, by simp, Or.inl rfl⟩)
  | endReset hphase => exact Or.inr (Or.inl ⟨rfl, rfl, rfl⟩)

/-- A step starts `HandleRead` with all expired timers to run, and later runs one of them. -/
theorem Step.running (h : Step s a t)
    (hrunning : ∀ now expired rest, s.phase = .running now expired rest → ∀ e ∈ rest, e ∈ expired)
    (now : Timestamp) (expired rest : List ExpiredTimer)
    (hphase : t.phase = .running now expired rest) : ∀ e ∈ rest, e ∈ expired := by
  cases h with
  | newTimer countDown interval => exact hrunning _ _ _ hphase
  | queueAdd hcreating => exact hrunning _ _ _ hphase
  | queueCancel hreturned => exact hrunning _ _ _ hphase
  | addTimer hcallable hplace => exact hrunning _ _ _ hphase
  | cancel hcallable hreturned =>
      rw [cancelInLoop_phase] at hphase
      exact hrunning _ _ _ hphase
  | runAdd hidle hfunctors hplace => exact hrunning _ _ _ hphase
  | runCancel hidle hfunctors =>
      rw [cancelInLoop_phase] at hphase
      exact hrunning _ _ _ hphase
  | handleRead now hidle =>
      obtain ⟨-, rfl, rfl⟩ := Phase.running.inj hphase
      exact fun e he => he
  | runTimer hbefore =>
      obtain ⟨-, rfl, rfl⟩ := Phase.running.inj hphase
      exact fun e he => hrunning _ _ _ hbefore e (List.mem_cons_of_mem _ he)
  | beginReset hbefore => exact absurd hphase (by simp)
  | resetTimer hbefore hrestarted hplace => exact absurd hphase (by simp)
  | skipTimer hbefore hnone => exact absurd hphase (by simp)
  | endReset hbefore => exact absurd hphase (by simp)

namespace Tidy

/-- What a step adds to the log: a timer that is somewhere runs, or timers that are nowhere are
    settled. -/
theorem log_step (h : Tidy s) (hok : CancelsInTime s a) (hstep : Step s a t) :
    ∃ es, t.log = s.log ++ es ∧
      ((∃ timerid, es = [.ran timerid] ∧ 0 < s.held timerid) ∨
        ∃ timerids : List Nat, es = timerids.map .settled ∧
          ∀ timerid ∈ timerids, timerid ≤ t.totalNum ∧ t.held timerid = 0) := by
  rcases hstep.ghosts with ⟨timerid, hcancels, hphase, ⟨hidle, -, hlog⟩ | ⟨-, -, hlog⟩⟩ |
    ⟨hidle, -, hlog⟩ | ⟨-, -, hlog | ⟨now, expired, rest, e, hphase, hlog⟩⟩
  · have hgone := h.gone_of_cancels hok hstep hcancels
    refine ⟨_, hlog, Or.inr ⟨[timerid], rfl, ?_⟩⟩
    simpa using ⟨hgone.known, hgone.held_eq_zero (hphase.trans hidle)⟩
  · exact ⟨[], by simpa using hlog, Or.inr ⟨[], rfl, by simp⟩⟩
  · refine ⟨_, hlog, Or.inr ⟨s.cancelled, rfl, fun timerid hmem => ?_⟩⟩
    have hgone := (h.cancelled timerid hmem).step hstep
    exact ⟨hgone.known, hgone.held_eq_zero hidle⟩
  · exact ⟨[], by simpa using hlog, Or.inr ⟨[], rfl, by simp⟩⟩
  · refine ⟨_, hlog, Or.inl ⟨_, rfl, ?_⟩⟩
    have hexpired : 0 < s.phase.expired.countP (·.id == e.timer.id) := by
      rw [List.countP_pos_iff, hphase]
      exact ⟨e, h.running _ _ _ hphase e List.mem_cons_self, by simp [ExpiredTimer.id]⟩
    rw [held]
    omega

theorem step (h : Tidy s) (hok : CancelsInTime s a) (hstep : Step s a t) : Tidy t where
  unique := h.unique_step hstep
  known := h.known_step hstep
  queued := h.queued_step hstep
  settled timerid hmem := by
    obtain ⟨es, hlog, hes⟩ := h.log_step hok hstep
    rw [hlog] at hmem
    rcases List.mem_append.1 hmem with hold | hnew
    · obtain ⟨hknown, hheld⟩ := h.settled timerid hold
      exact ⟨hknown.trans (hstep.held_le timerid).1, held_step hstep hknown hheld⟩
    · rcases hes with ⟨ran, rfl, -⟩ | ⟨timerids, rfl, hgone⟩
      · exact absurd hnew (by simp)
      · exact hgone timerid (by simpa using hnew)
  cancelled timerid hmem := by
    rcases hstep.ghosts with ⟨other, hcancels, -, ⟨-, hsame, -⟩ | ⟨-, hmore, -⟩⟩ |
      ⟨-, hnone, -⟩ | ⟨hsame, -, -⟩
    · exact (h.cancelled timerid (hsame ▸ hmem)).step hstep
    · rcases List.mem_append.1 (hmore ▸ hmem) with hold | hnew
      · exact (h.cancelled timerid hold).step hstep
      · obtain rfl := List.mem_singleton.1 hnew
        exact h.gone_of_cancels hok hstep hcancels
    · exact absurd (hnone ▸ hmem) (by simp)
    · exact (h.cancelled timerid (hsame ▸ hmem)).step hstep
  idle hidle := by
    rcases hstep.ghosts with ⟨other, -, hphase, ⟨hbefore, hsame, -⟩ | ⟨hbusy, -, -⟩⟩ |
      ⟨-, hnone, -⟩ | ⟨hsame, hbefore, -⟩
    · rw [hsame, h.idle hbefore]
    · exact absurd (hphase.symm.trans hidle) hbusy
    · exact hnone
    · rw [hsame, h.idle (hbefore hidle)]
  running := hstep.running h.running
  once timerid := by
    obtain ⟨es, hlog, ⟨ran, rfl, hheld⟩ | ⟨timerids, rfl, -⟩⟩ := h.log_step hok hstep
    · rw [hlog]
      -- a settled timer is nowhere, so it is not the one that runs
      by_cases hsettled : .settled timerid ∈ s.log
      · refine (h.once timerid).append_of_quiet ?_
        intro e he heq
        obtain rfl : timerid = ran := by simpa [heq] using he
        have := (h.settled timerid hsettled).2
        omega
      · exact .append_of_absent (fun e he heq => hsettled (heq ▸ he)) (List.pairwise_singleton _ _)
    · rw [hlog]
      exact (h.once timerid).append_of_quiet (by simp)

end Tidy

/-- In every run that cancels in time, a timer whose cancellation is over is not in `timers_` and
    does not run any more. -/
theorem cancelled_never_back {as : List Action} (run : machine.Reaches CancelsInTime as s)
    (timerid : TimerID) :
    (.settled timerid ∈ s.log → ∀ e ∈ s.queue.timers, e.id ≠ timerid) ∧
      Trace.NeverAfter (· = .settled timerid) (· = .ran timerid) s.log := by
  have htidy : Tidy s := run.invariant (fun s hs => hs ▸ Tidy.new)
    fun s a t h hok hstep => h.step hok (step_cases hstep)
  refine ⟨fun hsettled e he heq => ?_, htidy.once timerid⟩
  have hheld := (htidy.settled timerid hsettled).2
  have hpos : 0 < s.queue.timers.countP (·.id == timerid) :=
    List.countP_pos_iff.2 ⟨e, he, by simpa using heq⟩
  rw [held] at hheld
  omega

/-- A repeating timer that has run once is cancelled between two events. -/
theorem cancelled_never_back_between_events :
    ∃ s, machine.Reaches CancelsInTime
        [.addTimer ⟨1⟩ 10 0, .handleRead ⟨1⟩, .runTimer, .beginReset, .resetTimer 0, .endReset,
          .cancel 1, .handleRead ⟨11⟩] s ∧
      .settled 1 ∈ s.log ∧ ∀ e ∈ s.queue.timers, e.id ≠ 1 := by
  obtain ⟨s, run, hsettled⟩ := Machine.exists_reaches_of_exec machine CancelsInTime .new
    [.addTimer ⟨1⟩ 10 0, .handleRead ⟨1⟩, .runTimer, .beginReset, .resetTimer 0, .endReset,
      .cancel 1, .handleRead ⟨11⟩]
    (fun s => .settled 1 ∈ s.log) rfl (by decide)
  exact ⟨s, run, hsettled, (cancelled_never_back run 1).1 hsettled⟩

/-- A repeating timer cancelled by its own callback is put back, and runs again. -/
theorem cancelled_in_callback_comes_back :
    ∃ s, machine.Reachable s ∧ s.log = [.ran 1, .settled 1, .ran 1] ∧
      ¬ Trace.NeverAfter (· = .settled 1) (· = .ran 1) s.log := by
  obtain ⟨s, run, hlog⟩ := Machine.exists_reaches_of_exec machine Machine.anyStep .new
    [.addTimer ⟨1⟩ 10 0, .handleRead ⟨1⟩, .runTimer, .cancel 1, .beginReset, .resetTimer 0,
      .endReset, .handleRead ⟨11⟩, .runTimer]
    (fun s => s.log = [.ran 1, .settled 1, .ran 1]) rfl (by decide)
  refine ⟨s, run.reachable, hlog, ?_⟩
  rw [hlog, Trace.NeverAfter]
  decide

end TimerLoop
