import Muduo.Net.Proofs.TimerEvents

set_option autoImplicit false

/-! # A loop makes events of its timers

The loop thread executes `AddTimerInLoop` and `CancelTimerInLoop` as functors, in callbacks and
between events, and no two timers have one id. So what holds in every run of events holds of the
timers of a loop. -/

namespace TimerLoop

variable {s t : TimerLoop} {a : Action} {q : TimerEvents}

/-- The timers that have been made and not given to `AddTimerInLoop` yet. -/
def Functor.timer : Functor → Option Timer
  | .addTimerInLoop timer => some timer
  | .cancelTimerInLoop _ => none

@[simp] theorem Functor.timer_add (timer : Timer) :
    (Functor.addTimerInLoop timer).timer = some timer := rfl

@[simp] theorem Functor.timer_cancel (timerid : TimerID) :
    (Functor.cancelTimerInLoop timerid).timer = none := rfl

def waiting (s : TimerLoop) : List TimerID :=
  (s.creating ++ s.functors.filterMap Functor.timer).map Timer.id

/-- The ids of the timers that have been made. -/
def known (s : TimerLoop) (q : TimerEvents) : List TimerID := q.added.map Timer.id ++ s.waiting

/-- The loop and the events have the same queue, and a timer that waits has not been added. -/
structure Refines (s : TimerLoop) (q : TimerEvents) : Prop where
  queue : q.queue = s.queue
  phase : q.phase = s.phase
  distinct : (s.known q).Nodup
  made : ∀ id ∈ s.known q, id ≤ s.totalNum

theorem refines_new : Refines new .new :=
  ⟨rfl, rfl, by simp [known, TimerEvents.new, new, waiting],
    by simp [known, TimerEvents.new, new, waiting]⟩

theorem callable_iff (h : s.Refines q) : q.Callable = true ↔ s.Callable := by
  rw [TimerEvents.Callable, h.phase, Callable]
  cases s.phase <;> simp

/-- The timers that have been made stay the same. -/
theorem Refines.of_perm {q' : TimerEvents} (h : s.Refines q) (hqueue : q'.queue = t.queue)
    (hphase : q'.phase = t.phase) (hknown : (t.known q').Perm (s.known q))
    (htotal : t.totalNum = s.totalNum) : t.Refines q' :=
  ⟨hqueue, hphase, hknown.nodup_iff.2 h.distinct, fun id hid =>
    htotal ▸ h.made id (hknown.mem_iff.1 hid)⟩

/-- A timer is made. -/
theorem Refines.of_new {q' : TimerEvents} (h : s.Refines q) (hqueue : q'.queue = t.queue)
    (hphase : q'.phase = t.phase) (hknown : (t.known q').Perm ((s.totalNum + 1) :: s.known q))
    (htotal : t.totalNum = s.totalNum + 1) : t.Refines q' := by
  have hnew : s.totalNum + 1 ∉ s.known q := fun hmem => Nat.not_succ_le_self _ (h.made _ hmem)
  refine ⟨hqueue, hphase, hknown.nodup_iff.2 (List.nodup_cons.2 ⟨hnew, h.distinct⟩), ?_⟩
  intro id hid
  rw [htotal]
  rcases List.mem_cons.1 (hknown.mem_iff.1 hid) with rfl | hid
  · exact Nat.le_refl _
  · exact Nat.le_succ_of_le (h.made id hid)

/-- `AddTimerInLoop` of a timer that has not been added. -/
theorem Refines.add (h : s.Refines q) {timer : Timer} {pos : Nat} {queue : TimerQueue}
    (hcallable : s.Callable) (hnew : timer.id ∉ q.added.map Timer.id)
    (hadd : s.queue.addTimerInLoop timer pos = some queue) :
    q.step (.addTimerInLoop timer pos) = some { q with
      queue
      expiration := Function.update q.expiration timer.id timer.expiration
      added := q.added ++ [timer] } := by
  have hguard : q.Callable ∧ ∀ t ∈ q.added, t.id ≠ timer.id :=
    ⟨(callable_iff h).2 hcallable, fun t ht heq => hnew (List.mem_map.2 ⟨t, ht, heq⟩)⟩
  simp only [TimerEvents.step, if_pos hguard, h.queue, hadd, Option.map_some]

theorem Refines.cancel (h : s.Refines q) (hcallable : s.Callable) (timerid : TimerID) :
    ∃ b q', q.step b = some q' ∧ (s.cancelInLoop timerid).Refines q' := by
  refine ⟨.cancelTimerInLoop timerid, _, if_pos ((callable_iff h).2 hcallable), h.of_perm ?_ ?_ ?_
    (cancelInLoop_totalNum s timerid)⟩
  · rw [cancelInLoop_queue, ← h.queue]
  · rw [cancelInLoop_phase, ← h.phase]
  · rw [known, waiting, cancelInLoop_functors, cancelInLoop_creating]
    rfl

theorem Refines.step (h : s.Refines q) (hstep : s.step a = some t) :
    t.Refines q ∨ ∃ b q', q.step b = some q' ∧ t.Refines q' := by
  cases step_cases hstep with
  | newTimer =>
      refine Or.inl (h.of_new h.queue h.phase ?_ rfl)
      simp only [known, waiting, List.map_append, List.append_assoc, List.map_singleton]
      exact (List.perm_middle.append_left _).trans List.perm_middle
  | @queueAdd timer hcreating =>
      refine Or.inl (h.of_perm h.queue h.phase (List.Perm.append_left _ (List.Perm.map _ ?_)) rfl)
      have htimers := (List.perm_cons_erase hcreating).append_right
        (s.functors.filterMap Functor.timer)
      refine List.Perm.trans (List.Perm.of_eq ?_)
        ((List.perm_append_singleton timer _).trans htimers.symm)
      simp
  | queueCancel =>
      refine Or.inl (h.of_perm h.queue h.phase (List.Perm.of_eq ?_) rfl)
      simp [known, waiting]
  -- the steps that insert an entry: the queue is what the function of the source has made
  | addTimer hcallable =>
      simp only [TimerLoop.step, Option.ite_none_right_eq_some, Option.map_eq_some_iff] at hstep
      obtain ⟨-, queue, hadd, heq⟩ := hstep
      obtain rfl : queue = _ := congrArg TimerLoop.queue heq
      refine Or.inr ⟨_, _, h.add hcallable ?_ hadd, h.of_new rfl h.phase ?_ rfl⟩
      · exact fun hmem => Nat.not_succ_le_self _ (h.made _ (List.mem_append_left _ hmem))
      · simp only [known, List.map_append, List.append_assoc, List.map_singleton]
        exact List.perm_middle
  | @runAdd pos timer functors timers armed hidle hfunctors =>
      simp only [TimerLoop.step, hidle, hfunctors, Option.map_eq_some_iff] at hstep
      obtain ⟨queue, hadd, heq⟩ := hstep
      obtain rfl : queue = _ := congrArg TimerLoop.queue heq
      have hcallable : s.Callable := by simp [Callable, hidle]
      have hwaits : timer.id ∈ s.waiting := by simp [waiting, hfunctors]
      refine Or.inr ⟨_, _, h.add hcallable (fun hmem => ?_) hadd,
        h.of_perm rfl h.phase ?_ rfl⟩
      · exact (List.nodup_append.1 h.distinct).2.2 _ hmem _ hwaits rfl
      · simp only [known, waiting, hfunctors, List.map_append, List.append_assoc]
        refine List.Perm.append_left _ ?_
        simpa using List.perm_middle.symm
  | @resetTimer _ _ _ pos _ _ hphase | @skipTimer _ _ _ pos hphase =>
      have hphase' := h.phase.trans hphase
      simp only [TimerLoop.step, hphase, Option.map_eq_some_iff] at hstep
      obtain ⟨queue, hreset, heq⟩ := hstep
      obtain rfl : queue = _ := congrArg TimerLoop.queue heq
      refine Or.inr ⟨.resetTimer pos, _,
        by simp only [TimerEvents.step, hphase', h.queue, hreset, Option.map_some]; rfl, ?_⟩
      exact h.of_perm rfl rfl (List.Perm.refl _) rfl
  | @cancel timerid hcallable => exact Or.inr (h.cancel hcallable timerid)
  | @runCancel pos timerid functors hidle hfunctors =>
      have hrest : ({ s with functors } : TimerLoop).Refines q := by
        refine h.of_perm h.queue h.phase (List.Perm.of_eq ?_) rfl
        simp [known, waiting, hfunctors, List.filterMap_cons]
      exact Or.inr (hrest.cancel (by simp [Callable, hidle]) timerid)
  | handleRead now hidle =>
      have hphase := h.phase.trans hidle
      refine Or.inr ⟨.handleRead now, _, by simp only [TimerEvents.step, hphase]; rfl, ?_⟩
      exact h.of_perm (by rw [h.queue]) (by rw [h.queue]) (List.Perm.refl _) rfl
  | runTimer hphase =>
      have hphase' := h.phase.trans hphase
      refine Or.inr ⟨.runTimer, _, by simp only [TimerEvents.step, hphase']; rfl, ?_⟩
      exact h.of_perm h.queue rfl (List.Perm.refl _) rfl
  | beginReset hphase =>
      have hphase' := h.phase.trans hphase
      refine Or.inr ⟨.beginReset, _, by simp only [TimerEvents.step, hphase']; rfl, ?_⟩
      exact h.of_perm (by rw [h.queue]) rfl (List.Perm.refl _) rfl
  | endReset hphase =>
      have hphase' := h.phase.trans hphase
      refine Or.inr ⟨.endReset, _, by simp only [TimerEvents.step, hphase']; rfl, ?_⟩
      exact h.of_perm (by rw [h.queue]) rfl (List.Perm.refl _) rfl

/-- Every run of a loop is a run of events. -/
theorem refines_of_reaches {ok : TimerLoop → Action → Prop} {as : List Action}
    (run : machine.Reaches ok as s) : ∃ q, TimerEvents.machine.Reachable q ∧ s.Refines q :=
  run.simulated (fun _ hs => ⟨.new, rfl, hs ▸ refines_new⟩)
    fun _ _ _ _ hrefines _ hstep => hrefines.step hstep

/-- Between two events no timer of a loop has two entries, and each has the expiration of its
    timer. -/
theorem timers_of_reaches {ok : TimerLoop → Action → Prop} {as : List Action}
    (run : machine.Reaches ok as s) :
    (s.queue.timers.map ExpiredTimer.id).Nodup ∧
      ∀ e ∈ s.queue.timers, e.timestamp = e.timer.expiration := by
  obtain ⟨q, ⟨bs, hq⟩, hrefines⟩ := refines_of_reaches run
  obtain ⟨hknown, -⟩ := TimerEvents.inv_of_reaches hq
  have hsub : s.queue.timers.Sublist q.entries := by
    rw [TimerEvents.entries, hrefines.queue]
    exact List.sublist_append_left _ _
  exact ⟨(hsub.map _).nodup hknown.once, fun e he => (hknown.expiration e (hsub.subset he)).2.symm⟩

end TimerLoop
