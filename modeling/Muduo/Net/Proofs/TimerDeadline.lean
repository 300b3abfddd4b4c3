import Muduo.Net.Proofs.TimerEvents

set_option autoImplicit false

/-! # The deadline of the timerfd

`timerfd_` is armed from `begin()` of `timers_`: when a timer is inserted in front of it, and at the
end of `reset`. Where `timers_` is out of order `begin()` is not the earliest entry. -/

namespace TimerQueue

variable {q q' : TimerQueue} {timer : Timer} {pos : Nat}

/-- What `insert` returns. -/
def earliestChanged (q : TimerQueue) (timer : Timer) : Bool :=
  q.timers.head?.all fun first => decide (timer.expiration < first.timestamp)

theorem addTimerInLoop_armed (h : q.addTimerInLoop timer pos = some q') :
    q'.armed = if q.earliestChanged timer then some timer.expiration else q.armed := by
  simp only [addTimerInLoop, Option.map_eq_some_iff, Prod.exists] at h
  obtain ⟨b, inserted, hinsert, rfl⟩ := h
  simp only [insert, Option.map_eq_some_iff, Prod.mk.injEq] at hinsert
  obtain ⟨timers, -, rfl, rfl⟩ := hinsert
  rw [apply_ite armed]
  rfl

theorem cancelTimerInLoop_armed (q : TimerQueue) (timerid : TimerID) :
    (q.cancelTimerInLoop timerid).armed = q.armed := by
  simp only [cancelTimerInLoop]
  split_ifs <;> rfl

theorem rearm_armed (q : TimerQueue) :
    q.rearm.armed = (q.timers.head?.map fun first => first.timer.expiration).or q.armed := by
  unfold rearm
  split <;> simp_all [resetTimerfd]

end TimerQueue

namespace TimerEvents

variable {s t : TimerEvents} {a : Action}

/-- With a timer in `timers_`, `timerfd_` was last armed for a time that is not later than the
    expiration of any of them. -/
def OnTime (s : TimerEvents) : Prop :=
  s.queue.timers ≠ [] → ∃ deadline, s.queue.armed = some deadline ∧
    ∀ e ∈ s.queue.timers,
      deadline.microSecondsSinceEpoch ≤ (s.expiration e.id).microSecondsSinceEpoch

/-- The timer that an `AddTimerInLoop` between two events arms `timerfd_` for is not later than any
    other, nor is `begin()` at the end of `reset`. -/
def ArmsEarliest (s : TimerEvents) : Action → Prop
  | .addTimerInLoop timer _ =>
      s.phase = .idle → s.queue.earliestChanged timer = true →
        ∀ e ∈ s.queue.timers, ¬ e.timestamp < timer.expiration
  | .endReset =>
      ∀ first ∈ s.queue.timers.head?, ∀ e ∈ s.queue.timers, ¬ e.timestamp < first.timestamp
  | _ => True

instance (s : TimerEvents) : (a : Action) → Decidable (s.ArmsEarliest a)
  | .addTimerInLoop timer _ => inferInstanceAs (Decidable (_ → _ → ∀ e ∈ s.queue.timers, ¬ _))
  | .endReset =>
      match h : s.queue.timers.head? with
      | none => isTrue (by simp [ArmsEarliest, h])
      | some first =>
          decidable_of_iff (∀ e ∈ s.queue.timers, ¬ e.timestamp < first.timestamp)
            (by simp [ArmsEarliest, h])
  | .cancelTimerInLoop _ | .handleRead _ | .runTimer | .beginReset | .resetTimer _ => isTrue trivial

/-- While `timers_` is in order, every step arms `timerfd_` for the earliest. -/
theorem armsEarliest_of_sorted (h : Ordered.SortedBy ExpiredTimer.key s.queue.timers) :
    s.ArmsEarliest a := by
  cases a with
  | addTimerInLoop timer pos =>
      intro _ hchanged e he
      cases hhead : s.queue.timers.head? with
      | none => simp [List.head?_eq_none_iff.1 hhead] at he
      | some first =>
          simp only [TimerQueue.earliestChanged, hhead, Option.all_some, decide_eq_true_eq,
            Timestamp.lt_iff] at hchanged
          have hle := h.head_le hhead e he
          exact not_lt.2 (hchanged.le.trans hle)
  | endReset => exact fun first hfirst e he => not_lt.2 (h.head_le hfirst e he)
  | _ => trivial

theorem Known.onTime_iff (h : s.Known) : s.OnTime ↔ (s.queue.timers ≠ [] →
    ∃ deadline, s.queue.armed = some deadline ∧
      ∀ e ∈ s.queue.timers, ¬ e.timestamp < deadline) := by
  refine imp_congr_right fun _ => exists_congr fun deadline => and_congr_right fun _ => ?_
  refine forall₂_congr fun e he => ?_
  rw [← (h.expiration e (List.mem_append_left _ he)).1]
  exact not_lt.symm

/-- An insertion between two events. -/
theorem onTime_add {timer : Timer} {timers : List ExpiredTimer} {armed : Option Timestamp}
    (hperm : timers.Perm (⟨timer.expiration, timer⟩ :: s.queue.timers))
    (harmed : armed =
      if s.queue.earliestChanged timer then some timer.expiration else s.queue.armed)
    (hon : s.queue.timers ≠ [] → ∃ deadline, s.queue.armed = some deadline ∧
      ∀ e ∈ s.queue.timers, ¬ e.timestamp < deadline) :
    (timers ≠ [] → ∃ deadline, armed = some deadline ∧ ∀ e ∈ timers, ¬ e.timestamp < deadline) ↔
      (s.queue.earliestChanged timer = true →
        ∀ e ∈ s.queue.timers, ¬ e.timestamp < timer.expiration) := by
  have hne : timers ≠ [] := fun hnil => List.cons_ne_nil _ _ (List.nil_perm.1 (hnil ▸ hperm))
  rw [forall_prop_of_true hne, harmed]
  cases hchanged : s.queue.earliestChanged timer with
  | true =>
      have hself : ¬ timer.expiration < timer.expiration := lt_irrefl timer.expiration.1
      simp [hperm.mem_iff, hself]
  | false =>
      refine iff_of_true ?_ fun htrue => absurd htrue Bool.false_ne_true
      -- the new entry is not in front of `begin()`, which `timerfd_` is not armed behind
      cases hhead : s.queue.timers.head? with
      | none => simp [TimerQueue.earliestChanged, hhead] at hchanged
      | some first =>
          have hlater : first.timestamp.1 ≤ timer.expiration.1 := by
            simpa [TimerQueue.earliestChanged, hhead, Timestamp.lt_iff] using hchanged
          have hfirst := List.mem_of_head? hhead
          obtain ⟨deadline, hdeadline, hearliest⟩ := hon (List.ne_nil_of_mem hfirst)
          have hle : deadline.1 ≤ first.timestamp.1 := not_lt.1 (hearliest first hfirst)
          refine ⟨deadline, hdeadline, fun e he => ?_⟩
          rcases List.mem_cons.1 (hperm.mem_iff.1 he) with rfl | he
          · exact not_lt.2 (hle.trans hlater)
          · exact hearliest e he

/-- The end of `reset`. -/
theorem onTime_rearm (hs : s.Known) :
    (s.queue.timers ≠ [] → ∃ deadline, s.queue.rearm.armed = some deadline ∧
      ∀ e ∈ s.queue.timers, ¬ e.timestamp < deadline) ↔ s.ArmsEarliest .endReset := by
  rw [TimerQueue.rearm_armed, ArmsEarliest]
  cases hhead : s.queue.timers.head? with
  | none => simp [List.head?_eq_none_iff.1 hhead]
  | some first =>
      have hfirst := List.mem_of_head? hhead
      have heq := (hs.expiration first (List.mem_append_left _ hfirst)).2
      simp [List.ne_nil_of_mem hfirst, heq]

theorem onTime_step (hs : s.Known) (ht : t.Known) (hon : s.phase = .idle → s.OnTime)
    (h : s.step a = some t) : (t.phase = .idle → t.OnTime) ↔ s.ArmsEarliest a := by
  rw [hs.onTime_iff] at hon
  rw [ht.onTime_iff]
  cases step_cases h with
  | @add timer pos timers armed _ hnew hadd hplace =>
      obtain ⟨-, hperm⟩ := hs.add_perm hnew hplace
      exact forall_congr' fun hidle =>
        onTime_add hperm (TimerQueue.addTimerInLoop_armed hadd) (hon hidle)
  | @cancel timerid =>
      refine iff_of_true (fun hidle hne => ?_) trivial
      have hsub : (s.queue.cancelTimerInLoop timerid).timers.Sublist s.queue.timers :=
        TimerQueue.cancelTimerInLoop_timers .. ▸ List.eraseP_sublist
      have hne' : s.queue.timers ≠ [] := fun hnil => hne (List.sublist_nil.1 (hnil ▸ hsub))
      obtain ⟨deadline, hdeadline, hearliest⟩ := hon hidle hne'
      exact ⟨deadline, (TimerQueue.cancelTimerInLoop_armed ..).trans hdeadline, fun e he =>
        hearliest e (hsub.subset he)⟩
  | endReset hphase =>
      simp only [TimerQueue.rearm_timers, forall_const]
      exact onTime_rearm hs
  | handleRead | runTimer | beginReset | resetTimer | skipTimer =>
      exact iff_of_true (fun hidle => absurd hidle (by simp)) trivial

/-- Between any two events of a run `timerfd_` is armed in time if and only if every step of the run
    arms it for the earliest timer. -/
theorem timerfd_onTime_iff {as : List Action} (run : machine.Reaches Machine.anyStep as s) :
    machine.Throughout (fun s => s.phase = .idle → s.OnTime) as ↔
      machine.Reaches ArmsEarliest as s := by
  refine run.throughout_iff_guarded (fun s t hs ht => hs.trans ht.symm) (fun s hs _ hne => ?_)
    fun as s a t run hon h => ?_
  · rw [show s = new from hs] at hne
    exact absurd rfl hne
  · exact onTime_step (inv_of_reaches run).1 (inv_of_reaches (run.step trivial h)).1 hon h

/-- A repeating timer is restarted behind a one-shot timer with a smaller id. -/
def oneShotFirst : List Action :=
  [.addTimerInLoop ⟨⟨5⟩, 0, 1⟩ 0, .addTimerInLoop ⟨⟨1⟩, 10, 2⟩ 0, .handleRead ⟨1⟩, .runTimer,
    .beginReset, .resetTimer 1, .endReset]

theorem timerfd_onTime_iff_oneShotFirst :
    ∃ s, machine.Reaches Machine.anyStep oneShotFirst s ∧ s.queue.armed = some ⟨5⟩ ∧
      (machine.Throughout (fun s => s.phase = .idle → s.OnTime) oneShotFirst ↔
        machine.Reaches ArmsEarliest oneShotFirst s) := by
  obtain ⟨s, run, harmed⟩ := Machine.exists_reaches_of_exec machine Machine.anyStep .new
    oneShotFirst (fun s => s.queue.armed = some ⟨5⟩) rfl (by decide)
  exact ⟨s, run, harmed, timerfd_onTime_iff run⟩

/-- A repeating timer is restarted in front of a one-shot timer with a larger id. -/
def oneShotLast : List Action :=
  [.addTimerInLoop ⟨⟨1⟩, 10, 1⟩ 0, .addTimerInLoop ⟨⟨5⟩, 0, 2⟩ 1, .handleRead ⟨1⟩, .runTimer,
    .beginReset, .resetTimer 0, .endReset]

theorem oneShotLast_late :
    ∃ s, machine.Reaches Machine.anyStep oneShotLast s ∧ s.phase = .idle ∧ ¬ s.OnTime := by
  obtain ⟨s, run, hphase, harmed, htimers, hexpiration⟩ := Machine.exists_reaches_of_exec machine
    Machine.anyStep .new oneShotLast
    (fun s => s.phase = .idle ∧ s.queue.armed = some ⟨11⟩ ∧
      ⟨⟨5⟩, ⟨5⟩, 0, 2⟩ ∈ s.queue.timers ∧ s.expiration 2 = ⟨5⟩) rfl (by decide)
  refine ⟨s, run, hphase, fun hon => ?_⟩
  obtain ⟨deadline, hdeadline, hearliest⟩ := hon (List.ne_nil_of_mem htimers)
  obtain rfl : ⟨11⟩ = deadline := Option.some.inj (harmed.symm.trans hdeadline)
  have hle := hearliest _ htimers
  rw [show ExpiredTimer.id ⟨⟨5⟩, ⟨5⟩, 0, 2⟩ = 2 from rfl, hexpiration] at hle
  exact absurd hle (by decide)

end TimerEvents
