import Muduo.Net.TimerQueue
import Muduo.Lib.Trace
import Mathlib.Algebra.Order.Ring.Int

set_option autoImplicit false

/-! # The order of the timers

`GetExpiredTimer` stops at the first later timer, so it takes what is due if and only if the queue
iterates in the order of expiration. `operator<` compares ids where it should not, and puts a timer
in front of an earlier one with a larger id. -/

/-! ## The operations on the queue -/

/-- The expiration that an entry was inserted with, as a number. -/
def ExpiredTimer.key (e : ExpiredTimer) : Int := e.timestamp.microSecondsSinceEpoch

theorem Timestamp.lt_iff (t other : Timestamp) :
    t < other ↔ t.microSecondsSinceEpoch < other.microSecondsSinceEpoch := Iff.rfl

theorem ExpiredTimer.lt_iff (e t : ExpiredTimer) :
    e.lt t = true ↔ e.key < t.key ∨ (t.key ≤ e.key ∧ e.id < t.id) := by
  simp only [lt, Timestamp.lt_iff, key, id]
  split
  · rename_i h
    simp [h]
  · rename_i h
    simp [h, Int.not_lt.1 h]

namespace TimerQueue

variable {q q' : TimerQueue} {timer : Timer} {pos : Nat}

theorem insert_eq_some {b : Bool} (h : q.insert timer pos = some (b, q')) :
    ∃ timers, Ordered.place ExpiredTimer.lt q.timers ⟨timer.expiration, timer⟩ pos = some timers ∧
      q' = { q with timers } := by
  simp only [insert, Option.map_eq_some_iff, Prod.mk.injEq] at h
  obtain ⟨timers, hplace, -, rfl⟩ := h
  exact ⟨timers, hplace, rfl⟩

theorem addTimerInLoop_eq_some (h : q.addTimerInLoop timer pos = some q') :
    ∃ timers armed,
      Ordered.place ExpiredTimer.lt q.timers ⟨timer.expiration, timer⟩ pos = some timers ∧
      q' = { q with timers, armed } := by
  simp only [addTimerInLoop, Option.map_eq_some_iff, Prod.exists] at h
  obtain ⟨b, inserted, hinsert, rfl⟩ := h
  obtain ⟨timers, hplace, rfl⟩ := insert_eq_some hinsert
  split
  · exact ⟨timers, _, hplace, rfl⟩
  · exact ⟨timers, q.armed, hplace, rfl⟩

theorem resetOne_eq_some {e : ExpiredTimer} {now : Timestamp}
    (h : q.resetOne e now pos = some q') :
    (q.restarted e now = none ∧ q' = q) ∨
      ∃ timer timers, q.restarted e now = some timer ∧
        Ordered.place ExpiredTimer.lt q.timers ⟨timer.expiration, timer⟩ pos = some timers ∧
        q' = { q with timers } := by
  simp only [resetOne] at h
  split at h
  · rename_i timer hrestarted
    simp only [Option.map_eq_some_iff, Prod.exists] at h
    obtain ⟨b, inserted, hinsert, rfl⟩ := h
    obtain ⟨timers, hplace, rfl⟩ := insert_eq_some hinsert
    exact Or.inr ⟨timer, timers, hrestarted, hplace, rfl⟩
  · rename_i hnone
    exact Or.inl ⟨hnone, (Option.some.inj h).symm⟩

/-- Cancelling takes the first entry with the id out of `timers_`. -/
theorem cancelTimerInLoop_timers (q : TimerQueue) (timerid : TimerID) :
    (q.cancelTimerInLoop timerid).timers = q.timers.eraseP (·.id == timerid) := by
  simp only [cancelTimerInLoop]
  split
  · rfl
  · rename_i hnone
    have hfree : ∀ e ∈ q.timers, ¬ (e.id == timerid) = true := by
      simpa using hnone
    split <;> rw [List.eraseP_of_forall_not hfree]

@[simp] theorem rearm_timers (q : TimerQueue) : q.rearm.timers = q.timers := by
  unfold rearm
  split <;> rfl

end TimerQueue

namespace TimerLoop

variable {s t : TimerLoop} {a : Action}

/-! ## What a step does -/

/-- The entry that a step inserts. -/
def inserted (s : TimerLoop) : Action → Option ExpiredTimer
  | .addTimer countDown interval _ => some ⟨countDown, ⟨countDown, interval, s.totalNum + 1⟩⟩
  | .runFunctor _ =>
      match s.functors with
      | .addTimerInLoop timer :: _ => some ⟨timer.expiration, timer⟩
      | _ => none
  | .resetTimer _ =>
      match s.phase with
      | .resetting now (e :: _) =>
          (s.queue.restarted e now).map fun timer => ⟨timer.expiration, timer⟩
      | _ => none
  | _ => none

/-- The steps, one constructor for each way to take one. -/
inductive Step (s : TimerLoop) : Action → TimerLoop → Prop
  | newTimer (countDown : Timestamp) (interval : Int) :
      Step s (.newTimer countDown interval)
        { s with
          totalNum := s.totalNum + 1
          creating := s.creating ++ [⟨countDown, interval, s.totalNum + 1⟩] }
  | queueAdd {timer : Timer} (hcreating : timer ∈ s.creating) :
      Step s (.queueAdd timer)
        { s with
          creating := s.creating.erase timer
          functors := s.functors ++ [.addTimerInLoop timer] }
  | queueCancel {timerid : TimerID} (hreturned : s.Returned timerid) :
      Step s (.queueCancel timerid)
        { s with functors := s.functors ++ [.cancelTimerInLoop timerid] }
  | addTimer {countDown : Timestamp} {interval : Int} {pos : Nat} {timers : List ExpiredTimer}
      {armed : Option Timestamp} (hcallable : s.Callable)
      (hplace : Ordered.place ExpiredTimer.lt s.queue.timers
        ⟨countDown, ⟨countDown, interval, s.totalNum + 1⟩⟩ pos = some timers) :
      Step s (.addTimer countDown interval pos)
        { s with queue := { s.queue with timers, armed }, totalNum := s.totalNum + 1 }
  | cancel {timerid : TimerID} (hcallable : s.Callable) (hreturned : s.Returned timerid) :
      Step s (.cancel timerid) (s.cancelInLoop timerid)
  | runAdd {pos : Nat} {timer : Timer} {functors : List Functor} {timers : List ExpiredTimer}
      {armed : Option Timestamp} (hidle : s.phase = .idle)
      (hfunctors : s.functors = .addTimerInLoop timer :: functors)
      (hplace : Ordered.place ExpiredTimer.lt s.queue.timers ⟨timer.expiration, timer⟩ pos
        = some timers) :
      Step s (.runFunctor pos)
        { s with queue := { s.queue with timers, armed }, functors }
  | runCancel {pos : Nat} {timerid : TimerID} {functors : List Functor} (hidle : s.phase = .idle)
      (hfunctors : s.functors = .cancelTimerInLoop timerid :: functors) :
      Step s (.runFunctor pos) ({ s with functors }.cancelInLoop timerid)
  | handleRead (now : Timestamp) (hidle : s.phase = .idle) :
      Step s (.handleRead now)
        { s with
          queue := { (s.queue.getExpiredTimer now).2 with callingExpiredTimers := false }
          phase := .running now (s.queue.getExpiredTimer now).1 (s.queue.getExpiredTimer now).1 }
  | runTimer {now : Timestamp} {expired rest : List ExpiredTimer} {e : ExpiredTimer}
      (hphase : s.phase = .running now expired (e :: rest)) :
      Step s .runTimer
        { s with phase := .running now expired rest, log := s.log ++ [.ran e.id] }
  | beginReset {now : Timestamp} {expired : List ExpiredTimer}
      (hphase : s.phase = .running now expired []) :
      Step s .beginReset
        { s with
          queue := { s.queue with callingExpiredTimers := false }
          phase := .resetting now expired }
  | resetTimer {now : Timestamp} {rest : List ExpiredTimer} {e : ExpiredTimer} {pos : Nat}
      {timer : Timer} {timers : List ExpiredTimer} (hphase : s.phase = .resetting now (e :: rest))
      (hrestarted : s.queue.restarted e now = some timer)
      (hplace : Ordered.place ExpiredTimer.lt s.queue.timers ⟨timer.expiration, timer⟩ pos
        = some timers) :
      Step s (.resetTimer pos)
        { s with queue := { s.queue with timers }, phase := .resetting now rest }
  | skipTimer {now : Timestamp} {rest : List ExpiredTimer} {e : ExpiredTimer} {pos : Nat}
      (hphase : s.phase = .resetting now (e :: rest)) (hnone : s.queue.restarted e now = none) :
      Step s (.resetTimer pos) { s with phase := .resetting now rest }
  | endReset {now : Timestamp} (hphase : s.phase = .resetting now []) :
      Step s .endReset
        { s with
          queue := s.queue.rearm
          phase := .idle
          cancelled := []
          log := s.log ++ s.cancelled.map .settled }

theorem step_cases (h : s.step a = some t) : Step s a t := by
  cases a with
  | newTimer countDown interval =>
      obtain rfl := Option.some.inj h
      exact .newTimer _ _
  | queueAdd timer =>
      simp only [step, Option.ite_none_right_eq_some, Option.some.injEq] at h
      obtain ⟨hcreating, rfl⟩ := h
      exact .queueAdd hcreating
  | queueCancel timerid =>
      simp only [step, Option.ite_none_right_eq_some, Option.some.injEq] at h
      obtain ⟨hreturned, rfl⟩ := h
      exact .queueCancel hreturned
  | addTimer countDown interval pos =>
      simp only [step, Option.ite_none_right_eq_some, Option.map_eq_some_iff] at h
      obtain ⟨hcallable, q, hq, rfl⟩ := h
      obtain ⟨timers, armed, hplace, rfl⟩ := TimerQueue.addTimerInLoop_eq_some hq
      exact .addTimer hcallable hplace
  | cancel timerid =>
      simp only [step, Option.ite_none_right_eq_some, Option.some.injEq] at h
      obtain ⟨⟨hcallable, hreturned⟩, rfl⟩ := h
      exact .cancel hcallable hreturned
  | runFunctor pos =>
      simp only [step] at h
      split at h
      · rename_i timer functors hidle hfunctors
        obtain ⟨q, hq, rfl⟩ := Option.map_eq_some_iff.1 h
        obtain ⟨timers, armed, hplace, rfl⟩ := TimerQueue.addTimerInLoop_eq_some hq
        exact .runAdd hidle hfunctors hplace
      · rename_i timerid functors hidle hfunctors
        obtain rfl := Option.some.inj h
        exact .runCancel hidle hfunctors
      · exact absurd h (by simp)
  | handleRead now =>
      simp only [step] at h
      split at h
      · rename_i hidle
        obtain rfl := Option.some.inj h
        exact .handleRead now hidle
      · exact absurd h (by simp)
  | runTimer =>
      simp only [step] at h
      split at h
      · rename_i now expired e rest hphase
        obtain rfl := Option.some.inj h
        exact .runTimer hphase
      · exact absurd h (by simp)
  | beginReset =>
      simp only [step] at h
      split at h
      · rename_i now expired hphase
        obtain rfl := Option.some.inj h
        exact .beginReset hphase
      · exact absurd h (by simp)
  | resetTimer pos =>
      simp only [step] at h
      split at h
      · rename_i now e rest hphase
        obtain ⟨q, hq, rfl⟩ := Option.map_eq_some_iff.1 h
        rcases TimerQueue.resetOne_eq_some hq with ⟨hnone, rfl⟩ |
          ⟨timer, timers, hrestarted, hplace, rfl⟩
        · exact .skipTimer hphase hnone
        · exact .resetTimer hphase hrestarted hplace
      · exact absurd h (by simp)
  | endReset =>
      simp only [step] at h
      split at h
      · rename_i now hphase
        obtain rfl := Option.some.inj h
        exact .endReset hphase
      · exact absurd h (by simp)

/-- A step inserts one entry into `timers_`, or it only takes entries out. -/
theorem Step.timers (h : Step s a t) :
    t.queue.timers.Sublist s.queue.timers ∨
      ∃ e pos, s.inserted a = some e ∧ e.timestamp = e.timer.expiration ∧
        Ordered.place ExpiredTimer.lt s.queue.timers e pos = some t.queue.timers := by
  have hcancel (s : TimerLoop) (timerid : TimerID) :
      (s.cancelInLoop timerid).queue.timers.Sublist s.queue.timers := by
    have hqueue : (s.cancelInLoop timerid).queue = s.queue.cancelTimerInLoop timerid := by
      simp only [cancelInLoop]
      split <;> rfl
    rw [hqueue, TimerQueue.cancelTimerInLoop_timers]
    exact List.eraseP_sublist
  cases h with
  | newTimer => exact Or.inl (List.Sublist.refl _)
  | queueAdd hcreating => exact Or.inl (List.Sublist.refl _)
  | queueCancel hreturned => exact Or.inl (List.Sublist.refl _)
  | addTimer hcallable hplace => exact Or.inr ⟨_, _, rfl, rfl, hplace⟩
  | cancel hcallable hreturned => exact Or.inl (hcancel s _)
  | runAdd hidle hfunctors hplace =>
      exact Or.inr ⟨_, _, by simp only [inserted, hfunctors], rfl, hplace⟩
  | runCancel hidle hfunctors => exact Or.inl (hcancel _ _)
  | handleRead now hidle => exact Or.inl (List.dropWhile_sublist _)
  | runTimer hphase => exact Or.inl (List.Sublist.refl _)
  | beginReset hphase => exact Or.inl (List.Sublist.refl _)
  | resetTimer hphase hrestarted hplace =>
      exact Or.inr ⟨_, _, by simp only [inserted, hphase, hrestarted, Option.map_some], rfl, hplace⟩
  | skipTimer hphase hnone => exact Or.inl (List.Sublist.refl _)
  | endReset hphase => exact Or.inl (by rw [TimerQueue.rearm_timers])

/-! ## The order of expiration -/

/-- No timer in `timers_` is earlier than the one inserted and has a larger id. -/
def InsertsInOrder (s : TimerLoop) (a : Action) : Prop :=
  ∀ e ∈ s.inserted a, ∀ u ∈ s.queue.timers, ¬ (u.timestamp < e.timestamp ∧ e.id < u.id)

instance (s : TimerLoop) (a : Action) : Decidable (InsertsInOrder s a) :=
  match h : s.inserted a with
  | none => isTrue (by simp [InsertsInOrder, h])
  | some e =>
      decidable_of_iff (∀ u ∈ s.queue.timers, ¬ (u.timestamp < e.timestamp ∧ e.id < u.id))
        (by simp [InsertsInOrder, h])

/-- The entries stand in the order of the expirations of their timers. -/
structure InOrder (s : TimerLoop) : Prop where
  sorted : Ordered.SortedBy ExpiredTimer.key s.queue.timers
  timestamp_eq : ∀ e ∈ s.queue.timers, e.timestamp = e.timer.expiration

theorem InOrder.step (h : InOrder s) (hok : InsertsInOrder s a) (hstep : Step s a t) :
    InOrder t := by
  rcases hstep.timers with hsub | ⟨e, pos, hinserted, heq, hplace⟩
  · exact ⟨h.sorted.sublist hsub, fun e he => h.timestamp_eq e (hsub.subset he)⟩
  · refine ⟨h.sorted.place (fun u hu hlt => ?_) (fun u hu hnot => ?_) hplace, fun x hx => ?_⟩
    · rcases (e.lt_iff u).1 hlt with hlt | ⟨hle, hid⟩
      · exact hlt.le
      · by_contra hearlier
        exact hok e hinserted u hu ⟨not_le.1 hearlier, hid⟩
    · by_contra hlater
      rw [(e.lt_iff u).2 (Or.inl (not_le.1 hlater))] at hnot
      exact absurd hnot (by simp)
    · rcases Ordered.mem_of_place hplace hx with rfl | hx
      · exact heq
      · exact h.timestamp_eq x hx

/-- In every run that inserts in order, `timers_` iterates in the order of expiration, and
    `GetExpiredTimer` takes exactly the timers that are due. -/
theorem getExpiredTimer_exact {as : List Action} (run : machine.Reaches InsertsInOrder as s) :
    Ordered.SortedBy (fun e => e.timer.expiration.microSecondsSinceEpoch) s.queue.timers ∧
    ∀ now : Timestamp,
      (s.queue.getExpiredTimer now).1
        = s.queue.timers.filter (fun e => !decide (now < e.timer.expiration)) ∧
      (s.queue.getExpiredTimer now).2.timers
        = s.queue.timers.filter (fun e => decide (now < e.timer.expiration)) := by
  have hinv : InOrder s := run.invariant
    (fun s hs => by
      rw [show s = .new from hs]
      exact ⟨List.Pairwise.nil, by simp [TimerLoop.new, TimerQueue.new]⟩)
    fun s a t h hok hstep => h.step hok (step_cases hstep)
  have hexpiration (now : Timestamp) : ∀ e ∈ s.queue.timers,
      decide (now < e.timestamp) = decide (now < e.timer.expiration) := by
    intro e he
    rw [hinv.timestamp_eq e he]
  refine ⟨?_, fun now => ⟨?_, ?_⟩⟩
  · have hkey : ∀ e ∈ s.queue.timers, e.key = e.timer.expiration.microSecondsSinceEpoch :=
      fun e he => by rw [ExpiredTimer.key, hinv.timestamp_eq e he]
    exact hinv.sorted.imp_of_mem fun ha hb hle =>
      (hkey _ ha).symm.trans_le (hle.trans_eq (hkey _ hb))
  · exact (hinv.sorted.takeWhile_eq_filter now.microSecondsSinceEpoch).trans
      (List.filter_congr fun e he => by rw [← hexpiration now e he]; rfl)
  · exact (hinv.sorted.dropWhile_eq_filter now.microSecondsSinceEpoch).trans
      (List.filter_congr fun e he => by rw [← hexpiration now e he]; rfl)

/-- A repeating timer with a larger id is restarted behind a one-shot timer. -/
def oneShotFirst : List Action :=
  [.addTimer ⟨5⟩ 0 0, .addTimer ⟨1⟩ 10 0, .handleRead ⟨1⟩, .runTimer, .beginReset, .resetTimer 1,
    .endReset]

theorem getExpiredTimer_exact_repeating :
    ∃ s, machine.Reaches InsertsInOrder oneShotFirst s ∧
      s.queue.timers.map ExpiredTimer.id = [1, 2] ∧
      (s.queue.getExpiredTimer ⟨5⟩).1
        = s.queue.timers.filter (fun e => !decide (⟨5⟩ < e.timer.expiration)) := by
  obtain ⟨s, run, hids⟩ := Machine.exists_reaches_of_exec machine InsertsInOrder .new oneShotFirst
    (fun s => s.queue.timers.map ExpiredTimer.id = [1, 2]) rfl (by decide)
  exact ⟨s, run, hids, ((getExpiredTimer_exact run).2 ⟨5⟩).1⟩

/-- A repeating timer with a smaller id goes in front of a one-shot timer that is due before it. At
    the one-shot timer's time nothing is taken. -/
theorem repeating_timer_hides_due_timer :
    ∃ s, machine.Reachable s ∧ s.phase = .idle ∧
      ¬ Ordered.SortedBy (fun e => e.timer.expiration.microSecondsSinceEpoch) s.queue.timers ∧
      (s.queue.getExpiredTimer ⟨5⟩).1 = [] ∧
      ∃ e ∈ s.queue.timers, e.timer.expiration = ⟨5⟩ := by
  obtain ⟨s, run, hphase, htimers⟩ := Machine.exists_reaches_of_exec machine Machine.anyStep .new
    [.addTimer ⟨1⟩ 10 0, .addTimer ⟨5⟩ 0 1, .handleRead ⟨1⟩, .runTimer, .beginReset,
      .resetTimer 0, .endReset]
    (fun s => s.phase = .idle ∧
      s.queue.timers = [⟨⟨11⟩, ⟨⟨11⟩, 10, 1⟩⟩, ⟨⟨5⟩, ⟨⟨5⟩, 0, 2⟩⟩]) rfl (by decide)
  refine ⟨s, run.reachable, hphase, ?_, ?_, ⟨⟨5⟩, ⟨5⟩, 0, 2⟩, by simp [htimers], rfl⟩
  · rw [htimers, Ordered.SortedBy]
    decide
  · simp only [TimerQueue.getExpiredTimer, htimers]
    decide

end TimerLoop
