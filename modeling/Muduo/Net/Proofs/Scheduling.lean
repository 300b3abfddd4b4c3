import Muduo.Net.Proofs.TimerEvents
import Muduo.Net.Scheduling

set_option autoImplicit false

/-! # Seconds and milliseconds

The calls that take seconds and those that take milliseconds agree but for the first expiration of
`RunEveryMs`, which is computed from its delay as if that were in seconds. -/

namespace TimerEvents

variable {s t : TimerEvents} {a : Action}

/-! ## Restarting -/

/-- `CallingExpiredTimers_` is never set, so no cancellation keeps a repeating timer from being
    restarted: of those that have run in this event, all but the ones still to come have been. -/
structure Restarts (s : TimerEvents) : Prop where
  calling : s.queue.callingExpiredTimers = false
  cancelTimers : s.queue.cancelTimers = []
  again : ∀ now rest, s.phase = .resetting now rest → ∀ timer ∈ s.added, 0 < timer.interval →
    timer.id ∈ s.ranNow → timer.id ∉ ids rest →
    s.expiration timer.id = now.addInt timer.interval

theorem cancelTimerInLoop_marks {q : TimerQueue} (h : q.callingExpiredTimers = false)
    (timerid : TimerID) :
    (q.cancelTimerInLoop timerid).callingExpiredTimers = false ∧
      (q.cancelTimerInLoop timerid).cancelTimers = q.cancelTimers := by
  simp only [TimerQueue.cancelTimerInLoop]
  split
  · exact ⟨h, rfl⟩
  · rw [if_neg (by simp [h])]
    exact ⟨h, rfl⟩

theorem restarted_expiration {q : TimerQueue} {e : ExpiredTimer} {now : Timestamp} {timer : Timer}
    (h : q.restarted e now = some timer) : timer.expiration = now.addInt e.timer.interval := by
  simp only [TimerQueue.restarted, Option.ite_none_right_eq_some, Option.some.injEq] at h
  obtain ⟨⟨hrepeat, -⟩, rfl⟩ := h
  simp [Timer.restart, hrepeat]

theorem callable_of_resetting {now : Timestamp} {rest : List ExpiredTimer}
    (h : s.phase = .resetting now rest) : s.Callable = false := by
  simp [Callable, h]

/-- The next of the batch is restarted if it repeats, and the others stay as they are. -/
theorem Restarts.again_step (h : s.Restarts) (hknown : s.Known) (hkept : s.Kept)
    (hstep : Step s a t) (now : Timestamp) (rest : List ExpiredTimer)
    (hphase' : t.phase = .resetting now rest) (timer : Timer) (hadded : timer ∈ t.added)
    (hinterval : 0 < timer.interval) (hran : timer.id ∈ t.ranNow) (hrest : timer.id ∉ ids rest) :
    t.expiration timer.id = now.addInt timer.interval := by
  cases hstep with
  | add hcallable =>
      have hphase : s.phase = .resetting now rest := hphase'
      exact absurd hcallable (by simp [callable_of_resetting hphase])
  | cancel hcallable =>
      have hphase : s.phase = .resetting now rest := hphase'
      exact absurd hcallable (by simp [callable_of_resetting hphase])
  | handleRead hphase => exact absurd hphase' (by simp)
  | runTimer hphase => exact absurd hphase' (by simp)
  | endReset hphase => exact absurd hphase' (by simp)
  | @beginReset now' expired hphase =>
      -- nothing has been restarted yet
      obtain ⟨rfl, rfl⟩ : now' = now ∧ expired = rest := by simpa using hphase'
      have hbatch := hkept.batch now' expired [] hphase
      rw [hbatch] at hrest
      exact absurd (List.mem_append_left _ hran) hrest
  | @skipTimer now' rest' e pos hphase hnone =>
      obtain ⟨rfl, rfl⟩ : now' = now ∧ rest' = rest := by simpa using hphase'
      refine h.again now' (e :: rest') hphase timer hadded hinterval hran fun hmem => ?_
      rcases List.mem_cons.1 hmem with hid | hmem
      · have he : e ∈ s.entries := by simp [entries, hphase]
        have hrepeat : e.timer.repeat_ = true := by
          rw [← hknown.repeat_eq he hadded hid]
          exact decide_eq_true hinterval
        exact absurd hnone (by simp [TimerQueue.restarted, hrepeat, h.cancelTimers])
      · exact hrest hmem
  | @resetTimer now' rest' e pos timer' timers hphase hrestarted hplace =>
      obtain ⟨rfl, rfl⟩ : now' = now ∧ rest' = rest := by simpa using hphase'
      by_cases hid : timer.id = e.id
      · have he : e ∈ s.entries := by simp [entries, hphase]
        change Function.update s.expiration e.id timer'.expiration timer.id = _
        rw [hid, Function.update_self, restarted_expiration hrestarted,
          hknown.interval_eq he hadded hid]
      · change Function.update s.expiration e.id timer'.expiration timer.id = _
        rw [Function.update_of_ne hid]
        refine h.again now' (e :: rest') hphase timer hadded hinterval hran ?_
        rw [ids, List.map_cons, List.mem_cons, not_or]
        exact ⟨hid, hrest⟩

theorem Restarts.step (h : s.Restarts) (hknown : s.Known) (hkept : s.Kept) (hstep : Step s a t) :
    t.Restarts := by
  refine ⟨?_, ?_, h.again_step hknown hkept hstep⟩
  · cases hstep with
    | cancel => exact (cancelTimerInLoop_marks h.calling _).1
    | endReset =>
        change (TimerQueue.rearm s.queue).callingExpiredTimers = false
        unfold TimerQueue.rearm
        split
        · exact h.calling
        · exact h.calling
    | handleRead | beginReset => rfl
    | add | runTimer | resetTimer | skipTimer => exact h.calling
  · cases hstep with
    | cancel => exact (cancelTimerInLoop_marks h.calling _).2.trans h.cancelTimers
    | endReset => exact (rearm_cancelTimers _).trans h.cancelTimers
    | add | handleRead | runTimer | beginReset | resetTimer | skipTimer => exact h.cancelTimers

theorem restarts_of_reaches {as : List Action} (run : machine.Reaches Machine.anyStep as s) :
    s.Known ∧ s.Kept ∧ s.Restarts := by
  refine run.invariant (I := fun s => s.Known ∧ s.Kept ∧ s.Restarts) (fun s hs => ?_)
    fun s a t h _ hstep => ?_
  · obtain ⟨hknown, hkept⟩ := inv_of_reaches (.init hs : machine.Reaches Machine.anyStep [] s)
    obtain rfl : s = new := hs
    exact ⟨hknown, hkept, rfl, rfl, fun _ _ hphase => absurd hphase (by simp [new])⟩
  · have hcases := step_cases hstep
    exact ⟨h.1.step hcases, h.2.1.step h.1 hcases, h.2.2.step h.1 h.2.1 hcases⟩

/-- When `reset` has been through the batch, every repeating timer of it expires an interval after
    the time at which `HandleRead` began. -/
theorem expiration_of_ran {as : List Action} (run : machine.Reaches Machine.anyStep as s)
    {now : Timestamp} (hphase : s.phase = .resetting now []) {timer : Timer}
    (hadded : timer ∈ s.added) (hinterval : 0 < timer.interval) (hran : timer.id ∈ s.ranNow) :
    s.expiration timer.id = now.addInt timer.interval :=
  (restarts_of_reaches run).2.2.again now [] hphase timer hadded hinterval hran (by simp [ids])

end TimerEvents

namespace EventLoop

/-! ## The four calls -/

/-- Seconds and milliseconds agree at the clock reading `now`: for `n` seconds and `1000 * n`
    milliseconds, and for a timer that runs every `d` milliseconds, the first time and again after
    each `HandleRead` that has run it. -/
structure Agrees (now : Timestamp) (n d : Int) (id : TimerID) : Prop where
  after : (runAfterS now n id).map Timer.expiration
    = some (runAfterMs now (1000 * n) id).expiration
  every_first : ((runEveryS now n id).map Timer.expiration).isSome ∧
    (runEveryS now n id).map Timer.expiration
      = (runEveryMs now (1000 * n) id).map Timer.expiration
  every_interval : ∀ timer timer', runEveryS now n id = some timer →
    runEveryMs now (1000 * n) id = some timer' → timer.interval = timer'.interval
  first : (runEveryMs now d id).map Timer.expiration = some (now.addInt d)
  again : ∀ timer, runEveryMs now d id = some timer → ∀ (as : List TimerEvents.Action) s now',
    TimerEvents.machine.Reaches Machine.anyStep as s → s.phase = .resetting now' [] →
    timer ∈ s.added → timer.id ∈ s.ranNow → s.expiration timer.id = now'.addInt d

variable {now : Timestamp} {n d : Int} {id : TimerID} {timer : Timer}

theorem runEveryMs_eq_some (h : runEveryMs now d id = some timer) :
    timer = ⟨now.addInt (d * 1000), d, id⟩ := by
  simp only [runEveryMs, thousandfold, Option.map_eq_some_iff, Option.ite_none_right_eq_some] at h
  obtain ⟨ms, ⟨-, hms⟩, rfl⟩ := h
  rw [← Option.some.inj hms]

theorem runEveryS_eq (h : InInt (n * 1000)) :
    runEveryS now n id = some ⟨now.addInt (n * 1000), n * 1000, id⟩ := by
  rw [runEveryS, thousandfold, if_pos h]
  rfl

theorem addInt_inj {x y : Int} (h : now.addInt x = now.addInt y) : x = y := by
  have := congrArg Timestamp.microSecondsSinceEpoch h
  simp only [Timestamp.addInt] at this
  omega

/-- A first expiration of `RunEveryMs` lies a thousand delays ahead. -/
theorem first_ne {time : Int} (htime : time < d * 1000) :
    (runEveryMs now d id).map Timer.expiration ≠ some (now.addInt time) := by
  intro h
  obtain ⟨timer, hsome, hexpiration⟩ := Option.map_eq_some_iff.1 h
  rw [runEveryMs_eq_some hsome] at hexpiration
  have := addInt_inj hexpiration
  omega

/-- The calls never agree: whatever the clock and the delays, `RunEveryMs` has another first
    expiration than `RunEveryS` and than its delay says. All the rest agrees. -/
theorem never_agrees (hn : 1 ≤ n) (hint : InInt (1000 * n)) (hd : 1 ≤ d) :
    ¬ Agrees now n d id ∧
    (runAfterS now n id).map Timer.expiration = some (runAfterMs now (1000 * n) id).expiration ∧
    (runEveryS now n id).map Timer.expiration
      ≠ (runEveryMs now (1000 * n) id).map Timer.expiration ∧
    (∀ timer timer', runEveryS now n id = some timer →
      runEveryMs now (1000 * n) id = some timer' → timer.interval = timer'.interval) ∧
    (runEveryMs now d id).map Timer.expiration ≠ some (now.addInt d) ∧
    (∀ timer, runEveryMs now d id = some timer → ∀ (as : List TimerEvents.Action) s now',
      TimerEvents.machine.Reaches Machine.anyStep as s → s.phase = .resetting now' [] →
      timer ∈ s.added → timer.id ∈ s.ranNow → s.expiration timer.id = now'.addInt d) := by
  rw [Int.mul_comm] at hint
  have hfirst : (runEveryMs now d id).map Timer.expiration ≠ some (now.addInt d) :=
    first_ne (by omega)
  refine ⟨fun h => hfirst h.first, ?_, ?_, ?_, hfirst, ?_⟩
  · rw [runAfterS, thousandfold, if_pos hint, Int.mul_comm 1000]
    rfl
  · rw [runEveryS_eq hint]
    exact (first_ne (by omega)).symm
  · intro timer timer' hs hms
    rw [runEveryS_eq hint] at hs
    rw [← Option.some.inj hs, runEveryMs_eq_some hms]
    exact Int.mul_comm n 1000
  · intro timer htimer as s now' run hphase hadded hran
    obtain rfl := runEveryMs_eq_some htimer
    have hinterval : 0 < d := by omega
    exact TimerEvents.expiration_of_ran run hphase hadded hinterval hran

theorem never_agrees_oneSecond : ¬ Agrees ⟨0⟩ 1 1 1 :=
  (never_agrees (by decide) (by decide) (by decide)).1

/-- A timer that is to run every millisecond expires first after a second, and one that is to run
    every 1000 milliseconds after 1000 seconds. -/
theorem not_agrees_oneSecond :
    runEveryMs ⟨0⟩ 1 1 = some ⟨⟨1000⟩, 1, 1⟩ ∧ runEveryS ⟨0⟩ 1 1 = some ⟨⟨1000⟩, 1000, 1⟩ ∧
      runEveryMs ⟨0⟩ 1000 1 = some ⟨⟨1000000⟩, 1000, 1⟩ ∧ ¬ Agrees ⟨0⟩ 1 1 1 :=
  ⟨by decide, by decide, by decide, fun h => absurd h.first (by decide)⟩

end EventLoop
