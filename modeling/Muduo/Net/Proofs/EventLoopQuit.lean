import Muduo.Lib.History
import Muduo.Net.Proofs.EventLoop
import Mathlib.Data.List.Infix

set_option autoImplicit false

/-! # Functors and quit

`start()` tests `quit_` behind `DoCallback`. A functor that is queued when the batch has been taken,
or when `functors_` has been found empty, is run in the next iteration, and there is none if
`quit()` follows before the test. -/

namespace EventLoop

universe u

variable {F : Type u} {s t : EventLoop F} {a : Action F}

/-- The functors of before the latest `quit()` of a running loop, `before` so far. -/
def beforeQuit (before : List (Job F)) (s : EventLoop F) (a : Action F) : List (Job F) :=
  match s.pc with
  | .stopped => before
  | _ =>
      match a with
      | .quit _ => s.queued
      | .loopQuit => s.queued
      | _ => before

/-- The loop and the functors of before the latest `quit()`. -/
def quitMachine (F : Type u) : Machine (EventLoop F × List (Job F)) (Action F) :=
  (machine F).observing (fun _ => []) fun before s a _ => beforeQuit before s a

/-- `functors_` will be looked at before `quit_` is, or `quit_` is going to be cleared. -/
def looksFirst (s : EventLoop F) : Bool :=
  match s.pc with
  | .testQuit => false
  | .callbacks _ => false
  | .running _ => false
  | .clearCallable => false
  | _ => true

/-- `quit()` comes when nothing is pending or when the loop will still look at what is pending. -/
def QuitsInTime (s : EventLoop F) : Action F → Prop
  | .quit _ => s.functors = [] ∨ s.looksFirst = true
  | .loopQuit => s.functors = [] ∨ s.looksFirst = true
  | _ => True

instance [DecidableEq F] (s : EventLoop F) (a : Action F) : Decidable (QuitsInTime s a) := by
  unfold QuitsInTime
  split <;> infer_instance

/-- No more functors are taken before `start()` returns. -/
def Settled (s : EventLoop F) : Prop :=
  s.pc = .stopped ∨ s.quit = true ∧ s.looksFirst = false

/-- What was queued before `quit()` has been run, or taken, when no more is taken. -/
structure Covered (s : EventLoop F) (before : List (Job F)) : Prop where
  queued : before <+: s.queued
  settled : s.Settled → before <+: s.ran.map Prod.fst ++ s.batch

variable {before : List (Job F)}

theorem beforeQuit_of_stopped (hpc : s.pc = .stopped) : beforeQuit before s a = before := by
  simp [beforeQuit, hpc]

theorem beforeQuit_of_ne (hquit : ∀ u, a ≠ .quit u) (hloop : a ≠ .loopQuit) :
    beforeQuit before s a = before := by
  unfold beforeQuit
  split
  · rfl
  · split
    · exact absurd rfl (hquit _)
    · exact absurd rfl hloop
    · rfl

theorem beforeQuit_of_running (hpc : s.pc ≠ .stopped) (hquit : (∃ u, a = .quit u) ∨ a = .loopQuit) :
    beforeQuit before s a = s.queued := by
  unfold beforeQuit
  split
  · rename_i hstopped
    exact absurd hstopped hpc
  · rcases hquit with ⟨u, rfl⟩ | rfl
    · rfl
    · rfl

/-- The loop is not about to stop. -/
theorem Covered.of_unsettled (h : s.Covered before) (hqueued : t.queued = s.queued)
    (hunsettled : ¬ t.Settled) : t.Covered before :=
  ⟨hqueued ▸ h.queued, fun hsettled => absurd hsettled hunsettled⟩

/-- The functors run and taken stay what they are. -/
theorem Covered.of_same (h : s.Covered before) (hqueued : s.queued <+: t.queued)
    (hsettled : t.Settled → s.Settled)
    (hdone : t.ran.map Prod.fst ++ t.batch = s.ran.map Prod.fst ++ s.batch) : t.Covered before :=
  ⟨h.queued.trans hqueued, fun ht => hdone ▸ h.settled (hsettled ht)⟩

/-- `quit()` itself. -/
theorem Covered.quit (h : s.Covered before) (hs : (machine F).Reachable s)
    (hok : s.functors = [] ∨ s.looksFirst = true)
    (hquit : (∃ u, a = .quit u) ∨ a = .loopQuit)
    (hframe : t.pc = s.pc ∧ t.queued = s.queued ∧ t.ran = s.ran) :
    t.Covered (beforeQuit before s a) := by
  obtain ⟨hpc, hqueued, hran⟩ := hframe
  have hbatch : t.batch = s.batch := by
    unfold batch
    rw [hpc]
  by_cases hstopped : s.pc = .stopped
  · rw [beforeQuit_of_stopped hstopped]
    exact h.of_same (hqueued ▸ List.prefix_refl _) (fun _ => Or.inl hstopped) (by rw [hran, hbatch])
  · rw [beforeQuit_of_running hstopped hquit]
    refine ⟨hqueued ▸ List.prefix_refl _, ?_⟩
    intro hsettled
    unfold Settled looksFirst at hsettled
    rw [hpc] at hsettled
    have hnone : s.functors = [] := by
      rcases hok with hnone | hlooks
      · exact hnone
      · exact absurd hlooks (by
          have hfalse := (hsettled.resolve_left hstopped).2
          unfold looksFirst
          rw [hfalse]
          simp)
    rw [hran, hbatch, ← queued_eq hs, hnone, List.append_nil]

theorem Covered.step (h : s.Covered before) (hs : (machine F).Reachable s) (hok : QuitsInTime s a)
    (hstep : Step s a t) : t.Covered (beforeQuit before s a) := by
  have hlaw := queued_eq hs
  cases hstep with
  | quit hcall => exact h.quit hs hok (Or.inl ⟨_, rfl⟩) ⟨rfl, rfl, rfl⟩
  | loopQuit => exact h.quit hs hok (Or.inr rfl) ⟨rfl, rfl, rfl⟩
  | append hcall =>
      rw [beforeQuit_of_ne (by simp) (by simp)]
      exact h.of_same (List.prefix_append _ _) id rfl
  | loopAppend huser hcall =>
      rw [beforeQuit_of_ne (by simp) (by simp)]
      exact h.of_same (List.prefix_append _ _) id rfl
  | test hcall | wakeup hcall | loopTest hcall | loopWakeup hcall =>
      rw [beforeQuit_of_ne (by simp) (by simp)]
      exact h.of_same (List.prefix_refl _) id rfl
  -- behind these the loop looks at `functors_`, or `quit_` is false
  | start hpc | pollReturn hpc | clearQuit hpc | handled hpc | handleRead hpc | handle hpc
  | handlerReturn hpc | doCallback hpc | setCallable hpc =>
      rw [beforeQuit_of_ne (by simp) (by simp)]
      exact h.of_unsettled rfl (by simp [Settled, looksFirst])
  | testQuit hpc hcall =>
      rw [beforeQuit_of_ne (by simp) (by simp)]
      cases hquit : s.quit with
      | false => exact h.of_unsettled rfl (by simp [Settled, looksFirst])
      | true =>
          have hsettled : s.Settled := Or.inr ⟨hquit, by simp [looksFirst, hpc]⟩
          exact h.of_same (List.prefix_refl _) (fun _ => hsettled) (by simp [batch, hpc])
  | skipFunctors hpc hcall hnone =>
      rw [beforeQuit_of_ne (by simp) (by simp)]
      refine ⟨h.queued, fun _ => ?_⟩
      rw [hnone, List.append_nil, batch, hpc] at hlaw
      simpa [batch, hlaw] using h.queued
  | swap hpc hcall =>
      rw [beforeQuit_of_ne (by simp) (by simp)]
      refine ⟨h.queued, fun _ => ?_⟩
      rw [batch, hpc, List.append_nil] at hlaw
      simpa [batch, hlaw] using h.queued
  | run hpc hcall =>
      rw [beforeQuit_of_ne (by simp) (by simp)]
      refine h.of_same (List.prefix_refl _) ?_ (by simp [batch, hpc])
      rintro (hstopped | ⟨hquit, -⟩)
      · exact absurd hstopped (by simp)
      · exact Or.inr ⟨hquit, by simp [looksFirst, hpc]⟩
  | functorReturn hpc hcall | batchDone hpc hcall | clearCallable hpc hcall =>
      rw [beforeQuit_of_ne (by simp) (by simp)]
      refine h.of_same (List.prefix_refl _) ?_ (by simp [batch, hpc])
      rintro (hstopped | ⟨hquit, -⟩)
      · exact absurd hstopped (by simp)
      · exact Or.inr ⟨hquit, by simp [looksFirst, hpc]⟩

theorem covered_of_reaches {as : List (Action F)} {p : EventLoop F × List (Job F)}
    (run : (quitMachine F).Reaches (fun p a => QuitsInTime p.1 a) as p) : p.1.Covered p.2 := by
  induction run with
  | init h =>
      rw [h.2]
      exact ⟨List.nil_prefix, fun _ => List.nil_prefix⟩
  | @step as p q a run hok hstep ih =>
      obtain ⟨t, ht, rfl⟩ := Option.map_eq_some_iff.1 hstep
      have hs : (machine F).Reachable p.1 := ⟨as, run.of_observing fun _ _ _ => trivial⟩
      exact ih.step hs hok (step_cases ht)

/-- When `start()` has returned, everything has been run that was queued before `quit()`, if
    `quit()` came while nothing was pending or the loop would still look at what was. -/
theorem quit_runs_functors {as : List (Action F)} {p : EventLoop F × List (Job F)}
    (run : (quitMachine F).Reaches (fun p a => QuitsInTime p.1 a) as p)
    (hstopped : p.1.pc = .stopped) : p.2 <+: p.1.ran.map Prod.fst := by
  have hdone := (covered_of_reaches run).settled (Or.inl hstopped)
  rw [batch, hstopped, List.append_nil] at hdone
  exact hdone

/-- `start()` up to the first `poll`, in which a thread queues a functor. -/
def pollAndQueue : List (Action Bool) :=
  [.start, .next, .next, .append 0 false, .test 0, .wakeup 0]

/-- `poll` returns, and the loop thread goes on to the batch. -/
def takeBatch : List (Action Bool) := [.pollReturn [.wakeup]] ++ List.replicate 5 .next

theorem quit_runs_functors_poll :
    ∃ p, (quitMachine Bool).Reaches (fun p a => QuitsInTime p.1 a)
        (pollAndQueue ++ [.quit 1, .wakeup 1] ++ takeBatch ++ List.replicate 5 .next) p ∧
      p.2.map Job.callback = [false] ∧ p.2 <+: p.1.ran.map Prod.fst := by
  obtain ⟨p, run, hstopped, hbefore⟩ := (quitMachine Bool).exists_reaches_of_exec
    (fun p a => QuitsInTime p.1 a) (.new, [])
    (pollAndQueue ++ [.quit 1, .wakeup 1] ++ takeBatch ++ List.replicate 5 .next)
    (fun p => p.1.pc = .stopped ∧ p.2.map Job.callback = [false]) ⟨rfl, rfl⟩ (by decide)
  exact ⟨p, run, hbefore, quit_runs_functors run hstopped⟩

/-- A thread queues a second functor when the first one is in the batch, and calls `quit()`. -/
theorem quit_forgets_functors :
    ∃ p, (quitMachine Bool).Reaches Machine.anyStep
        (pollAndQueue ++ takeBatch ++ [.append 0 true, .test 0, .wakeup 0, .quit 0, .wakeup 0] ++
          List.replicate 5 .next) p ∧
      p.1.pc = .stopped ∧ p.2.map Job.callback = [false, true] ∧
      p.1.ran.map (fun r => r.1.callback) = [false] ∧ ¬ p.2 <+: p.1.ran.map Prod.fst := by
  obtain ⟨p, run, hstopped, hbefore, hran⟩ := (quitMachine Bool).exists_reaches_of_exec
    Machine.anyStep (.new, [])
    (pollAndQueue ++ takeBatch ++ [.append 0 true, .test 0, .wakeup 0, .quit 0, .wakeup 0] ++
      List.replicate 5 .next)
    (fun p => p.1.pc = .stopped ∧ p.2.map Job.callback = [false, true] ∧
      p.1.ran.map (fun r => r.1.callback) = [false]) ⟨rfl, rfl⟩ (by decide)
  refine ⟨p, run, hstopped, hbefore, hran, ?_⟩
  intro hprefix
  have hlength := hprefix.length_le
  have hbefore' := congrArg List.length hbefore
  have hran' := congrArg List.length hran
  simp only [List.length_map, List.length_cons, List.length_nil] at hlength hbefore' hran'
  omega

end EventLoop
