import Muduo.Lib.Fifo
import Muduo.Net.EventLoop

set_option autoImplicit false

/-! # Wakeups and the order of functors

Two results about every interleaving of a loop with the threads that use it: `poll` does not sleep
on pending functors, and functors run once each, in the order in which they were queued. -/

namespace EventLoop

universe u

variable {F : Type u} {s t : EventLoop F} {a : Action F}

/-! ## What a step does -/

/-- The steps, one constructor for each point of the code. -/
inductive Step (s : EventLoop F) : Action F → EventLoop F → Prop
  | append {u : Tid} {callback : F} (hcall : s.threads u = .none) :
      Step s (.append u callback) ((s.emplace callback).setThread u .appended)
  | test {u : Tid} (hcall : s.threads u = .appended) : Step s (.test u) (s.setThread u .waking)
  | wakeup {u : Tid} (hcall : s.threads u = .waking ∨ s.threads u = .quitting) :
      Step s (.wakeup u) ({ s with wakeupFd := write s.wakeupFd }.setThread u .none)
  | quit {u : Tid} (hcall : s.threads u = .none) :
      Step s (.quit u) ({ s with quit := true }.setThread u .quitting)
  | loopAppend {callback : F} (huser : s.inUserCode = true) (hcall : s.call = .none) :
      Step s (.loopAppend callback) { s.emplace callback with call := .appended }
  | loopTest (hcall : s.call = .appended) :
      Step s .loopTest { s with call := if s.callable then .waking else .none }
  | loopWakeup (hcall : s.call = .waking) :
      Step s .loopWakeup { s with wakeupFd := write s.wakeupFd, call := .none }
  | loopQuit : Step s .loopQuit { s with quit := true }
  | start (hpc : s.pc = .stopped) : Step s .start { s with pc := .clearQuit }
  | pollReturn {channels : List Ready} (hpc : s.pc = .poll) :
      Step s (.pollReturn channels) { s with pc := .dispatch channels }
  | clearQuit (hpc : s.pc = .clearQuit) (hcall : s.call = .none) :
      Step s .next { s with quit := false, pc := .testQuit }
  | testQuit (hpc : s.pc = .testQuit) (hcall : s.call = .none) :
      Step s .next { s with pc := if s.quit then .stopped else .poll }
  | handled (hpc : s.pc = .dispatch []) (hcall : s.call = .none) :
      Step s .next { s with pc := .testFunctors }
  | handleRead {channels : List Ready} (hpc : s.pc = .dispatch (.wakeup :: channels))
      (hcall : s.call = .none) : Step s .next { s with wakeupFd := 0, pc := .dispatch channels }
  | handle {channels : List Ready} (hpc : s.pc = .dispatch (.other :: channels))
      (hcall : s.call = .none) : Step s .next { s with pc := .handling channels }
  | handlerReturn {channels : List Ready} (hpc : s.pc = .handling channels)
      (hcall : s.call = .none) : Step s .next { s with pc := .dispatch channels }
  | skipFunctors (hpc : s.pc = .testFunctors) (hcall : s.call = .none) (hnone : s.functors = []) :
      Step s .next { s with pc := .testQuit }
  | doCallback (hpc : s.pc = .testFunctors) (hcall : s.call = .none) (hsome : s.functors ≠ []) :
      Step s .next { s with pc := .setCallable }
  | setCallable (hpc : s.pc = .setCallable) (hcall : s.call = .none) :
      Step s .next { s with callable := true, pc := .swap }
  | swap (hpc : s.pc = .swap) (hcall : s.call = .none) :
      Step s .next { s with functors := [], pc := .callbacks s.functors, pass := s.pass + 1 }
  | run {job : Job F} {batch : List (Job F)} (hpc : s.pc = .callbacks (job :: batch))
      (hcall : s.call = .none) :
      Step s .next { s with pc := .running batch, ran := s.ran ++ [(job, s.pass)] }
  | functorReturn {batch : List (Job F)} (hpc : s.pc = .running batch) (hcall : s.call = .none) :
      Step s .next { s with pc := .callbacks batch }
  | batchDone (hpc : s.pc = .callbacks []) (hcall : s.call = .none) :
      Step s .next { s with pc := .clearCallable }
  | clearCallable (hpc : s.pc = .clearCallable) (hcall : s.call = .none) :
      Step s .next { s with callable := false, pc := .testQuit }

theorem step_next_cases (hcall : s.call = .none) (h : s.advance = some t) : Step s .next t := by
  unfold advance at h
  split at h
  · exact absurd h (by simp)
  · rename_i hpc
    obtain rfl := Option.some.inj h
    exact .clearQuit hpc hcall
  · rename_i hpc
    obtain rfl := Option.some.inj h
    exact .testQuit hpc hcall
  · exact absurd h (by simp)
  · rename_i hpc
    obtain rfl := Option.some.inj h
    exact .handled hpc hcall
  · rename_i channels hpc
    obtain rfl := Option.some.inj h
    exact .handleRead hpc hcall
  · rename_i channels hpc
    obtain rfl := Option.some.inj h
    exact .handle hpc hcall
  · rename_i channels hpc
    obtain rfl := Option.some.inj h
    exact .handlerReturn hpc hcall
  · rename_i hpc
    obtain rfl := Option.some.inj h
    by_cases hnone : s.functors = []
    · simpa [hnone] using Step.skipFunctors hpc hcall hnone
    · simpa [hnone] using Step.doCallback hpc hcall hnone
  · rename_i hpc
    obtain rfl := Option.some.inj h
    exact .setCallable hpc hcall
  · rename_i hpc
    obtain rfl := Option.some.inj h
    exact .swap hpc hcall
  · rename_i hpc
    obtain rfl := Option.some.inj h
    exact .batchDone hpc hcall
  · rename_i job batch hpc
    obtain rfl := Option.some.inj h
    exact .run hpc hcall
  · rename_i batch hpc
    obtain rfl := Option.some.inj h
    exact .functorReturn hpc hcall
  · rename_i hpc
    obtain rfl := Option.some.inj h
    exact .clearCallable hpc hcall

theorem step_cases (h : s.step a = some t) : Step s a t := by
  cases a with
  | append u callback =>
      simp only [step, Option.ite_none_right_eq_some, Option.some.injEq] at h
      obtain ⟨hcall, rfl⟩ := h
      exact .append hcall
  | test u =>
      simp only [step, Option.ite_none_right_eq_some, Option.some.injEq] at h
      obtain ⟨hcall, rfl⟩ := h
      exact .test hcall
  | wakeup u =>
      simp only [step, Option.ite_none_right_eq_some, Option.some.injEq] at h
      obtain ⟨hcall, rfl⟩ := h
      exact .wakeup hcall
  | quit u =>
      simp only [step, Option.ite_none_right_eq_some, Option.some.injEq] at h
      obtain ⟨hcall, rfl⟩ := h
      exact .quit hcall
  | loopAppend callback =>
      simp only [step, Option.ite_none_right_eq_some, Option.some.injEq] at h
      obtain ⟨⟨huser, hcall⟩, rfl⟩ := h
      exact .loopAppend huser hcall
  | loopTest =>
      simp only [step, Option.ite_none_right_eq_some, Option.some.injEq] at h
      obtain ⟨hcall, rfl⟩ := h
      exact .loopTest hcall
  | loopWakeup =>
      simp only [step, Option.ite_none_right_eq_some, Option.some.injEq] at h
      obtain ⟨hcall, rfl⟩ := h
      exact .loopWakeup hcall
  | loopQuit =>
      simp only [step, Option.ite_none_right_eq_some, Option.some.injEq] at h
      obtain ⟨-, rfl⟩ := h
      exact .loopQuit
  | start =>
      simp only [step] at h
      split at h
      · rename_i hpc
        obtain rfl := Option.some.inj h
        exact .start hpc
      · exact absurd h (by simp)
  | pollReturn channels =>
      simp only [step] at h
      split at h
      · rename_i hpc
        simp only [Option.ite_none_right_eq_some, Option.some.injEq] at h
        obtain ⟨-, rfl⟩ := h
        exact .pollReturn hpc
      · exact absurd h (by simp)
  | next =>
      simp only [step, Option.ite_none_right_eq_some] at h
      exact step_next_cases h.1 h.2

/-! ## Wakeups -/

/-- A thread that has queued a functor has still to write to `wakeupFd_`. -/
def WakeupDue (s : EventLoop F) : Prop :=
  ∃ u, s.threads u = .appended ∨ s.threads u = .waking

/-- The loop thread looks at `functors_` before it polls again. -/
def LooksAtFunctors (s : EventLoop F) : Prop :=
  match s.pc with
  | .dispatch _ => True
  | .handling _ => True
  | .testFunctors => True
  | .setCallable => True
  | .swap => True
  | _ => False

/-- The places at which `callable_` is set. -/
def CallablePc (s : EventLoop F) : Prop :=
  match s.pc with
  | .swap => True
  | .callbacks _ => True
  | .running _ => True
  | .clearCallable => True
  | _ => False

/-- What the interleavings keep. -/
structure Awake (s : EventLoop F) : Prop where
  callable_iff : s.callable = true ↔ s.CallablePc
  user : s.call ≠ .none → s.inUserCode = true
  woken : s.functors ≠ [] →
    s.LooksAtFunctors ∨ s.call ≠ .none ∨ 0 < s.wakeupFd ∨ s.WakeupDue

theorem Awake.new : Awake (new : EventLoop F) where
  callable_iff := by simp [EventLoop.new, CallablePc]
  user h := absurd rfl h
  woken h := absurd rfl h

theorem write_pos (counter : Nat) : 0 < write counter := by
  unfold write
  split <;> omega

section

variable {u : Tid} {call : Call}

@[simp] theorem setThread_self : (s.setThread u call).threads u = call := if_pos rfl

theorem setThread_of_ne {v : Tid} (h : v ≠ u) : (s.setThread u call).threads v = s.threads v :=
  if_neg h

/-- A thread that starts or goes on with a call does not finish that of another. -/
theorem WakeupDue.setThread (h : s.WakeupDue)
    (hkeep : s.threads u = .appended ∨ s.threads u = .waking → call = .appended ∨ call = .waking) :
    (s.setThread u call).WakeupDue := by
  obtain ⟨v, hv⟩ := h
  by_cases hvu : v = u
  · subst hvu
    exact ⟨v, by simpa using hkeep hv⟩
  · exact ⟨v, by rwa [setThread_of_ne hvu]⟩

end

/-- Outside of user code the loop thread is in no call. -/
theorem Awake.call_eq (h : Awake s) (huser : s.inUserCode = false) : s.call = .none := by
  by_contra hcall
  exact absurd (h.user hcall) (by simp [huser])

theorem Awake.step (h : Awake s) (hstep : Step s a t) : Awake t := by
  cases hstep with
  | @append u callback hcall =>
      exact ⟨h.callable_iff, h.user,
        fun _ => Or.inr (Or.inr (Or.inr ⟨u, Or.inl setThread_self⟩))⟩
  | @test u hcall =>
      exact ⟨h.callable_iff, h.user,
        fun _ => Or.inr (Or.inr (Or.inr ⟨u, Or.inr setThread_self⟩))⟩
  | wakeup hcall =>
      -- the thread no longer owes a write, but the counter is positive now
      exact ⟨h.callable_iff, h.user, fun _ => Or.inr (Or.inr (Or.inl (write_pos _)))⟩
  | quit hcall =>
      refine ⟨h.callable_iff, h.user, ?_⟩
      intro hne
      rcases h.woken hne with hlooks | hloop | hcounter | hdue
      · exact Or.inl hlooks
      · exact Or.inr (Or.inl hloop)
      · exact Or.inr (Or.inr (Or.inl hcounter))
      · exact Or.inr (Or.inr (Or.inr (hdue.setThread (by simp [hcall]))))
  | loopAppend huser hcall =>
      exact ⟨h.callable_iff, fun _ => huser, fun _ => Or.inr (Or.inl (by simp))⟩
  | loopTest hcall =>
      have huser := h.user (by simp [hcall])
      refine ⟨h.callable_iff, fun _ => huser, fun _ => ?_⟩
      -- in a handler `callable_` may be false, but there the functors are still looked at
      by_cases hcallable : s.callable = true
      · exact Or.inr (Or.inl (by simp [hcallable]))
      · refine Or.inl ?_
        have hnot := h.callable_iff.not.1 hcallable
        simp only [inUserCode] at huser
        simp only [CallablePc] at hnot
        simp only [LooksAtFunctors]
        split at huser <;> simp_all
  | loopWakeup hcall =>
      exact ⟨h.callable_iff, fun hne => absurd rfl hne,
        fun _ => Or.inr (Or.inr (Or.inl (write_pos _)))⟩
  | loopQuit => exact ⟨h.callable_iff, h.user, h.woken⟩
  | start hpc =>
      have hcall := h.call_eq (by simp [inUserCode, hpc])
      exact ⟨by simpa [CallablePc, hpc] using h.callable_iff, fun hne => absurd hcall hne,
        fun hne => (h.woken hne).imp_left fun hl => absurd hl (by simp [LooksAtFunctors, hpc])⟩
  | pollReturn hpc =>
      have hcall := h.call_eq (by simp [inUserCode, hpc])
      exact ⟨by simpa [CallablePc, hpc] using h.callable_iff, fun hne => absurd hcall hne,
        fun _ => Or.inl trivial⟩
  | clearQuit hpc hcall =>
      exact ⟨by simpa [CallablePc, hpc] using h.callable_iff, fun hne => absurd hcall hne,
        fun hne => (h.woken hne).imp_left fun hl => absurd hl (by simp [LooksAtFunctors, hpc])⟩
  | testQuit hpc hcall =>
      refine ⟨?_, fun hne => absurd hcall hne,
        fun hne => (h.woken hne).imp_left fun hl => absurd hl (by simp [LooksAtFunctors, hpc])⟩
      have hcallable := h.callable_iff
      cases hquit : s.quit <;> simpa [CallablePc, hpc] using hcallable
  | handled hpc hcall =>
      exact ⟨by simpa [CallablePc, hpc] using h.callable_iff, fun hne => absurd hcall hne,
        fun _ => Or.inl trivial⟩
  | handleRead hpc hcall =>
      -- the counter is back at 0, but `functors_` is tested before the next `poll`
      exact ⟨by simpa [CallablePc, hpc] using h.callable_iff, fun hne => absurd hcall hne,
        fun _ => Or.inl trivial⟩
  | handle hpc hcall =>
      exact ⟨by simpa [CallablePc, hpc] using h.callable_iff, fun hne => absurd hcall hne,
        fun _ => Or.inl trivial⟩
  | handlerReturn hpc hcall =>
      exact ⟨by simpa [CallablePc, hpc] using h.callable_iff, fun hne => absurd hcall hne,
        fun _ => Or.inl trivial⟩
  | skipFunctors hpc hcall hnone =>
      exact ⟨by simpa [CallablePc, hpc] using h.callable_iff, fun hne => absurd hcall hne,
        fun hne => absurd hnone hne⟩
  | doCallback hpc hcall hsome =>
      exact ⟨by simpa [CallablePc, hpc] using h.callable_iff, fun hne => absurd hcall hne,
        fun _ => Or.inl trivial⟩
  | setCallable hpc hcall =>
      exact ⟨by simp [CallablePc], fun hne => absurd hcall hne, fun _ => Or.inl trivial⟩
  | swap hpc hcall =>
      exact ⟨by simpa [CallablePc, hpc] using h.callable_iff, fun hne => absurd hcall hne,
        fun hne => absurd rfl hne⟩
  | run hpc hcall =>
      exact ⟨by simpa [CallablePc, hpc] using h.callable_iff, fun hne => absurd hcall hne,
        fun hne => (h.woken hne).imp_left fun hl => absurd hl (by simp [LooksAtFunctors, hpc])⟩
  | functorReturn hpc hcall =>
      exact ⟨by simpa [CallablePc, hpc] using h.callable_iff, fun hne => absurd hcall hne,
        fun hne => (h.woken hne).imp_left fun hl => absurd hl (by simp [LooksAtFunctors, hpc])⟩
  | batchDone hpc hcall =>
      exact ⟨by simpa [CallablePc, hpc] using h.callable_iff, fun hne => absurd hcall hne,
        fun hne => (h.woken hne).imp_left fun hl => absurd hl (by simp [LooksAtFunctors, hpc])⟩
  | clearCallable hpc hcall =>
      exact ⟨by simp [CallablePc], fun hne => absurd hcall hne,
        fun hne => (h.woken hne).imp_left fun hl => absurd hl (by simp [LooksAtFunctors, hpc])⟩

/-- When the loop thread is about to wait or waiting in `poll` and functors are pending, the wakeup
    descriptor is readable, or a thread that queued a functor has still to write to it. -/
theorem poll_wakes_up (run : (machine F).Reachable s) (hpoll : s.pc = .poll)
    (hpending : s.functors ≠ []) :
    0 < s.wakeupFd ∨ ∃ u, s.threads u = .appended ∨ s.threads u = .waking := by
  have hawake : Awake s := run.invariant (fun s hs => hs ▸ Awake.new)
    fun s a t h hstep => h.step (step_cases hstep)
  rcases hawake.woken hpending with hlooks | hloop | hcounter | hdue
  · exact absurd hlooks (by simp [LooksAtFunctors, hpoll])
  · exact absurd (hawake.call_eq (by simp [inUserCode, hpoll])) hloop
  · exact Or.inl hcounter
  · exact Or.inr hdue

/-- A thread queues a functor while the loop waits. -/
theorem poll_wakes_up_append :
    ∃ s, (machine Unit).Reachable s ∧ s.pc = .poll ∧ s.functors ≠ [] ∧
      (0 < s.wakeupFd ∨ ∃ u, s.threads u = .appended ∨ s.threads u = .waking) := by
  obtain ⟨s, run, hpoll, hpending⟩ := Machine.exists_reaches_of_exec (machine Unit)
    Machine.anyStep .new [.start, .next, .next, .append 0 ()]
    (fun s => s.pc = .poll ∧ s.functors ≠ []) rfl (by decide)
  exact ⟨s, ⟨_, run⟩, hpoll, hpending, poll_wakes_up ⟨_, run⟩ hpoll hpending⟩

/-! ## Functors -/

/-- The part of the current batch that has still to run. -/
def batch (s : EventLoop F) : List (Job F) :=
  match s.pc with
  | .callbacks batch => batch
  | .running batch => batch
  | _ => []

/-- The loop is a queue of functors: the rest of the batch in front of `functors_`. -/
structure Represents (s : EventLoop F) (q : Fifo (Job F)) : Prop where
  pushed : q.pushed = s.queued
  popped : q.popped = s.ran.map Prod.fst
  content : q.content = s.batch ++ s.functors

theorem represents_new : Represents (new : EventLoop F) .empty := ⟨rfl, rfl, rfl⟩

/-- A step pushes a functor, runs the first one, or leaves the queue as it is. -/
theorem Represents.step {q : Fifo (Job F)} (h : Represents s q) (hstep : Step s a t) :
    ∃ q', Represents t q' := by
  have hcontent := h.content
  have hpush (callback : F) :
      q.content ++ [⟨callback, s.executing⟩]
        = s.batch ++ (s.functors ++ [⟨callback, s.executing⟩]) := by
    rw [hcontent, List.append_assoc]
  cases hstep with
  | @append u callback hcall =>
      exact ⟨q.push [⟨callback, s.executing⟩], congrArg (· ++ _) h.pushed, h.popped,
        hpush callback⟩
  | test hcall => exact ⟨q, h.pushed, h.popped, hcontent⟩
  | wakeup hcall => exact ⟨q, h.pushed, h.popped, hcontent⟩
  | quit hcall => exact ⟨q, h.pushed, h.popped, hcontent⟩
  | @loopAppend callback huser hcall =>
      exact ⟨q.push [⟨callback, s.executing⟩], congrArg (· ++ _) h.pushed, h.popped,
        hpush callback⟩
  | loopTest hcall => exact ⟨q, h.pushed, h.popped, hcontent⟩
  | loopWakeup hcall => exact ⟨q, h.pushed, h.popped, hcontent⟩
  | loopQuit => exact ⟨q, h.pushed, h.popped, hcontent⟩
  | start hpc => exact ⟨q, h.pushed, h.popped, by simpa [batch, hpc] using hcontent⟩
  | pollReturn hpc => exact ⟨q, h.pushed, h.popped, by simpa [batch, hpc] using hcontent⟩
  | clearQuit hpc hcall => exact ⟨q, h.pushed, h.popped, by simpa [batch, hpc] using hcontent⟩
  | testQuit hpc hcall =>
      refine ⟨q, h.pushed, h.popped, ?_⟩
      cases hquit : s.quit <;> simpa [batch, hpc] using hcontent
  | handled hpc hcall => exact ⟨q, h.pushed, h.popped, by simpa [batch, hpc] using hcontent⟩
  | handleRead hpc hcall => exact ⟨q, h.pushed, h.popped, by simpa [batch, hpc] using hcontent⟩
  | handle hpc hcall => exact ⟨q, h.pushed, h.popped, by simpa [batch, hpc] using hcontent⟩
  | handlerReturn hpc hcall => exact ⟨q, h.pushed, h.popped, by simpa [batch, hpc] using hcontent⟩
  | skipFunctors hpc hcall hnone =>
      exact ⟨q, h.pushed, h.popped, by simpa [batch, hpc] using hcontent⟩
  | doCallback hpc hcall hsome =>
      exact ⟨q, h.pushed, h.popped, by simpa [batch, hpc] using hcontent⟩
  | setCallable hpc hcall => exact ⟨q, h.pushed, h.popped, by simpa [batch, hpc] using hcontent⟩
  | swap hpc hcall => exact ⟨q, h.pushed, h.popped, by simpa [batch, hpc] using hcontent⟩
  | run hpc hcall =>
      rw [batch, hpc] at hcontent
      refine ⟨q.pop 1, h.pushed, ?_, ?_⟩
      · simp [h.popped, hcontent]
      · simp [batch, hcontent]
  | functorReturn hpc hcall => exact ⟨q, h.pushed, h.popped, by simpa [batch, hpc] using hcontent⟩
  | batchDone hpc hcall => exact ⟨q, h.pushed, h.popped, by simpa [batch, hpc] using hcontent⟩
  | clearCallable hpc hcall =>
      exact ⟨q, h.pushed, h.popped, by simpa [batch, hpc] using hcontent⟩

/-- A functor queued while a pass executes callbacks is not in the batch of that pass. -/
structure NextPass (s : EventLoop F) : Prop where
  ran : ∀ r ∈ s.ran, r.1.during ≠ some r.2
  batch : ∀ job ∈ s.batch, ∀ n, job.during = some n → n < s.pass
  functors : ∀ job ∈ s.functors, ∀ n, job.during = some n → n ≤ s.pass

theorem NextPass.new : NextPass (new : EventLoop F) where
  ran _ h := absurd h (by simp [EventLoop.new])
  batch _ h := absurd h (by simp [EventLoop.new, EventLoop.batch])
  functors _ h := absurd h (by simp [EventLoop.new])

theorem executing_le {n : Nat} (h : s.executing = some n) : n ≤ s.pass := by
  unfold executing at h
  split at h <;> simp_all

theorem NextPass.emplace (h : NextPass s) (callback : F) : NextPass (s.emplace callback) where
  ran := h.ran
  batch := h.batch
  functors job hjob n hduring := by
    rcases List.mem_append.1 hjob with hjob | hjob
    · exact h.functors job hjob n hduring
    · rw [List.mem_singleton.1 hjob] at hduring
      exact executing_le hduring

theorem NextPass.step (h : NextPass s) (hstep : Step s a t) : NextPass t := by
  have hempty {t : EventLoop F} (hbatch : t.batch = []) :
      ∀ job ∈ t.batch, ∀ n, job.during = some n → n < t.pass := by
    simp [hbatch]
  have hbatch := h.batch
  cases hstep with
  | @append u callback hcall =>
      have hemplace := h.emplace callback
      exact ⟨hemplace.ran, hemplace.batch, hemplace.functors⟩
  | test hcall => exact ⟨h.ran, h.batch, h.functors⟩
  | wakeup hcall => exact ⟨h.ran, h.batch, h.functors⟩
  | quit hcall => exact ⟨h.ran, h.batch, h.functors⟩
  | @loopAppend callback huser hcall =>
      have hemplace := h.emplace callback
      exact ⟨hemplace.ran, hemplace.batch, hemplace.functors⟩
  | loopTest hcall => exact ⟨h.ran, h.batch, h.functors⟩
  | loopWakeup hcall => exact ⟨h.ran, h.batch, h.functors⟩
  | loopQuit => exact ⟨h.ran, h.batch, h.functors⟩
  | start hpc => exact ⟨h.ran, hempty rfl, h.functors⟩
  | pollReturn hpc => exact ⟨h.ran, hempty rfl, h.functors⟩
  | clearQuit hpc hcall => exact ⟨h.ran, hempty rfl, h.functors⟩
  | testQuit hpc hcall =>
      refine ⟨h.ran, hempty ?_, h.functors⟩
      cases hquit : s.quit <;> rfl
  | handled hpc hcall => exact ⟨h.ran, hempty rfl, h.functors⟩
  | handleRead hpc hcall => exact ⟨h.ran, hempty rfl, h.functors⟩
  | handle hpc hcall => exact ⟨h.ran, hempty rfl, h.functors⟩
  | handlerReturn hpc hcall => exact ⟨h.ran, hempty rfl, h.functors⟩
  | skipFunctors hpc hcall hnone => exact ⟨h.ran, hempty rfl, h.functors⟩
  | doCallback hpc hcall hsome => exact ⟨h.ran, hempty rfl, h.functors⟩
  | setCallable hpc hcall => exact ⟨h.ran, hempty rfl, h.functors⟩
  | swap hpc hcall =>
      -- the pass begins here, so what was queued before belongs to an earlier one
      exact ⟨h.ran, fun job hjob n hn => Nat.lt_succ_of_le (h.functors job hjob n hn), by simp⟩
  | @run job rest hpc hcall =>
      rw [EventLoop.batch, hpc] at hbatch
      refine ⟨fun r hr => ?_, fun job hjob => hbatch job (List.mem_cons_of_mem _ hjob), h.functors⟩
      rcases List.mem_append.1 hr with hr | hr
      · exact h.ran r hr
      · rw [List.mem_singleton.1 hr]
        intro hduring
        exact absurd (hbatch job List.mem_cons_self s.pass hduring) (Nat.lt_irrefl _)
  | functorReturn hpc hcall =>
      rw [EventLoop.batch, hpc] at hbatch
      exact ⟨h.ran, hbatch, h.functors⟩
  | batchDone hpc hcall => exact ⟨h.ran, hempty rfl, h.functors⟩
  | clearCallable hpc hcall => exact ⟨h.ran, hempty rfl, h.functors⟩

/-- Nothing that was queued is lost. -/
theorem queued_eq (run : (machine F).Reachable s) :
    s.ran.map Prod.fst ++ s.batch ++ s.functors = s.queued := by
  have hqueue : ∃ q, Represents s q := run.invariant (I := fun s => ∃ q, Represents s q)
    (fun s hs => hs ▸ ⟨.empty, represents_new⟩)
    fun s a t ⟨q, hq⟩ hstep => hq.step (step_cases hstep)
  obtain ⟨q, hq⟩ := hqueue
  rw [List.append_assoc, ← hq.content, ← hq.popped, ← hq.pushed]
  exact q.law

/-- The functors run, the rest of the batch and `functors_` are all the functors queued, in the
    order in which they were queued, and no functor runs in the pass that was executing callbacks
    when it was queued. -/
theorem functors_run_once_in_order (run : (machine F).Reachable s) :
    s.ran.map Prod.fst ++ s.batch ++ s.functors = s.queued ∧
      ∀ r ∈ s.ran, r.1.during ≠ some r.2 := by
  have hnext : NextPass s := run.invariant (fun s hs => hs ▸ NextPass.new)
    fun s a t h hstep => h.step (step_cases hstep)
  exact ⟨queued_eq run, hnext.ran⟩

/-- A functor that queues another one: the second waits for the next pass. -/
theorem functors_run_once_in_order_nested :
    ∃ s, (machine Bool).Reachable s ∧ s.ran.map (fun r => r.1.callback) = [false] ∧
      s.ran.map Prod.fst ++ s.batch ++ s.functors = s.queued ∧
      s.queued.map Job.callback = [false, true] := by
  obtain ⟨s, run, hran, hqueued⟩ := Machine.exists_reaches_of_exec (machine Bool)
    Machine.anyStep .new
    [.start, .next, .next, .append 0 false, .test 0, .wakeup 0, .pollReturn [.wakeup], .next, .next,
      .next, .next, .next, .next, .loopAppend true, .loopTest, .loopWakeup, .next, .next, .next]
    (fun s => s.ran.map (fun r => r.1.callback) = [false] ∧
      s.queued.map Job.callback = [false, true]) rfl (by decide)
  exact ⟨s, ⟨_, run⟩, hran, (functors_run_once_in_order ⟨_, run⟩).1, hqueued⟩

end EventLoop
