import Muduo.Net.Proofs.EventLoop
import Mathlib.Data.List.Infix

set_option autoImplicit false

/-! # How long a functor waits

`start()` tests `functors_` behind every `poll`. A functor that is queued behind that test, or
behind the swap of `DoCallback`, is left to the next iteration and to no later one. -/

namespace EventLoop

universe u

variable {F : Type u} {s t : EventLoop F} {a : Action F} {before : List (Job F)}

/-- `poll` returns. -/
def Action.isPollReturn : Action F → Bool
  | .pollReturn _ => true
  | _ => false

/-- Where the functors of `before` are when `poll` has returned once since: in the batch at the
    latest when callbacks are executed, and run when the loop comes to `poll` again. -/
structure Overdue (before : List (Job F)) (s : EventLoop F) : Prop where
  queued : before <+: s.queued
  taken : s.LooksAtFunctors ∨ before <+: s.ran.map Prod.fst ++ s.batch

/-- The functors of `before` when `poll` has returned `n` times since they were queued. -/
def Waiting (before : List (Job F)) (n : Nat) (s : EventLoop F) : Prop :=
  match n with
  | 0 => before <+: s.queued
  | 1 => Overdue before s
  | _ => before <+: s.ran.map Prod.fst

/-! ## One step -/

theorem queued_isPrefix (hstep : Step s a t) : s.queued <+: t.queued := by
  cases hstep with
  | append hcall => exact List.prefix_append _ _
  | loopAppend huser hcall => exact List.prefix_append _ _
  | _ => exact List.prefix_refl _

theorem ran_isPrefix (hstep : Step s a t) : s.ran.map Prod.fst <+: t.ran.map Prod.fst := by
  cases hstep with
  | run hpc hcall => exact (List.prefix_append _ _).map _
  | _ => exact List.prefix_refl _

/-- What has been taken stays taken. -/
theorem taken_isPrefix (hstep : Step s a t) :
    s.ran.map Prod.fst ++ s.batch <+: t.ran.map Prod.fst ++ t.batch := by
  cases hstep with
  | append hcall | test hcall | wakeup hcall | quit hcall | loopAppend huser hcall | loopTest hcall
  | loopWakeup hcall | loopQuit => exact List.prefix_refl _
  | testQuit hpc hcall => cases s.quit <;> simp [batch, hpc]
  | start hpc | pollReturn hpc | clearQuit hpc hcall | handled hpc hcall | handleRead hpc hcall
  | handle hpc hcall | handlerReturn hpc hcall | skipFunctors hpc hcall hnone
  | doCallback hpc hcall | setCallable hpc hcall | swap hpc hcall | run hpc hcall
  | functorReturn hpc hcall | batchDone hpc hcall | clearCallable hpc hcall => simp [batch, hpc]

/-- The loop turns from `functors_` only when there is nothing in it, or when it takes all. -/
theorem looksAtFunctors_step (hstep : Step s a t) (hlooks : s.LooksAtFunctors) :
    t.LooksAtFunctors ∨ t.functors = [] := by
  cases hstep with
  | swap hpc hcall => exact Or.inr rfl
  | skipFunctors hpc hcall hnone => exact Or.inr hnone
  | append hcall | test hcall | wakeup hcall | quit hcall | loopAppend huser hcall | loopTest hcall
  | loopWakeup hcall | loopQuit => exact Or.inl hlooks
  | start hpc | pollReturn hpc | clearQuit hpc hcall | testQuit hpc hcall | run hpc hcall
  | functorReturn hpc hcall | batchDone hpc hcall | clearCallable hpc hcall =>
      exact absurd hlooks (by simp [LooksAtFunctors, hpc])
  | handled hpc hcall | handleRead hpc hcall | handle hpc hcall | handlerReturn hpc hcall
  | doCallback hpc hcall | setCallable hpc hcall => exact Or.inl trivial

theorem Overdue.step (h : Overdue before s) (hs : (machine F).Reachable t) (hstep : Step s a t) :
    Overdue before t := by
  have hqueued := h.queued.trans (queued_isPrefix hstep)
  refine ⟨hqueued, ?_⟩
  rcases h.taken with hlooks | htaken
  · rcases looksAtFunctors_step hstep hlooks with hlooks | hnone
    · exact Or.inl hlooks
    · -- everything that was queued has been run or is in the batch
      rw [← queued_eq hs, hnone, List.append_nil] at hqueued
      exact Or.inr hqueued
  · exact Or.inr (htaken.trans (taken_isPrefix hstep))

/-- The loop comes to `poll` with an empty batch, and does not look at `functors_` there. -/
theorem Overdue.ran_of_poll (h : Overdue before s) (hpc : s.pc = .poll) :
    before <+: s.ran.map Prod.fst := by
  rcases h.taken with hlooks | htaken
  · exact absurd hlooks (by simp [LooksAtFunctors, hpc])
  · simpa [batch, hpc] using htaken

theorem Waiting.step {n : Nat} (h : Waiting before n s) (hs : (machine F).Reachable t)
    (hstep : Step s a t) : Waiting before n t := by
  match n with
  | 0 => exact List.IsPrefix.trans h (queued_isPrefix hstep)
  | 1 => exact Overdue.step h hs hstep
  | n + 2 => exact List.IsPrefix.trans h (ran_isPrefix hstep)

/-- `poll` returns once more. -/
theorem Waiting.pollReturn {n : Nat} {channels : List Ready} (h : Waiting before n s)
    (hpc : s.pc = .poll) : Waiting before (n + 1) { s with pc := .dispatch channels } := by
  match n, h with
  | 0, hqueued => exact ⟨hqueued, Or.inl trivial⟩
  | 1, hoverdue => exact Overdue.ran_of_poll (s := s) hoverdue hpc
  | n + 2, hran => exact hran

/-! ## Every continuation -/

theorem Waiting.exec {n : Nat} {steps : List (Action F)} (h : Waiting before n s)
    (hs : (machine F).Reachable s)
    (later : (machine F).exec Machine.anyStep s steps = some t) :
    Waiting before (n + steps.countP Action.isPollReturn) t := by
  induction steps generalizing n s with
  | nil => simpa [Machine.exec] using Option.some.inj later ▸ h
  | cons a steps ih =>
      simp only [Machine.exec, Option.ite_none_right_eq_some, Option.bind_eq_some_iff] at later
      obtain ⟨-, u, hu, hrest⟩ := later
      obtain ⟨labels, run⟩ := hs
      have hureach : (machine F).Reachable u := ⟨_, run.step trivial hu⟩
      have hstep := step_cases hu
      rw [List.countP_cons, ← Nat.add_assoc, Nat.add_right_comm]
      cases hpoll : a.isPollReturn with
      | false => simpa using ih (h.step hureach hstep) hureach hrest
      | true =>
          cases hstep with
          | pollReturn hpc => simpa using ih (h.pollReturn hpc) hureach hrest
          | _ => exact absurd hpoll (by simp [Action.isPollReturn])

/-- Whatever the loop and the other threads do from a state on: when `poll` has returned twice, all
    functors that were queued in that state have been run, in their order and before any other. -/
theorem run_by_second_poll {steps : List (Action F)} (run : (machine F).Reachable s)
    (later : (machine F).exec Machine.anyStep s steps = some t)
    (hpolls : 2 ≤ steps.countP Action.isPollReturn) : s.queued <+: t.ran.map Prod.fst := by
  have hstart : Waiting s.queued 0 s := List.prefix_refl _
  have hwaiting := hstart.exec run later
  rw [Nat.zero_add] at hwaiting
  obtain ⟨n, hn⟩ := Nat.exists_eq_add_of_le' hpolls
  rwa [hn] at hwaiting

/-- A functor that is queued behind the test of `functors_` waits for the second `poll`. -/
theorem run_by_second_poll_behindTest :
    ∃ s t : EventLoop Unit, (machine Unit).Reachable s ∧ s.pc = .testQuit ∧
      s.queued.map Job.callback = [()] ∧ s.queued <+: t.ran.map Prod.fst := by
  obtain ⟨s, run, hpc, hqueued, hlater⟩ := Machine.exists_reaches_of_exec (machine Unit)
    Machine.anyStep .new [.start, .next, .next, .pollReturn [], .next, .next, .append 0 ()]
    (fun s => s.pc = .testQuit ∧ s.queued.map Job.callback = [()] ∧
      ((machine Unit).exec Machine.anyStep s
        [.next, .test 0, .wakeup 0, .pollReturn [.wakeup], .next, .next, .next, .next, .next, .next,
          .next, .next, .next, .next, .pollReturn []]).isSome = true) rfl (by decide)
  obtain ⟨t, later⟩ := Option.isSome_iff_exists.1 hlater
  exact ⟨s, t, ⟨_, run⟩, hpc, hqueued, run_by_second_poll ⟨_, run⟩ later (by decide)⟩

end EventLoop
