import Mathlib.Algebra.Order.BigOperators.Group.List
import Mathlib.Algebra.Order.Group.Nat
import Muduo.Base.Proofs.ThreadSafeQueue
import Muduo.Lib.Progress

set_option autoImplicit false

/-! # No call on a ThreadSafeQueue hangs

A pop may lock `TailMutex` while it holds `HeadMutex_`, and nobody locks them the other way round.
So whoever holds `TailMutex` can go on, and when nobody does, whoever holds `HeadMutex_` can. What a
call has still to do is bounded, a wake-up that it gives away included. -/

namespace ThreadSafeQueue

variable {α : Type} {s t : ThreadSafeQueue α} {i choice : Nat} {pc pc' : Pc α} {a : Action α}

/-! ## What is left to do -/

/-- The steps that a call has still to take at most; who pushes wakes up a pop. -/
def Pc.work : Pc α → Nat
  | .returned _ | .blocked _ => 0
  | .destroy _ _ | .block _ | .unlockTail => 1
  | .unlockHead _ _ => 2
  | .popHead _ => 3
  | .moveData _ => 4
  | .compare _ _ _ => 5
  | .readTail _ => 6
  | .lockHead _ => 7
  | .notifyOne => 9
  | .setTail _ _ => 10
  | .setNext _ => 11
  | .setData _ => 12
  | .push _ => 13

def work (s : ThreadSafeQueue α) : Nat := (s.threads.map Pc.work).sum

theorem Pc.work_le (pc : Pc α) : pc.work ≤ 13 := by
  cases pc <;> simp [Pc.work]

theorem work_le (s : ThreadSafeQueue α) : s.work ≤ 13 * s.threads.length := by
  have hle : ∀ x ∈ s.threads.map Pc.work, x ≤ 13 := by
    intro x hx
    obtain ⟨pc, -, rfl⟩ := List.mem_map.1 hx
    exact pc.work_le
  have hsum := List.sum_le_card_nsmul (s.threads.map Pc.work) 13 hle
  simpa [work, Nat.mul_comm] using hsum

/-- A thread that moves to a place with less work. -/
theorem work_move {threads : List (Pc α)} (hpc : threads[i]? = some pc)
    (hless : pc'.work < pc.work) :
    ((threads.set i pc').map Pc.work).sum < (threads.map Pc.work).sum := by
  have hsum := Threads.sum_map_set Pc.work hpc pc'
  omega

theorem GoOn.work_lt (hpc : s.threads[i]? = some pc) (hgo : GoOn s i choice pc t) :
    t.work < s.work := by
  cases hgo with
  | notifyOne hblocked =>
      -- the push gives away what the pop that it wakes up has to do
      rename_i pop
      have hne : i ≠ choice := by
        rintro rfl
        exact absurd (hpc.symm.trans hblocked) (by simp)
      have hwoken := Threads.sum_map_set Pc.work hblocked (.lockHead pop)
      have hpc' : (s.threads.set choice (.lockHead pop))[i]? = some .notifyOne :=
        Threads.getElem?_set_of_ne hpc hne
      have hmoved := Threads.sum_map_set Pc.work hpc' .unlockTail
      simp only [Pc.work] at hwoken hmoved
      simp only [work, goTo]
      omega
  | found =>
      refine work_move hpc ?_
      split <;> simp [Pc.work]
  | _ => exact work_move hpc (by simp [Pc.work])

theorem length_goOn (hgo : GoOn s i choice pc t) : t.threads.length = s.threads.length := by
  cases hgo <;> simp [goTo, setData, setNext, setTail]

theorem length_step (hstep : Step s a t) : t.threads.length = s.threads.length := by
  cases hstep with
  | next hpc hgo => exact length_goOn hgo
  | _ => simp [goTo, ThreadSafeQueue.notifyAll]

/-! ## Who can go on -/

/-- A locked mutex is locked by a thread that is there, and there is always room for a new node. -/
structure Tame (s : ThreadSafeQueue α) : Prop where
  head : ∀ i, s.headMutex = some i → i < s.threads.length
  tail : ∀ i, s.tailMutex = some i → i < s.threads.length
  heap : ∃ bound, ∀ p, bound ≤ p → s.heap p = none

theorem tame_new (n : Nat) : Tame (new α n) where
  head := by simp [new]
  tail := by simp [new]
  heap := by
    refine ⟨1, fun p hp => ?_⟩
    have hne : p ≠ 0 := Nat.ne_of_gt hp
    simp [new, hne]

/-- The mutexes and the nodes are as they were. -/
theorem Tame.of_same (h : s.Tame) (hlength : t.threads.length = s.threads.length)
    (hhead : t.headMutex = s.headMutex) (htail : t.tailMutex = s.tailMutex)
    (hheap : t.heap = s.heap) : t.Tame where
  head := by rw [hhead, hlength]; exact h.head
  tail := by rw [htail, hlength]; exact h.tail
  heap := by rw [hheap]; exact h.heap

/-- A node is changed that is there. -/
theorem heap_bounded {heap : NodePtr → Option (Node α)}
    (h : ∃ bound, ∀ p, bound ≤ p → heap p = none) (a : NodePtr) (node : Option (Node α)) :
    ∃ bound, ∀ p, bound ≤ p → Function.update heap a node p = none := by
  obtain ⟨bound, hbound⟩ := h
  refine ⟨max bound (a + 1), fun p hp => ?_⟩
  have hne : p ≠ a := Nat.ne_of_gt ((Nat.le_max_right _ _).trans hp)
  rw [Function.update_of_ne hne]
  exact hbound p ((Nat.le_max_left _ _).trans hp)

theorem Tame.goOn (h : s.Tame) (hpc : s.threads[i]? = some pc) (hgo : GoOn s i choice pc t) :
    t.Tame := by
  have hlength := length_goOn hgo
  have hlt := Threads.lt_length hpc
  have hme : ∀ j, some i = some j → j < t.threads.length := by
    rintro j ⟨⟩
    rwa [hlength]
  have hhead : ∀ j, s.headMutex = some j → j < t.threads.length := hlength ▸ h.head
  have htail : ∀ j, s.tailMutex = some j → j < t.threads.length := hlength ▸ h.tail
  cases hgo with
  | lockTail => exact ⟨hhead, hme, h.heap⟩
  | lockHead => exact ⟨hme, htail, h.heap⟩
  | unlockTail => exact ⟨hhead, by simp [goTo], h.heap⟩
  | block | unlockHead => exact ⟨by simp [goTo], htail, h.heap⟩
  | setData => exact ⟨hhead, htail, heap_bounded h.heap _ _⟩
  | setNext => exact ⟨hhead, htail, heap_bounded (heap_bounded h.heap _ _) _ _⟩
  | moveData | popHead => exact ⟨hhead, htail, heap_bounded h.heap _ _⟩
  | _ => exact ⟨hhead, htail, h.heap⟩

theorem Tame.step (h : s.Tame) (hstep : Step s a t) : t.Tame := by
  have hlength := length_step hstep
  cases hstep with
  | next hpc hgo => exact h.goOn hpc hgo
  | _ => exact h.of_same hlength rfl rfl rfl

/-- The thread is between two calls, or waits for a push. -/
def Pc.AtRest (pc : Pc α) : Prop := (∃ value, pc = .returned value) ∨ ∃ pop, pc = .blocked pop

/-- Whoever has locked `TailMutex` can go on. -/
theorem exists_goOn_of_holdsTail (h : s.Tame) (hholds : pc.holdsTail = true) :
    ∃ choice, (s.goOn i choice pc).isSome = true := by
  cases pc with
  | setNext value =>
      obtain ⟨bound, hbound⟩ := h.heap
      exact ⟨bound, by simp [goOn, hbound bound (Nat.le_refl _)]⟩
  | notifyOne =>
      by_cases hany : s.threads.any Pc.waiting = true
      · obtain ⟨x, hx, hwaiting⟩ := List.any_eq_true.1 hany
        obtain ⟨j, hj⟩ := List.getElem?_of_mem hx
        cases x with
        | blocked pop => exact ⟨j, by simp [goOn, ThreadSafeQueue.notifyOne, hany, hj]⟩
        | _ => exact absurd hwaiting (by simp [Pc.waiting])
      · exact ⟨0, by simp [goOn, ThreadSafeQueue.notifyOne, hany]⟩
  | setData _ | setTail _ _ | unlockTail => exact ⟨0, rfl⟩
  | _ => exact absurd hholds (by simp [Pc.holdsTail])

/-- While nobody has locked `TailMutex`, everybody can go on who does not wait for `HeadMutex_`. -/
theorem exists_goOn_of_tail_free (hinv : s.Inv) (h : s.Tame) (hpc : s.threads[i]? = some pc)
    (hfree : s.tailMutex = none) (hrest : ¬ pc.AtRest) (hlock : ∀ pop, pc ≠ .lockHead pop) :
    ∃ choice, (s.goOn i choice pc).isSome = true := by
  have hmem := Threads.mem hpc
  cases pc with
  | returned value => exact absurd (Or.inl ⟨value, rfl⟩) hrest
  | blocked pop => exact absurd (Or.inr ⟨pop, rfl⟩) hrest
  | lockHead pop => exact absurd rfl (hlock pop)
  | push value => exact ⟨0, by simp [goOn, hfree]⟩
  | readTail pop => exact ⟨0, by simp [goOn, hfree]⟩
  | compare pop tail seen =>
      refine ⟨0, ?_⟩
      simp only [goOn]
      split
      · rfl
      · split <;> rfl
  | moveData pop => exact ⟨0, by simpa [goOn] using hinv.moveData_isSome hmem⟩
  | popHead value => exact ⟨0, by simpa [goOn] using hinv.popHead_isSome hmem⟩
  | block _ | unlockHead _ _ | destroy _ _ => exact ⟨0, rfl⟩
  | _ => exact exists_goOn_of_holdsTail h rfl

/-- When nobody can go on, everybody is at rest. -/
theorem atRest_of_stuck (hinv : s.Inv) (h : s.Tame)
    (hstuck : ∀ i choice, s.step (.next i choice) = none) : ∀ pc ∈ s.threads, pc.AtRest := by
  have hno {i : Nat} {pc : Pc α} (hpc : s.threads[i]? = some pc) :
      ¬ ∃ choice, (s.goOn i choice pc).isSome = true := by
    rintro ⟨choice, hsome⟩
    have hnone := hstuck i choice
    rw [step, hpc, Option.bind_some] at hnone
    exact absurd hsome (by simp [hnone])
  -- first nobody holds `TailMutex`, then nobody `HeadMutex_`, and then nobody waits for one
  have htail : s.tailMutex = none := by
    by_contra hlocked
    obtain ⟨j, hj⟩ := Option.ne_none_iff_exists'.1 hlocked
    have hpc := List.getElem?_eq_getElem (h.tail j hj)
    exact hno hpc (exists_goOn_of_holdsTail h ((hinv.tailOwner j _ hpc).2 hj))
  have hhead : s.headMutex = none := by
    by_contra hlocked
    obtain ⟨j, hj⟩ := Option.ne_none_iff_exists'.1 hlocked
    have hpc := List.getElem?_eq_getElem (h.head j hj)
    have hholds := (hinv.headOwner j _ hpc).2 hj
    refine hno hpc (exists_goOn_of_tail_free hinv h hpc htail ?_ ?_)
    · rintro (⟨value, heq⟩ | ⟨pop, heq⟩) <;> rw [heq] at hholds <;>
        exact absurd hholds (by simp [Pc.holdsHead])
    · rintro pop heq
      rw [heq] at hholds
      exact absurd hholds (by simp [Pc.holdsHead])
  intro pc hmem
  obtain ⟨i, hpc⟩ := List.getElem?_of_mem hmem
  by_contra hrest
  refine hno hpc (exists_goOn_of_tail_free hinv h hpc htail hrest ?_)
  rintro pop rfl
  exact hno hpc ⟨0, by simp [goOn, hhead]⟩

/-! ## Runs -/

theorem tame_of_reaches {n : Nat} {ok : ThreadSafeQueue α → Action α → Prop} {as : List (Action α)}
    (run : (machine α n).Reaches ok as s) : s.Tame ∧ s.threads.length = n := by
  refine run.invariant (I := fun s => s.Tame ∧ s.threads.length = n) ?_ ?_
  · rintro s rfl
    exact ⟨tame_new n, List.length_replicate⟩
  · rintro s a t ⟨htame, hlength⟩ - hstep
    exact ⟨htame.step (step_cases hstep), (length_step (step_cases hstep)).trans hlength⟩

theorem work_lt {choice : Nat} (hstep : s.step (.next i choice) = some t) : t.work < s.work := by
  cases step_cases hstep with
  | next hpc hgo => exact hgo.work_lt hpc

/-- No deadlock and no livelock: from every state that any number of threads reach, however they go
    on, after thirteen steps for each of them at most nobody can go on; and when nobody can, every
    call has returned or is blocked in `cond_.wait`. -/
theorem calls_end {n : Nat} {as : List (Action α)}
    (run : (machine α n).Reaches Machine.anyStep as s) (steps : List (Nat × Nat))
    (hsteps : (machine α n).exec Machine.anyStep s (steps.map fun (i, choice) => .next i choice)
      = some t) :
    steps.length ≤ 13 * n ∧
    ((∀ i choice, t.step (.next i choice) = none) → ∀ pc ∈ t.threads, pc.AtRest) := by
  have hlabels : ∀ s : ThreadSafeQueue α, ∀ a ∈ steps.map (fun (i, choice) => Action.next i choice),
      ∀ t, True → (machine α n).step s a = some t → t.work < s.work := by
    intro s a ha t _ hstep
    obtain ⟨⟨i, choice⟩, -, rfl⟩ := List.mem_map.1 ha
    exact work_lt hstep
  have hwork := Machine.exec_length_le work (fun _ _ _ _ _ => trivial) hlabels trivial hsteps
  have hle := s.work_le
  rw [(tame_of_reaches run).2] at hle
  rw [List.length_map] at hwork
  refine ⟨by omega, fun hstuck => ?_⟩
  have hrun := run.exec_append _ hsteps
  exact atRest_of_stuck (inv_of_reaches hrun) (tame_of_reaches hrun).1 hstuck

/-- A push that has locked `TailMutex`, and a pop that waits for it with `HeadMutex_` locked. -/
def popBehindPush : List (Action Nat) :=
  [.push 0 7, .next 0 0, .pop 1 .waitPop, .next 1 0]

/-- They end: the push, and then the pop, with the value. -/
theorem calls_end_popBehindPush :
    ∃ s t : ThreadSafeQueue Nat, (machine Nat 2).Reaches Machine.anyStep popBehindPush s ∧
      (∀ pc ∈ t.threads, pc.AtRest) ∧ t.threads = [.returned none, .returned (some 7)] := by
  let pushThenPop : List (Nat × Nat) :=
    [(0, 0), (0, 1), (0, 0), (0, 0), (0, 0), (1, 0), (1, 0), (1, 0), (1, 0), (1, 0)]
  obtain ⟨s, run, hs⟩ := Machine.exists_reaches_of_exec (machine Nat 2) Machine.anyStep
    (new Nat 2) popBehindPush (fun s =>
      ((machine Nat 2).exec Machine.anyStep s
        (pushThenPop.map fun (i, choice) => .next i choice)).any
          (·.threads = [.returned none, .returned (some 7)]) = true) rfl (by decide)
  obtain ⟨t, ht, hthreads⟩ := (Option.any_eq_true _ _).1 hs
  have hpcs : t.threads = [.returned none, .returned (some 7)] := by simpa using hthreads
  refine ⟨s, t, run, (calls_end run pushThenPop ht).2 fun i choice => ?_, hpcs⟩
  rcases i with _ | _ | i <;> simp [step, hpcs, goOn]

end ThreadSafeQueue
