import Mathlib.Algebra.Order.BigOperators.Group.List
import Mathlib.Algebra.Order.Group.Nat
import Mathlib.Data.List.Nodup
import Muduo.Lib.Threads
import Muduo.Net.EventLoopThreadPool
import Muduo.Net.Proofs.EventLoopThread

set_option autoImplicit false

/-! # Starting a pool of threads

`start` puts a loop into `loops_` when its thread has published it, and a thread that nobody has
asked to quit stays in its loop. `StartLoop` waits for a pointer that the thread takes back when it
has left the loop, so a loop must not be quit before `StartLoop` has returned. -/

universe u

namespace EventLoop

variable {F : Type u} {s t : EventLoop F} {a : Action F}

def Action.quits : Action F → Bool
  | .quit _ | .loopQuit => true
  | _ => false

/-- Only a `quit()` leads out of `start()`. -/
theorem Step.stays (hstep : Step s a t) (ha : a.quits = false) (hquit : s.quit = false) :
    t.quit = false ∧ (s.pc ≠ .stopped → t.pc ≠ .stopped) := by
  cases hstep with
  | quit | loopQuit => exact absurd ha (by simp [Action.quits])
  | append | test | wakeup | loopAppend | loopTest | loopWakeup => exact ⟨hquit, id⟩
  | testQuit => exact ⟨hquit, fun _ => by simp [hquit]⟩
  | clearQuit => exact ⟨rfl, fun _ => by simp⟩
  | _ => exact ⟨hquit, fun _ => by simp⟩

end EventLoop

namespace EventLoopThread

variable {F : Type u} {s t : EventLoopThread F} {a : Action F}

/-- Where the thread is that has not been asked to quit. -/
def Living (s : EventLoopThread F) : Prop :=
  s.loop.quit = false ∧
    match s.thread with
    | .construct | .publish => s.loop.pc = .stopped
    | .start => s.published = true ∧ s.loop.pc = .stopped
    | .looping => s.published = true ∧ s.loop.pc ≠ .stopped
    | .idle | .unpublish | .finished => False

/-- What is known of a thread from its `StartLoop` on. -/
structure Made (s : EventLoopThread F) : Prop where
  begun : s.starter = .waiting ∨ s.starter = .returned
  unpublished : s.thread = .construct ∨ s.thread = .publish → s.published = false
  returned : s.starter = .returned → s.thread ≠ .construct ∧ s.thread ≠ .publish
  thread : s.thread ≠ .idle
  living : s.requested = false → s.Living

theorem made_startLoop (h : (new : EventLoopThread F).step .startLoop = some t) :
    t.Made ∧ t.starter = .waiting ∧ t.thread = .construct ∧ t.requested = false := by
  obtain rfl : t = { new with starter := .waiting, thread := .construct } :=
    (Option.some.inj h).symm
  exact ⟨⟨Or.inl rfl, fun _ => rfl, by simp, by simp, fun _ => ⟨rfl, rfl⟩⟩, rfl, rfl, rfl⟩

/-- A `quit()` is known of, and made by the loop itself or with the pointer. -/
theorem requested_of_quits {b : EventLoop.Action F} (h : s.loopStep b = some t)
    (hb : b.quits = true) :
    t.requested = true ∧ t.starter = s.starter ∧ (b = .loopQuit ∨ s.starter = .returned) := by
  cases b with
  | quit u =>
      simp only [loopStep, Option.ite_none_right_eq_some] at h
      obtain ⟨hreturned, h⟩ := h
      obtain ⟨loop, -, rfl⟩ := Option.map_eq_some_iff.1 h
      exact ⟨rfl, rfl, Or.inr hreturned⟩
  | loopQuit =>
      simp only [loopStep, Option.ite_none_right_eq_some] at h
      obtain ⟨loop, -, rfl⟩ := Option.map_eq_some_iff.1 h.2
      exact ⟨rfl, rfl, Or.inl rfl⟩
  | _ => exact absurd hb (by simp [EventLoop.Action.quits])

/-- What a step of the loop leaves as it was. -/
theorem loopStep_frame {b : EventLoop.Action F} (h : s.loopStep b = some t) :
    t.thread = s.thread ∧ t.published = s.published ∧ t.starter = s.starter ∧
      (b.quits = false → t.requested = s.requested) := by
  have honLoop {c : EventLoop.Action F} (h : s.onLoop c = some t) :
      t.thread = s.thread ∧ t.published = s.published ∧ t.starter = s.starter ∧
        (b.quits = false → t.requested = s.requested) := by
    obtain ⟨loop, -, rfl⟩ := Option.map_eq_some_iff.1 h
    exact ⟨rfl, rfl, rfl, fun _ => rfl⟩
  cases b with
  | quit | loopQuit =>
      simp only [loopStep, Option.ite_none_right_eq_some] at h
      obtain ⟨loop, -, rfl⟩ := Option.map_eq_some_iff.1 h.2
      exact ⟨rfl, rfl, rfl, fun hquits => absurd hquits (by simp [EventLoop.Action.quits])⟩
  | test | wakeup => exact honLoop h
  | start => exact absurd h (by simp [loopStep])
  | _ =>
      simp only [loopStep, Option.ite_none_right_eq_some] at h
      exact honLoop h.2

theorem Living.loop {b : EventLoop.Action F} (h : s.Living) (hstep : s.loopStep b = some t)
    (hb : b.quits = false) : t.Living := by
  obtain ⟨hthread, hpublished, -, -⟩ := loopStep_frame hstep
  have hcases : ∃ loop, EventLoop.Step s.loop b loop ∧ t.loop = loop ∧ b ≠ .start ∧
      (b.goesOn = true → s.thread = .looping) := by
    cases loopStep_cases hstep with
    | request hrequest =>
        obtain ⟨u, rfl⟩ | ⟨rfl, -⟩ := hrequest <;>
          exact absurd hb (by simp [EventLoop.Action.quits])
    | loop hstart hlooping hloop => exact ⟨_, hloop, rfl, hstart, hlooping⟩
  obtain ⟨loop, hloop, rfl, hstart, hlooping⟩ := hcases
  -- outside of `start()` the loop thread does not go on
  have hstopped (hpc : s.loop.pc = .stopped) (hne : s.thread ≠ .looping) :
      t.loop.pc = .stopped := by
    refine (hloop.pc_eq hstart ?_).trans hpc
    cases hgo : b.goesOn with
    | false => rfl
    | true => exact absurd (hlooping hgo) hne
  obtain ⟨hquit, hwhere⟩ := h
  have hstays := hloop.stays hb hquit
  refine ⟨hstays.1, ?_⟩
  rw [hthread, hpublished]
  split at hwhere
  · next hpc => exact hstopped hwhere (by simp [hpc])
  · next hpc => exact hstopped hwhere (by simp [hpc])
  · next hpc => exact hwhere.imp_right fun hstop => hstopped hstop (by simp [hpc])
  · exact hwhere.imp_right hstays.2
  · exact hwhere
  · exact hwhere
  · exact hwhere

theorem Made.loop {b : EventLoop.Action F} (h : s.Made) (hstep : s.loopStep b = some t) :
    t.Made := by
  obtain ⟨hthread, hpublished, hstarter, hrequested⟩ := loopStep_frame hstep
  refine ⟨?_, ?_, ?_, hthread ▸ h.thread, fun hnot => ?_⟩
  · rw [hstarter]
    exact h.begun
  · rw [hthread, hpublished]
    exact h.unpublished
  · rw [hstarter, hthread]
    exact h.returned
  · cases hquits : b.quits with
    | true => exact absurd (requested_of_quits hstep hquits).1 (by simp [hnot])
    | false => exact (h.living ((hrequested hquits).symm.trans hnot)).loop hstep hquits

theorem Made.next (h : s.Made) (hstep : s.step .thread = some t) :
    t.Made ∧ t.starter = s.starter ∧ t.requested = s.requested := by
  have hliving := h.living
  simp only [Living] at hliving
  cases step_cases hstep with
  | construct hthread =>
      rw [hthread] at hliving
      refine ⟨⟨h.begun, fun _ => h.unpublished (Or.inl hthread), fun hreturned => ?_, by simp,
        hliving⟩, rfl, rfl⟩
      exact absurd hthread (h.returned hreturned).1
  | publish hthread =>
      rw [hthread] at hliving
      refine ⟨⟨h.begun, by simp, fun hreturned => ?_, by simp, fun hnot => ?_⟩, rfl, rfl⟩
      · exact absurd hthread (h.returned hreturned).2
      · exact ⟨(hliving hnot).1, rfl, (hliving hnot).2⟩
  | start hthread hloop =>
      rw [hthread] at hliving
      refine ⟨⟨h.begun, by simp, by simp, by simp, fun hnot => ?_⟩, rfl, rfl⟩
      obtain ⟨hquit, hpublished, -⟩ := hliving hnot
      cases hloop with
      | start => exact ⟨hquit, hpublished, by simp⟩
  | leave hthread hstopped =>
      rw [hthread] at hliving
      exact ⟨⟨h.begun, by simp, by simp, by simp, fun hnot =>
        absurd hstopped (hliving hnot).2.2⟩, rfl, rfl⟩
  | unpublish hthread =>
      rw [hthread] at hliving
      exact ⟨⟨h.begun, by simp, by simp, by simp, fun hnot => (hliving hnot).2.elim⟩, rfl, rfl⟩

theorem Made.startLoopReturn (h : s.Made) (hstep : s.step .startLoopReturn = some t) :
    t.Made ∧ t.starter = .returned := by
  simp only [step, Option.ite_none_right_eq_some, Option.some.injEq] at hstep
  obtain ⟨⟨-, hpublished⟩, rfl⟩ := hstep
  have hthread : s.thread ≠ .construct ∧ s.thread ≠ .publish := by
    constructor <;> intro hwhere
    · exact absurd (h.unpublished (Or.inl hwhere)) (by simp [hpublished])
    · exact absurd (h.unpublished (Or.inr hwhere)) (by simp [hpublished])
  exact ⟨⟨Or.inr rfl, h.unpublished, fun _ => hthread, h.thread, h.living⟩, rfl⟩

end EventLoopThread

namespace EventLoopThreadPool

variable {F : Type u} {s t : EventLoopThreadPool F} {a : Action F} {n : Int} {callback : Bool}
variable {as bs : List (Action F)}

/-! ## Steps -/

theorem onThread_cases {k : Nat} {b : EventLoopThread.Action F} (h : s.onThread k b = some t) :
    ∃ w w', s.threads[k]? = some w ∧ w.step b = some w' ∧
      t = { s with threads := s.threads.set k w' } := by
  obtain ⟨w', hbind, rfl⟩ := Option.map_eq_some_iff.1 h
  obtain ⟨w, hw, hstep⟩ := Option.bind_eq_some_iff.1 hbind
  exact ⟨w, w', hw, hstep, rfl⟩

/-- What a step does. -/
inductive Step (s : EventLoopThreadPool F) : Action F → EventLoopThreadPool F → Prop
  | start (hplace : s.place = .none) : Step s .start { s with place := .test }
  | make {w : EventLoopThread F} (hplace : s.place = .test)
      (hmore : (s.loops.length : Int) < s.threadNum)
      (hstep : EventLoopThread.new.step .startLoop = some w) :
      Step s .iterate { s with threads := s.threads ++ [w], place := .startLoop }
  | leave {calls : Nat} (hplace : s.place = .test) (hdone : s.threadNum ≤ s.loops.length)
      (hcalls : calls =
        if s.threadNum = 0 ∧ s.callback = true then s.baseCalls + 1 else s.baseCalls) :
      Step s .iterate { s with baseCalls := calls, place := .returned }
  | startLoopReturn {w w' : EventLoopThread F} (hplace : s.place = .startLoop)
      (hw : s.threads[s.loops.length]? = some w) (hstep : w.step .startLoopReturn = some w') :
      Step s .startLoopReturn
        { s with
          threads := s.threads.set s.loops.length w'
          loops := s.loops ++ [.ofThread s.loops.length]
          place := .test }
  | thread {k : Nat} {w w' : EventLoopThread F} (hw : s.threads[k]? = some w)
      (hstep : w.step .thread = some w') :
      Step s (.thread k) { s with threads := s.threads.set k w' }
  | loop {k : Nat} {b : EventLoop.Action F} {w w' : EventLoopThread F}
      (hw : s.threads[k]? = some w) (hstep : w.loopStep b = some w') :
      Step s (.loop k b) { s with threads := s.threads.set k w' }
  | getNextLoop {next : Nat} (hnext : next = 0 ∨ next < s.loops.length) :
      Step s .getNextLoop { s with next := next }

theorem step_cases (h : s.step a = some t) (hnext : s.next = 0 ∨ s.next < s.loops.length) :
    Step s a t := by
  cases a with
  | start =>
      simp only [step] at h
      split at h
      · next hplace =>
          obtain rfl := Option.some.inj h
          exact .start hplace
      · exact absurd h (by simp)
  | iterate =>
      simp only [step] at h
      split at h
      · next hplace =>
          unfold iterate at h
          split at h
          · next hmore =>
              obtain ⟨w, hstep, rfl⟩ := Option.map_eq_some_iff.1 h
              exact .make hplace hmore hstep
          · next hdone =>
              obtain rfl := Option.some.inj h
              exact .leave hplace (Int.not_lt.1 hdone) rfl
      · exact absurd h (by simp)
  | startLoopReturn =>
      simp only [step] at h
      split at h
      · next hplace =>
          obtain ⟨u, hu, rfl⟩ := Option.map_eq_some_iff.1 h
          obtain ⟨w, w', hw, hstep, rfl⟩ := onThread_cases hu
          exact .startLoopReturn hplace hw hstep
      · exact absurd h (by simp)
  | thread k =>
      obtain ⟨w, w', hw, hstep, rfl⟩ := onThread_cases h
      exact .thread hw hstep
  | loop k b =>
      obtain ⟨w, w', hw, hstep, rfl⟩ := onThread_cases h
      exact .loop hw hstep
  | getNextLoop =>
      obtain ⟨⟨p, u⟩, hu, rfl⟩ := Option.map_eq_some_iff.1 h
      unfold getNextLoop at hu
      split at hu
      · obtain ⟨-, rfl⟩ := Prod.mk.inj (Option.some.inj hu)
        exact .getNextLoop hnext
      · obtain ⟨p', -, hpair⟩ := Option.map_eq_some_iff.1 hu
        obtain ⟨-, rfl⟩ := Prod.mk.inj hpair
        refine .getNextLoop ?_
        split
        · exact Or.inl rfl
        · omega

/-! ## What every run keeps -/

/-- The threads and the loops at each place of `start`. -/
def AtPlace (s : EventLoopThreadPool F) : Prop :=
  match s.place with
  | .none => s.threads = [] ∧ s.loops = []
  | .test => s.threads.length = s.loops.length
  | .startLoop => s.threads.length = s.loops.length + 1 ∧
      ∃ w, s.threads[s.loops.length]? = some w ∧ w.starter = .waiting
  | .returned => s.threads.length = s.loops.length ∧ s.loops.length = s.threadNum.toNat

structure Inv (s : EventLoopThreadPool F) : Prop where
  made : ∀ w ∈ s.threads, w.Made
  loops : s.loops = (List.range s.loops.length).map .ofThread
  returned : ∀ k < s.loops.length, ∃ w, s.threads[k]? = some w ∧ w.starter = .returned
  place : s.AtPlace
  length : s.threads.length ≤ s.threadNum.toNat
  next : s.next = 0 ∨ s.next < s.loops.length
  baseCalls : s.baseCalls =
    if s.place = .returned ∧ s.threadNum = 0 ∧ s.callback = true then 1 else 0

theorem inv_new : Inv (new F n callback) where
  made := by simp [new]
  loops := rfl
  returned := by simp [new]
  place := ⟨rfl, rfl⟩
  length := Nat.zero_le _
  next := Or.inl rfl
  baseCalls := by simp [new]

/-- Where one thread moves, `StartLoop` has returned for each as before. -/
theorem starter_set {threads : List (EventLoopThread F)} {k i : Nat} {w w' v : EventLoopThread F}
    (hw : threads[k]? = some w) (hstarter : w'.starter = w.starter) (hv : threads[i]? = some v) :
    ∃ v', (threads.set k w')[i]? = some v' ∧ v'.starter = v.starter :=
  Threads.exists_getElem?_set (R := fun v v' => v'.starter = v.starter) (fun _ => rfl) hw hstarter
    hv

theorem Inv.move (h : s.Inv) {k : Nat} {w w' : EventLoopThread F} (hw : s.threads[k]? = some w)
    (hmade : w'.Made) (hstarter : w'.starter = w.starter) :
    Inv { s with threads := s.threads.set k w' } where
  made v hv := (Threads.mem_set hv).elim (h.made v) fun heq => heq ▸ hmade
  loops := h.loops
  returned i hi := by
    obtain ⟨v, hv, hreturned⟩ := h.returned i hi
    obtain ⟨v', hv', hsame⟩ := starter_set hw hstarter hv
    exact ⟨v', hv', hsame.trans hreturned⟩
  place := by
    have hplace := h.place
    unfold AtPlace at hplace ⊢
    simp only [List.length_set]
    split
    · next heq => simp_all
    · next heq => simpa [heq] using hplace
    · next heq =>
        rw [heq] at hplace
        obtain ⟨hlength, v, hv, hwaiting⟩ := hplace
        obtain ⟨v', hv', hsame⟩ := starter_set hw hstarter hv
        exact ⟨hlength, v', hv', hsame.trans hwaiting⟩
    · next heq => simpa [heq] using hplace
  length := by simpa using h.length
  next := h.next
  baseCalls := h.baseCalls

theorem Inv.step (h : s.Inv) (hstep : Step s a t) : t.Inv := by
  have hplace := h.place
  unfold AtPlace at hplace
  cases hstep with
  | start heq =>
      rw [heq] at hplace
      refine ⟨h.made, h.loops, h.returned, ?_, h.length, h.next, ?_⟩
      · simp [AtPlace, hplace]
      · simpa [heq] using h.baseCalls
  | @make w heq hmore hmake =>
      rw [heq] at hplace
      dsimp only at hplace
      obtain ⟨hmade, hwaiting, -⟩ := EventLoopThread.made_startLoop hmake
      refine ⟨fun v hv => ?_, h.loops, fun k hk => ?_, ?_, ?_, h.next, ?_⟩
      · rcases List.mem_append.1 hv with hold | hnew
        · exact h.made v hold
        · rwa [List.mem_singleton.1 hnew]
      · obtain ⟨v, hv, hreturned⟩ := h.returned k hk
        exact ⟨v, by rw [List.getElem?_append_left (Threads.lt_length hv), hv], hreturned⟩
      · refine ⟨by simp [hplace], w, ?_, hwaiting⟩
        rw [← hplace]
        exact List.getElem?_concat_length
      · simp only [List.length_append, List.length_singleton]
        omega
      · simpa [heq] using h.baseCalls
  | @leave calls heq hdone hcalls =>
      rw [heq] at hplace
      dsimp only at hplace
      have hlength := h.length
      refine ⟨h.made, h.loops, h.returned, ⟨hplace, ?_⟩, hlength, h.next, ?_⟩
      · dsimp only
        omega
      · have hbase := h.baseCalls
        rw [if_neg (by simp [heq])] at hbase
        rw [hcalls, hbase]
        simp
  | @startLoopReturn w w' heq hw hreturn =>
      rw [heq] at hplace
      obtain ⟨hlength, v, hv, hwaiting⟩ := hplace
      obtain ⟨hmade, hreturned⟩ := (h.made w (Threads.mem hw)).startLoopReturn hreturn
      have hloops : (s.loops ++ [.ofThread s.loops.length] : List LoopPtr).length
          = s.loops.length + 1 := by simp
      refine ⟨fun v hv => ?_, ?_, fun k hk => ?_, ?_, ?_, ?_, ?_⟩
      · exact (Threads.mem_set hv).elim (h.made v) fun hnew => hnew ▸ hmade
      · dsimp only
        rw [hloops, List.range_succ, List.map_append, ← h.loops]
        rfl
      · rw [hloops] at hk
        by_cases hlast : k = s.loops.length
        · subst hlast
          exact ⟨w', Threads.getElem?_set_self hw, hreturned⟩
        · obtain ⟨u, hu, hold⟩ := h.returned k (by omega)
          exact ⟨u, Threads.getElem?_set_of_ne hu hlast, hold⟩
      · show (s.threads.set _ _).length = (s.loops ++ _).length
        rw [hloops, List.length_set, hlength]
      · simpa using h.length
      · rw [hloops]
        exact h.next.imp_right fun hless => Nat.lt_succ_of_lt hless
      · simpa [heq] using h.baseCalls
  | thread hw hnext =>
      obtain ⟨hmade, hstarter, -⟩ := (h.made _ (Threads.mem hw)).next hnext
      exact h.move hw hmade hstarter
  | loop hw hloop =>
      exact h.move hw ((h.made _ (Threads.mem hw)).loop hloop)
        (EventLoopThread.loopStep_frame hloop).2.2.1
  | getNextLoop hnext =>
      exact ⟨h.made, h.loops, h.returned, h.place, h.length, hnext, h.baseCalls⟩

theorem Step.threadNum_eq (hstep : Step s a t) :
    t.threadNum = s.threadNum ∧ t.callback = s.callback := by
  cases hstep <;> exact ⟨rfl, rfl⟩

theorem inv_of_reaches {ok : EventLoopThreadPool F → Action F → Prop}
    (run : (machine F n callback).Reaches ok as s) :
    s.Inv ∧ s.threadNum = n ∧ s.callback = callback := by
  refine run.invariant (I := fun s => s.Inv ∧ s.threadNum = n ∧ s.callback = callback) ?_ ?_
  · rintro s rfl
    exact ⟨inv_new, rfl, rfl⟩
  · rintro s a t ⟨h, hnum, hcallback⟩ - hstep
    have hcases := step_cases hstep h.next
    obtain ⟨hnum', hcallback'⟩ := hcases.threadNum_eq
    exact ⟨h.step hcases, hnum'.trans hnum, hcallback'.trans hcallback⟩

/-! ## What is in loops_ -/

/-- In every run: no loop is twice in `loops_`, each was constructed and initialized by its thread
    before it came there, and is there as long as nobody asks it to quit. `GetNextLoop` stays inside
    of the vector. When `start` has returned there are as many as were asked for, and `callback` was
    called with `BaseLoop_` only for want of threads. -/
theorem start_ready (run : (machine F n callback).Reaches Machine.anyStep as s) :
    s.loops.Nodup ∧
    (∀ p ∈ s.loops, ∃ k w, p = .ofThread k ∧ s.threads[k]? = some w ∧
      (w.thread ≠ .idle ∧ w.thread ≠ .construct ∧ w.thread ≠ .publish) ∧
      (w.requested = false → w.published = true ∧ (w.thread = .start ∨ w.thread = .looping))) ∧
    (∃ p t, s.getNextLoop = some (p, t) ∧ p ∈ s.allLoops) ∧
    (s.place = .returned → s.loops.length = n.toNat ∧
      s.baseCalls = if n = 0 ∧ callback = true then 1 else 0) := by
  obtain ⟨h, rfl, rfl⟩ := inv_of_reaches run
  refine ⟨?_, fun p hp => ?_, ?_, fun hreturned => ?_⟩
  · rw [h.loops]
    exact List.Nodup.map (fun _ _ heq => LoopPtr.ofThread.inj heq) List.nodup_range
  · rw [h.loops, List.mem_map] at hp
    obtain ⟨k, hk, rfl⟩ := hp
    obtain ⟨w, hw, hreturned⟩ := h.returned k (List.mem_range.1 hk)
    have hmade := h.made w (Threads.mem hw)
    obtain ⟨hconstruct, hpublish⟩ := hmade.returned hreturned
    refine ⟨k, w, rfl, hw, ⟨hmade.thread, hconstruct, hpublish⟩, fun hnot => ?_⟩
    obtain ⟨-, hliving⟩ := hmade.living hnot
    split at hliving
    · next heq => exact absurd heq hconstruct
    · next heq => exact absurd heq hpublish
    · next heq => exact ⟨hliving.1, Or.inl heq⟩
    · next heq => exact ⟨hliving.1, Or.inr heq⟩
    all_goals exact hliving.elim
  · unfold getNextLoop allLoops
    by_cases hempty : s.loops.isEmpty = true
    · rw [if_pos hempty, if_pos hempty]
      exact ⟨_, _, rfl, by simp⟩
    · rw [if_neg hempty, if_neg hempty]
      have hpos : 0 < s.loops.length :=
        List.length_pos_iff.2 fun hnil => hempty (List.isEmpty_iff.2 hnil)
      have hnext : s.next < s.loops.length := h.next.elim (fun hzero => hzero ▸ hpos) id
      exact ⟨_, _, by rw [List.getElem?_eq_getElem hnext]; rfl, List.getElem_mem hnext⟩
  · have hplace := h.place
    rw [AtPlace, hreturned] at hplace
    have hbase := h.baseCalls
    rw [hreturned] at hbase
    simp only [true_and] at hbase
    exact ⟨hplace.2, hbase⟩

/-- Two threads, the first of which is in its loop when the second is made. -/
def twoThreads : List (Action Nat) :=
  [.start, .iterate, .thread 0, .thread 0, .startLoopReturn, .iterate, .thread 0, .thread 1,
    .loop 0 .next, .thread 1, .startLoopReturn, .iterate]

theorem start_ready_twoThreads :
    ∃ s, (machine Nat 2 true).Reaches Machine.anyStep twoThreads s ∧ s.place = .returned ∧
      s.loops.Nodup ∧ s.loops.length = 2 ∧ s.baseCalls = 0 := by
  obtain ⟨s, run, hreturned⟩ := Machine.exists_reaches_of_exec (machine Nat 2 true)
    Machine.anyStep (new Nat 2 true) twoThreads (fun s => s.place = .returned) rfl (by decide)
  obtain ⟨hnodup, -, -, hready⟩ := start_ready run
  exact ⟨s, run, hreturned, hnodup, hready hreturned⟩

/-! ## start returns -/

/-- A step of `start`, or of a thread outside of `start()` of its loop. -/
def Action.ofStart : Action F → Bool
  | .start | .iterate | .startLoopReturn | .thread _ => true
  | .loop _ _ | .getNextLoop => false

/-- A loop quits itself only when `StartLoop` has returned it. -/
def QuitsBehindStart (s : EventLoopThreadPool F) : Action F → Prop
  | .loop k .loopQuit => s.threads[k]?.any (·.starter = .returned) = true
  | _ => True

instance (s : EventLoopThreadPool F) (a : Action F) : Decidable (QuitsBehindStart s a) := by
  unfold QuitsBehindStart
  split <;> infer_instance

/-- The steps that a thread has still to take outside of `start()` of its loop. -/
def stepsLeft (w : EventLoopThread F) : Nat :=
  match w.thread with
  | .idle | .finished => 0
  | .construct => 5
  | .publish => 4
  | .start => 3
  | .looping => 2
  | .unpublish => 1

def Place.left : Place → Nat
  | .none => 3
  | .startLoop => 2
  | .test => 1
  | .returned => 0

def left (s : EventLoopThreadPool F) : Nat :=
  8 * (s.threadNum.toNat - s.threads.length) + (s.threads.map stepsLeft).sum + s.place.left

theorem left_le (s : EventLoopThreadPool F) (hlength : s.threads.length ≤ s.threadNum.toNat) :
    s.left ≤ 8 * s.threadNum.toNat + 3 := by
  have hle : ∀ x ∈ s.threads.map stepsLeft, x ≤ 8 := by
    intro x hx
    obtain ⟨w, -, rfl⟩ := List.mem_map.1 hx
    unfold stepsLeft
    split <;> omega
  have hsum : (s.threads.map stepsLeft).sum ≤ 8 * s.threads.length := by
    simpa [Nat.mul_comm] using List.sum_le_card_nsmul (s.threads.map stepsLeft) 8 hle
  have hplace : s.place.left ≤ 3 := by cases s.place <;> simp [Place.left]
  unfold left
  omega

theorem stepsLeft_lt {w w' : EventLoopThread F} (hstep : w.step .thread = some w') :
    stepsLeft w' < stepsLeft w := by
  cases EventLoopThread.step_cases hstep with
  | construct hthread | publish hthread | start hthread | leave hthread | unpublish hthread =>
      simp [stepsLeft, hthread]

/-- A thread moves. -/
theorem left_set {k : Nat} {w : EventLoopThread F} (hw : s.threads[k]? = some w)
    (w' : EventLoopThread F) :
    left { s with threads := s.threads.set k w' } + stepsLeft w = s.left + stepsLeft w' := by
  have hsum := Threads.sum_map_set stepsLeft hw w'
  simp only [left, List.length_set]
  omega

theorem left_step (h : s.Inv) (hstep : Step s a t) :
    t.left ≤ s.left ∧ (a.ofStart = true → t.left < s.left) := by
  have hplace := h.place
  unfold AtPlace at hplace
  cases hstep with
  | start heq => simp [left, heq, Place.left]
  | @make w heq hmore hmake =>
      rw [heq] at hplace
      dsimp only at hplace
      obtain ⟨-, -, hthread, -⟩ := EventLoopThread.made_startLoop hmake
      have hw : stepsLeft w = 5 := by simp [stepsLeft, hthread]
      simp only [left, heq, Place.left, List.map_append, List.sum_append, List.map_cons,
        List.map_nil, List.sum_cons, List.sum_nil, hw, List.length_append, List.length_singleton]
      omega
  | leave heq => simp [left, heq, Place.left]
  | @startLoopReturn w w' heq hw hreturn =>
      have hsame : stepsLeft w' = stepsLeft w := by
        simp only [EventLoopThread.step, Option.ite_none_right_eq_some, Option.some.injEq]
          at hreturn
        obtain ⟨-, rfl⟩ := hreturn
        rfl
      have hset := left_set hw w'
      simp only [left, heq, Place.left] at hset ⊢
      omega
  | @thread k w w' hw hnext =>
      have hless := stepsLeft_lt hnext
      have hset := left_set hw w'
      omega
  | @loop k b w w' hw hloop =>
      have hsame : stepsLeft w' = stepsLeft w := by
        unfold stepsLeft
        rw [(EventLoopThread.loopStep_frame hloop).1]
      have hset := left_set hw w'
      exact ⟨by omega, fun hstart => absurd hstart (by simp [Action.ofStart])⟩
  | getNextLoop => exact ⟨Nat.le_refl _, fun hstart => absurd hstart (by simp [Action.ofStart])⟩

/-- The threads that `StartLoop` waits for have not been asked to quit. -/
def Unasked (s : EventLoopThreadPool F) : Prop :=
  ∀ w ∈ s.threads, w.starter = .waiting → w.requested = false

theorem Unasked.step (h : s.Unasked) (hinv : s.Inv) (hok : QuitsBehindStart s a)
    (hstep : Step s a t) : t.Unasked := by
  intro v hv hwaiting
  cases hstep with
  | start | leave | getNextLoop => exact h v hv hwaiting
  | make _ _ hmake =>
      rcases List.mem_append.1 hv with hold | hnew
      · exact h v hold hwaiting
      · rw [List.mem_singleton.1 hnew]
        exact (EventLoopThread.made_startLoop hmake).2.2.2
  | startLoopReturn _ hw hreturn =>
      rcases Threads.mem_set hv with hold | rfl
      · exact h v hold hwaiting
      · have hreturned := ((hinv.made _ (Threads.mem hw)).startLoopReturn hreturn).2
        exact absurd hwaiting (by simp [hreturned])
  | thread hw hnext =>
      rcases Threads.mem_set hv with hold | rfl
      · exact h v hold hwaiting
      · obtain ⟨-, hstarter, hrequested⟩ := (hinv.made _ (Threads.mem hw)).next hnext
        exact hrequested.trans (h _ (Threads.mem hw) (hstarter.symm.trans hwaiting))
  | @loop k b w _ hw hloop =>
      rcases Threads.mem_set hv with hold | rfl
      · exact h v hold hwaiting
      · obtain ⟨-, -, hstarter, hrequested⟩ := EventLoopThread.loopStep_frame hloop
        have hwas := hstarter.symm.trans hwaiting
        cases hquits : b.quits with
        | false => exact (hrequested hquits).trans (h _ (Threads.mem hw) hwas)
        | true =>
            obtain ⟨-, -, rfl | hreturned⟩ := EventLoopThread.requested_of_quits hloop hquits
            · have hreturned : w.starter = .returned := by simpa [QuitsBehindStart, hw] using hok
              exact absurd hwas (by simp [hreturned])
            · exact absurd hwas (by simp [hreturned])

theorem unasked_of_reaches (run : (machine F n callback).Reaches QuitsBehindStart as s) :
    s.Unasked := by
  refine (run.invariant (I := fun s => s.Inv ∧ s.Unasked) ?_ ?_).2
  · rintro s rfl
    exact ⟨inv_new, by simp [Unasked, new]⟩
  · rintro s a t ⟨hinv, h⟩ hok hstep
    have hcases := step_cases hstep hinv.next
    exact ⟨hinv.step hcases, h.step hinv hok hcases⟩

/-- Until `start` has returned, it can go on, or the thread that it waits for can. -/
theorem start_goes_on (hinv : s.Inv) (h : s.Unasked) :
    s.place = .returned ∨ ∃ a : Action F, a.ofStart = true ∧ (s.step a).isSome = true := by
  cases hplace : s.place with
  | returned => exact Or.inl rfl
  | none => exact Or.inr ⟨.start, rfl, by simp [step, hplace]⟩
  | test =>
      refine Or.inr ⟨.iterate, rfl, ?_⟩
      simp only [step, hplace, iterate]
      split <;> rfl
  | startLoop =>
      have hat := hinv.place
      rw [AtPlace, hplace] at hat
      obtain ⟨-, w, hw, hwaiting⟩ := hat
      obtain ⟨-, hliving⟩ := (hinv.made w (Threads.mem hw)).living (h w (Threads.mem hw) hwaiting)
      -- before it is published the thread goes on, behind that `StartLoop` does
      have hthread (hgo : (w.step .thread).isSome = true) :
          ∃ a : Action F, a.ofStart = true ∧ (s.step a).isSome = true :=
        ⟨.thread s.loops.length, rfl, by simpa [step, onThread, hw] using hgo⟩
      have hreturn (hpublished : w.published = true) :
          ∃ a : Action F, a.ofStart = true ∧ (s.step a).isSome = true :=
        ⟨.startLoopReturn, rfl, by
          simp [step, hplace, onThread, hw, EventLoopThread.step, hwaiting, hpublished]⟩
      split at hliving
      · next heq => exact Or.inr (hthread (by simp [EventLoopThread.step, heq]))
      · next heq => exact Or.inr (hthread (by simp [EventLoopThread.step, heq]))
      · exact Or.inr (hreturn hliving.1)
      · exact Or.inr (hreturn hliving.1)
      all_goals exact hliving.elim

/-- `start` returns, whatever the loops that it has started do, if none quits before `StartLoop` has
    returned it: from every state, `start` and the threads outside of their loops take `8 n + 3`
    steps at most, and until `start` has returned one of them can be taken. -/
theorem start_returns (run : (machine F n callback).Reaches QuitsBehindStart as s)
    (hmore : (machine F n callback).exec QuitsBehindStart s bs = some t) :
    bs.countP Action.ofStart ≤ 8 * n.toNat + 3 ∧
    (t.place = .returned ∨ ∃ a : Action F, a.ofStart = true ∧ (t.step a).isSome = true) := by
  obtain ⟨hinv, rfl, -⟩ := inv_of_reaches run
  have hkeep : ∀ (s : EventLoopThreadPool F) (a : Action F) (t : EventLoopThreadPool F), s.Inv →
      s.step a = some t → t.Inv := fun s a t h hstep => h.step (step_cases hstep h.next)
  have hcount := Machine.exec_countP_le left Action.ofStart hkeep
    (fun s a _ t h hstep => (left_step h (step_cases hstep h.next)).1)
    (fun s a _ t h hstep => (left_step h (step_cases hstep h.next)).2) hinv hmore
  have hle := s.left_le hinv.length
  refine ⟨by omega, ?_⟩
  have hrun := run.exec_append _ hmore
  exact start_goes_on (inv_of_reaches hrun).1 (unasked_of_reaches hrun)

theorem start_returns_twoThreads :
    ∃ s t : EventLoopThreadPool Nat,
      (machine Nat 2 true).Reaches QuitsBehindStart (twoThreads.take 4) s ∧
      (machine Nat 2 true).exec QuitsBehindStart s (twoThreads.drop 4) = some t ∧
      (twoThreads.drop 4).countP Action.ofStart ≤ 8 * (2 : Int).toNat + 3 ∧
      t.place = .returned := by
  obtain ⟨s, run, hs⟩ := Machine.exists_reaches_of_exec (machine Nat 2 true) QuitsBehindStart
    (new Nat 2 true) (twoThreads.take 4) (fun s =>
      ((machine Nat 2 true).exec QuitsBehindStart s (twoThreads.drop 4)).any
        (fun t => t.place = .returned) = true) rfl (by decide)
  obtain ⟨t, ht, hplace⟩ := (Option.any_eq_true _ _).1 hs
  exact ⟨s, t, run, ht, (start_returns run ht).1, of_decide_eq_true hplace⟩

/-- A loop that quits itself before `StartLoop` has looked for it. -/
def quitsAtOnce : List (Action Nat) :=
  [.start, .iterate, .thread 0, .thread 0, .thread 0, .loop 0 .next, .loop 0 .next,
    .loop 0 (.pollReturn [.other]), .loop 0 .next, .loop 0 .loopQuit, .loop 0 .next, .loop 0 .next,
    .loop 0 .next, .loop 0 .next, .thread 0, .thread 0]

/-- `StartLoop` waits for a pointer that nobody stores any more. -/
theorem start_hangs :
    ∃ s, (machine Nat 1 true).Reaches Machine.anyStep quitsAtOnce s ∧ s.place = .startLoop ∧
      ∀ a : Action Nat, a.ofStart = true → s.step a = none := by
  obtain ⟨s, run, hplace, hloops, hlength, hthread⟩ := Machine.exists_reaches_of_exec
    (machine Nat 1 true) Machine.anyStep (new Nat 1 true) quitsAtOnce (fun s =>
      s.place = .startLoop ∧ s.loops = [] ∧ s.threads.length = 1 ∧
        s.threads.all (fun w => w.thread = .finished ∧ w.published = false) = true) rfl (by decide)
  obtain ⟨w, hw⟩ := List.length_eq_one_iff.1 hlength
  simp only [hw, List.all_cons, List.all_nil, Bool.and_true, decide_eq_true_eq] at hthread
  obtain ⟨hfinished, hpublished⟩ := hthread
  refine ⟨s, run, hplace, fun a ha => ?_⟩
  cases a with
  | loop | getNextLoop => exact absurd ha (by simp [Action.ofStart])
  | start | iterate => simp [step, hplace]
  | startLoopReturn =>
      simp [step, hplace, onThread, hw, hloops, EventLoopThread.step, hpublished]
  | thread k =>
      rcases k with _ | k <;> simp [step, onThread, hw, EventLoopThread.step, hfinished]

end EventLoopThreadPool
