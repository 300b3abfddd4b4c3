import Muduo.Lib.Progress
import Muduo.Net.EventLoopThread
import Muduo.Net.Proofs.EventLoop
import Mathlib.Data.Prod.Lex
import Mathlib.Order.WellFounded

set_option autoImplicit false

/-! # Quitting a loop on its thread

`start()` clears `quit_`, and `loop_` is published before `start()` is called. A `quit()` that is
stored behind the clearing is kept: the loop thread begins at most one more poll, is woken up from
it, and leaves `start()`. -/

universe u

namespace EventLoop

variable {F : Type u} {s t : EventLoop F} {a : Action F}

/-- A step that takes the loop thread on. -/
def Action.goesOn : Action F → Bool
  | .next => true
  | .pollReturn _ => true
  | _ => false

/-- How far the end of the iteration is: the point of `start()`, and what is left of a list. -/
def Pc.rank : Pc F → Nat × Nat
  | .stopped => (0, 0)
  | .testQuit => (1, 0)
  | .clearCallable => (2, 0)
  | .callbacks batch => (3, 2 * batch.length)
  | .running batch => (3, 2 * batch.length + 1)
  | .swap => (4, 0)
  | .setCallable => (5, 0)
  | .testFunctors => (6, 0)
  | .dispatch channels => (7, 2 * channels.length)
  | .handling channels => (7, 2 * channels.length + 1)
  | .poll => (8, 0)
  | .clearQuit => (9, 0)

theorem Step.pc_eq (hstep : Step s a t) (hstart : a ≠ .start) (ha : a.goesOn = false) :
    t.pc = s.pc := by
  cases hstep with
  | start hpc => exact absurd rfl hstart
  | append | test | wakeup | quit | loopAppend | loopTest | loopWakeup | loopQuit => rfl
  | _ => exact absurd ha (by simp [Action.goesOn])

/-- With `quit_` set, the loop thread only gets nearer to the end of `start()`. -/
theorem Step.rank_lt (hstep : Step s a t) (ha : a.goesOn = true) (hquit : s.quit = true)
    (hpc : s.pc ≠ .clearQuit) : toLex t.pc.rank < toLex s.pc.rank := by
  rw [Prod.Lex.toLex_lt_toLex]
  cases hstep with
  | append | test | wakeup | quit | loopAppend | loopTest | loopWakeup | loopQuit | start =>
      exact absurd ha (by simp [Action.goesOn])
  | clearQuit h => exact absurd h hpc
  | testQuit h => simp [h, hquit, Pc.rank]
  | pollReturn h | handled h | skipFunctors h | doCallback h | setCallable h | swap h | batchDone h
  | clearCallable h => simp [h, Pc.rank]
  | handleRead h | handle h | handlerReturn h | run h | functorReturn h =>
      simp [h, Pc.rank, Nat.mul_add]

/-- `quit_` is only cleared where `start()` begins. -/
theorem Step.quit_eq (hstep : Step s a t) (hquit : s.quit = true)
    (hpc : a.goesOn = true → s.pc ≠ .clearQuit) : t.quit = true := by
  cases hstep with
  | clearQuit h => exact absurd h (hpc rfl)
  | quit | loopQuit => rfl
  | _ => exact hquit

/-- With `quit_` set, the loop thread does not begin a poll. -/
theorem Step.poll_of_poll (hstep : Step s a t) (hquit : s.quit = true) (hpoll : t.pc = .poll) :
    s.pc = .poll := by
  cases hstep with
  | append | test | wakeup | quit | loopAppend | loopTest | loopWakeup | loopQuit => exact hpoll
  | testQuit h => exact absurd hpoll (by simp [hquit])
  | _ => exact absurd hpoll (by simp)

theorem Step.pc_ne_clearQuit (hstep : Step s a t) (hstart : a ≠ .start) (hpc : s.pc ≠ .clearQuit) :
    t.pc ≠ .clearQuit := by
  cases hstep with
  | start h => exact absurd rfl hstart
  | testQuit h => cases hquit : s.quit <;> simp
  | append | test | wakeup | quit | loopAppend | loopTest | loopWakeup | loopQuit => exact hpc
  | _ => simp

/-- The loop thread does not wait for its own `quit()`. -/
theorem Step.call_ne_quitting (hstep : Step s a t) (h : s.call ≠ .quitting) :
    t.call ≠ .quitting := by
  cases hstep with
  | loopAppend | loopWakeup => simp
  | loopTest hcall => cases hcallable : s.callable <;> simp
  | _ => exact h

/-- Outside of `poll` the next step of `start()` can be taken. -/
theorem exists_advance (hstopped : s.pc ≠ .stopped) (hpoll : s.pc ≠ .poll) :
    ∃ t, s.advance = some t := by
  rw [← Option.isSome_iff_exists]
  unfold advance
  split <;> simp_all

/-- Somebody will write to `wakeupFd_`, or has done so. -/
def QuitWakes (s : EventLoop F) : Prop :=
  s.pc = .poll → 0 < s.wakeupFd ∨ ∃ u, s.threads u = .quitting

/-- A thread that begins or goes on with another call does not take back its `quit()`. -/
theorem QuitWakes.setThread {u : Tid} {call : Call} (h : s.QuitWakes)
    (hcall : s.threads u ≠ .quitting) (hpc : (s.setThread u call).pc = .poll) :
    0 < s.wakeupFd ∨ ∃ v, (s.setThread u call).threads v = .quitting := by
  refine (h hpc).imp_right ?_
  rintro ⟨v, hv⟩
  refine ⟨v, ?_⟩
  rw [setThread_of_ne (by rintro rfl; exact hcall hv)]
  exact hv

theorem QuitWakes.step (h : s.QuitWakes) (hstep : Step s a t) (hquit : s.quit = true) :
    t.QuitWakes := by
  cases hstep with
  | quit hcall => exact fun _ => Or.inr ⟨_, setThread_self⟩
  | wakeup hcall => exact fun _ => Or.inl (write_pos _)
  | @append u callback hcall =>
      have hwakes : QuitWakes (s.emplace callback) := h
      exact hwakes.setThread (by simp [emplace, hcall])
  | test hcall => exact h.setThread (by simp [hcall])
  | loopWakeup hcall => exact fun _ => Or.inl (write_pos _)
  | loopAppend | loopTest | loopQuit => exact h
  | testQuit hpc hcall =>
      intro hpoll
      exact absurd hpoll (by simp [hquit])
  | _ => exact fun hpc => absurd hpc (by simp)

end EventLoop

namespace EventLoopThread

open EventLoop (QuitWakes)

variable {F : Type u} {s t : EventLoopThread F} {a : Action F}

/-! ## What a step does -/

/-- The steps. A step of the loop is one of `EventLoop`. -/
inductive Step (s : EventLoopThread F) : Action F → EventLoopThread F → Prop
  | startLoop (hstarter : s.starter = .none) :
      Step s .startLoop { s with starter := .waiting, thread := .construct }
  | startLoopReturn : Step s .startLoopReturn { s with starter := .returned }
  | construct (hthread : s.thread = .construct) : Step s .thread { s with thread := .publish }
  | publish (hthread : s.thread = .publish) :
      Step s .thread { s with published := true, thread := .start }
  | start {loop : EventLoop F} (hthread : s.thread = .start)
      (hstep : EventLoop.Step s.loop .start loop) :
      Step s .thread { s with loop := loop, thread := .looping }
  | leave (hthread : s.thread = .looping) (hpc : s.loop.pc = .stopped) :
      Step s .thread { s with thread := .unpublish }
  | unpublish (hthread : s.thread = .unpublish) :
      Step s .thread { s with published := false, thread := .finished }
  | request {b : EventLoop.Action F} {loop : EventLoop F}
      (hb : (∃ u, b = .quit u) ∨
        b = .loopQuit ∧ s.thread = .looping ∧ s.loop.inUserCode = true)
      (hstep : EventLoop.Step s.loop b loop) :
      Step s (.loop b)
        { s with
          loop := loop
          requested := true
          polls := if s.requested then s.polls else if atPoll s.loop then 1 else 0 }
  | loop {b : EventLoop.Action F} {loop : EventLoop F} (hstart : b ≠ .start)
      (hb : b.goesOn = true → s.thread = .looping) (hstep : EventLoop.Step s.loop b loop) :
      Step s (.loop b)
        { s with
          loop := loop
          polls := if !atPoll s.loop && atPoll loop then s.polls + 1 else s.polls }
  | destructor {u : Tid} {d : Destructor} : Step s (.destructor u) { s with destructor := d }
  | destructorQuit {u : Tid} {loop : EventLoop F} (hd : s.destructor = .quit u)
      (hstep : EventLoop.Step s.loop (.quit u) loop) :
      Step s .destructorQuit
        { s with
          loop := loop
          requested := true
          polls := if s.requested then s.polls else if atPoll s.loop then 1 else 0
          destructor := .join u }
  | destructorJoin : Step s .destructorJoin { s with destructor := .done }

theorem loopStep_cases {b : EventLoop.Action F} (h : s.loopStep b = some t) :
    Step s (.loop b) t := by
  have honLoop : s.onLoop b = some t → b ≠ .start → (b.goesOn = true → s.thread = .looping) →
      Step s (.loop b) t := by
    intro h hstart hb
    obtain ⟨loop, hloop, rfl⟩ := Option.map_eq_some_iff.1 h
    exact .loop hstart hb (EventLoop.step_cases hloop)
  cases b with
  | append u callback =>
      simp only [loopStep, Option.ite_none_right_eq_some] at h
      exact honLoop h.2 (by simp) (by simp [EventLoop.Action.goesOn])
  | test u => exact honLoop h (by simp) (by simp [EventLoop.Action.goesOn])
  | wakeup u => exact honLoop h (by simp) (by simp [EventLoop.Action.goesOn])
  | quit u =>
      simp only [loopStep, Option.ite_none_right_eq_some] at h
      obtain ⟨loop, hloop, rfl⟩ := Option.map_eq_some_iff.1 h.2
      exact .request (Or.inl ⟨u, rfl⟩) (EventLoop.step_cases hloop)
  | loopQuit =>
      simp only [loopStep, Option.ite_none_right_eq_some] at h
      obtain ⟨loop, hloop, rfl⟩ := Option.map_eq_some_iff.1 h.2
      have huser := hloop
      simp only [EventLoop.step, Option.ite_none_right_eq_some] at huser
      exact .request (Or.inr ⟨rfl, h.1, huser.1.1⟩) (EventLoop.step_cases hloop)
  | start => exact absurd h (by simp [loopStep])
  | _ =>
      simp only [loopStep, Option.ite_none_right_eq_some] at h
      exact honLoop h.2 (by simp) fun _ => h.1

theorem step_cases (h : s.step a = some t) : Step s a t := by
  cases a with
  | startLoop =>
      simp only [step, Option.ite_none_right_eq_some, Option.some.injEq] at h
      obtain ⟨hstarter, rfl⟩ := h
      exact .startLoop hstarter
  | startLoopReturn =>
      simp only [step, Option.ite_none_right_eq_some, Option.some.injEq] at h
      obtain ⟨-, rfl⟩ := h
      exact .startLoopReturn
  | thread =>
      simp only [step] at h
      split at h
      · exact absurd h (by simp)
      · rename_i hthread
        obtain rfl := Option.some.inj h
        exact .construct hthread
      · rename_i hthread
        obtain rfl := Option.some.inj h
        exact .publish hthread
      · rename_i hthread
        obtain ⟨loop, hloop, rfl⟩ := Option.map_eq_some_iff.1 h
        exact .start hthread (EventLoop.step_cases hloop)
      · rename_i hthread
        split at h
        · rename_i hpc
          obtain rfl := Option.some.inj h
          exact .leave hthread hpc
        · exact absurd h (by simp)
      · rename_i hthread
        obtain rfl := Option.some.inj h
        exact .unpublish hthread
      · exact absurd h (by simp)
  | loop b => exact loopStep_cases h
  | destructor u =>
      simp only [step, Option.ite_none_right_eq_some, Option.some.injEq] at h
      obtain ⟨-, rfl⟩ := h
      exact .destructor
  | destructorQuit =>
      simp only [step] at h
      split at h
      · rename_i u hd
        obtain ⟨s', hs', rfl⟩ := Option.map_eq_some_iff.1 h
        obtain ⟨loop, hloop, rfl⟩ := Option.map_eq_some_iff.1 hs'
        exact .destructorQuit hd (EventLoop.step_cases hloop)
      · exact absurd h (by simp)
  | destructorJoin =>
      simp only [step] at h
      split at h
      · simp only [Option.ite_none_right_eq_some, Option.some.injEq] at h
        obtain ⟨-, rfl⟩ := h
        exact .destructorJoin
      · exact absurd h (by simp)

/-! ## What a quit leads to -/

/-- `start()` has stored `quit_ = false`. -/
def cleared (s : EventLoopThread F) : Bool :=
  match s.thread, s.loop.pc with
  | .looping, .clearQuit => false
  | .looping, _ => true
  | .unpublish, _ => true
  | .finished, _ => true
  | _, _ => false

/-- No `quit()` comes before `start()` has cleared `quit_`. -/
def QuitsWhenCleared (s : EventLoopThread F) : Action F → Prop
  | .loop (.quit _) => s.cleared = true
  | .destructorQuit => s.cleared = true
  | _ => True

instance (s : EventLoopThread F) (a : Action F) : Decidable (QuitsWhenCleared s a) := by
  unfold QuitsWhenCleared
  split <;> infer_instance

theorem atPoll_iff {loop : EventLoop F} : atPoll loop = true ↔ loop.pc = .poll := by
  unfold atPoll
  split <;> simp_all

theorem cleared_iff : s.cleared = true ↔
    s.thread = .looping ∧ s.loop.pc ≠ .clearQuit ∨ s.thread = .unpublish ∨
      s.thread = .finished := by
  unfold cleared
  split <;> simp_all

/-- A requested `quit()` is kept. -/
structure Kept (s : EventLoopThread F) : Prop where
  cleared : s.cleared = true
  quit : s.loop.quit = true
  polls : s.polls ≤ 1
  wakes : QuitWakes s.loop

/-- The thread is started by `StartLoop`, once, and quits its loop without a call. -/
structure Began (s : EventLoopThread F) : Prop where
  idle : s.starter = .none → s.thread = .idle
  call : s.loop.call ≠ .quitting

theorem Began.step (h : s.Began) (hstep : Step s a t) : t.Began := by
  have hthread : s.thread ≠ .idle → s.starter ≠ .none := fun hne hnone => hne (h.idle hnone)
  cases hstep with
  | startLoop | startLoopReturn => exact ⟨fun hnone => absurd hnone (by simp), h.call⟩
  | construct hpc | publish hpc | leave hpc | unpublish hpc =>
      exact ⟨fun hnone => absurd hnone (hthread (by simp [hpc])), h.call⟩
  | start hpc hloop =>
      exact ⟨fun hnone => absurd hnone (hthread (by simp [hpc])), hloop.call_ne_quitting h.call⟩
  | request hb hloop => exact ⟨h.idle, hloop.call_ne_quitting h.call⟩
  | loop hstart hb hloop => exact ⟨h.idle, hloop.call_ne_quitting h.call⟩
  | destructorQuit hd hloop => exact ⟨h.idle, hloop.call_ne_quitting h.call⟩
  | destructor | destructorJoin => exact ⟨h.idle, h.call⟩

/-- The step that stores `quit_`. -/
theorem kept_of_request (loop : EventLoop F) (hcleared : s.cleared = true)
    (hpolls : s.requested = true → s.polls ≤ 1) (hpc : loop.pc = s.loop.pc)
    (hquit : loop.quit = true) (hwakes : QuitWakes loop) (d : Destructor) :
    Kept { s with
      loop := loop
      requested := true
      polls := if s.requested then s.polls else if atPoll s.loop then 1 else 0
      destructor := d } := by
  refine ⟨?_, hquit, ?_, hwakes⟩
  · rw [cleared_iff] at hcleared ⊢
    simpa [hpc] using hcleared
  · show (if s.requested then s.polls else if atPoll s.loop then 1 else 0) ≤ 1
    split
    · rename_i hrequested
      exact hpolls hrequested
    · split <;> omega

theorem quitWakes_quit {s t : EventLoop F} {u : Tid} (hstep : EventLoop.Step s (.quit u) t) :
    t.pc = s.pc ∧ t.quit = true ∧ QuitWakes t := by
  cases hstep with
  | quit hcall => exact ⟨rfl, rfl, fun _ => Or.inr ⟨u, EventLoop.setThread_self⟩⟩

theorem Kept.step (h : s.Kept) (hbegan : s.Began) (hstep : Step s a t) : t.Kept := by
  have hcleared := cleared_iff.1 h.cleared
  cases hstep with
  | startLoop hstarter => exact absurd hcleared (by simp [hbegan.idle hstarter])
  | construct hthread | publish hthread | start hthread =>
      exact absurd hcleared (by simp [hthread])
  | leave hthread hpc => exact ⟨rfl, h.quit, h.polls, h.wakes⟩
  | unpublish hthread => exact ⟨rfl, h.quit, h.polls, h.wakes⟩
  | startLoopReturn | destructor | destructorJoin => exact ⟨h.cleared, h.quit, h.polls, h.wakes⟩
  | request hb hloop =>
      refine kept_of_request _ h.cleared (fun _ => h.polls) ?_ ?_ ?_ s.destructor
      · rcases hb with ⟨u, rfl⟩ | ⟨rfl, -⟩
        · exact hloop.pc_eq (by simp) rfl
        · exact hloop.pc_eq (by simp) rfl
      · rcases hb with ⟨u, rfl⟩ | ⟨rfl, -⟩
        · exact hloop.quit_eq h.quit (by simp [EventLoop.Action.goesOn])
        · exact hloop.quit_eq h.quit (by simp [EventLoop.Action.goesOn])
      · exact h.wakes.step hloop h.quit
  | destructorQuit hd hloop =>
      obtain ⟨hpc, hquit, hwakes⟩ := quitWakes_quit hloop
      exact kept_of_request _ h.cleared (fun _ => h.polls) hpc hquit hwakes _
  | @loop b loop hstart hb hloop =>
      have hpc : b.goesOn = true → s.loop.pc ≠ .clearQuit := by
        intro hgoes
        rcases hcleared with ⟨-, hpc⟩ | hthread | hthread
        · exact hpc
        · exact absurd (hb hgoes) (by simp [hthread])
        · exact absurd (hb hgoes) (by simp [hthread])
      refine ⟨?_, hloop.quit_eq h.quit hpc, ?_, h.wakes.step hloop h.quit⟩
      · rw [cleared_iff]
        exact hcleared.imp_left fun hin => ⟨hin.1, hloop.pc_ne_clearQuit hstart hin.2⟩
      · have hnot : (!atPoll s.loop && atPoll loop) = false := by
          cases hpoll : atPoll loop with
          | false => simp
          | true =>
              have hbefore := hloop.poll_of_poll h.quit (atPoll_iff.1 hpoll)
              simp [atPoll_iff.2 hbefore]
        show (if !atPoll s.loop && atPoll loop then s.polls + 1 else s.polls) ≤ 1
        rw [hnot]
        exact h.polls

/-- What guarded runs keep. -/
theorem kept_of_reaches {as : List (Action F)}
    (run : (machine F).Reaches QuitsWhenCleared as s) :
    s.Began ∧ (s.requested = true → s.Kept) := by
  refine run.invariant (I := fun s => s.Began ∧ (s.requested = true → s.Kept)) ?_ ?_
  · intro s hinit
    obtain rfl := hinit
    exact ⟨⟨fun _ => rfl, by simp [new, EventLoop.new]⟩, fun h => absurd h (by simp [new])⟩
  · intro s a t h hok hstep
    obtain ⟨hbegan, hkept⟩ := h
    have hs := step_cases hstep
    refine ⟨hbegan.step hs, ?_⟩
    intro hrequested
    by_cases hbefore : s.requested = true
    · exact (hkept hbefore).step hbegan hs
    have hpolls : s.requested = true → s.polls ≤ 1 := fun h => absurd h hbefore
    cases hs with
    | request hb hloop =>
        rcases hb with ⟨u, rfl⟩ | ⟨rfl, hthread, huser⟩
        · obtain ⟨hpc, hquit, hwakes⟩ := quitWakes_quit hloop
          exact kept_of_request _ hok hpolls hpc hquit hwakes s.destructor
        · -- a handler or a functor is running, so `start()` has been entered
          have hcleared : s.cleared = true := by
            rw [cleared_iff]
            refine Or.inl ⟨hthread, ?_⟩
            intro hpc
            exact absurd huser (by simp [EventLoop.inUserCode, hpc])
          cases hloop with
          | loopQuit =>
              have hwakes : QuitWakes { s.loop with quit := true } := by
                intro hpc
                exact absurd huser (by simp [EventLoop.inUserCode, show s.loop.pc = .poll from hpc])
              exact kept_of_request { s.loop with quit := true } hcleared hpolls rfl rfl hwakes
                s.destructor
    | destructorQuit hd hloop =>
        obtain ⟨hpc, hquit, hwakes⟩ := quitWakes_quit hloop
        exact kept_of_request _ hok hpolls hpc hquit hwakes _
    | _ => exact absurd hrequested hbefore

/-! ## The end of start() -/

/-- A step that takes the thread on. -/
def Action.goesOn : Action F → Bool
  | .thread => true
  | .loop b => b.goesOn
  | _ => false

/-- How far the end of the thread is. -/
def rank (s : EventLoopThread F) : Nat ×ₗ Nat :=
  match s.thread with
  | .finished => toLex (0, 0)
  | .unpublish => toLex (1, 0)
  | _ => toLex (2 + s.loop.pc.rank.1, s.loop.pc.rank.2)

theorem Kept.rank_step (h : s.Kept) (hbegan : s.Began) (hstep : Step s a t) :
    t.rank ≤ s.rank ∧ (a.goesOn = true → t.rank < s.rank) := by
  have hcleared := cleared_iff.1 h.cleared
  have hsame : t.thread = s.thread → t.loop.pc = s.loop.pc → t.rank ≤ s.rank := by
    intro hthread hpc
    unfold rank
    rw [hthread, hpc]
  cases hstep with
  | startLoop hstarter => exact absurd hcleared (by simp [hbegan.idle hstarter])
  | construct hthread | publish hthread | start hthread =>
      exact absurd hcleared (by simp [hthread])
  | leave hthread hpc =>
      have hlt : toLex (1, 0) < toLex (2 + s.loop.pc.rank.1, s.loop.pc.rank.2) :=
        Prod.Lex.toLex_lt_toLex.2 (Or.inl (show 1 < 2 + s.loop.pc.rank.1 by omega))
      unfold rank
      rw [hthread]
      exact ⟨hlt.le, fun _ => hlt⟩
  | unpublish hthread =>
      have hlt : toLex (0, 0) < toLex (1, 0) :=
        Prod.Lex.toLex_lt_toLex.2 (Or.inl (show 0 < 1 by omega))
      unfold rank
      rw [hthread]
      exact ⟨hlt.le, fun _ => hlt⟩
  | startLoopReturn | destructor | destructorJoin =>
      exact ⟨hsame rfl rfl, fun hgoes => absurd hgoes (by simp [Action.goesOn])⟩
  | request hb hloop =>
      rcases hb with ⟨u, rfl⟩ | ⟨rfl, -⟩
      · exact ⟨hsame rfl (hloop.pc_eq (by simp) rfl),
          fun hgoes => absurd hgoes (by simp [Action.goesOn, EventLoop.Action.goesOn])⟩
      · exact ⟨hsame rfl (hloop.pc_eq (by simp) rfl),
          fun hgoes => absurd hgoes (by simp [Action.goesOn, EventLoop.Action.goesOn])⟩
  | destructorQuit hd hloop =>
      exact ⟨hsame rfl (hloop.pc_eq (by simp) rfl),
        fun hgoes => absurd hgoes (by simp [Action.goesOn])⟩
  | @loop b loop hstart hb hloop =>
      cases hgoes : b.goesOn with
      | false =>
          exact ⟨hsame rfl (hloop.pc_eq hstart hgoes),
            fun hgoes' => absurd hgoes' (by simp [Action.goesOn, hgoes])⟩
      | true =>
          have hthread := hb hgoes
          have hpc : s.loop.pc ≠ .clearQuit := by
            rcases hcleared with ⟨-, hpc⟩ | hother | hother
            · exact hpc
            · exact absurd hthread (by simp [hother])
            · exact absurd hthread (by simp [hother])
          have hlt : toLex (2 + loop.pc.rank.1, loop.pc.rank.2) <
              toLex (2 + s.loop.pc.rank.1, s.loop.pc.rank.2) := by
            have hloop := Prod.Lex.toLex_lt_toLex.1 (hloop.rank_lt hgoes h.quit hpc)
            refine Prod.Lex.toLex_lt_toLex.2 (hloop.imp ?_ ?_)
            · intro hlt
              show 2 + loop.pc.rank.1 < 2 + s.loop.pc.rank.1
              omega
            · rintro ⟨heq, hlt⟩
              exact ⟨congrArg (2 + ·) heq, hlt⟩
          unfold rank
          simp only [hthread]
          exact ⟨hlt.le, fun _ => hlt⟩

/-- Until the thread is gone, it can take a step: nothing blocks it. -/
theorem Kept.enabled (h : s.Kept) (hbegan : s.Began) (hthread : s.thread ≠ .finished) :
    ∃ a t, s.step a = some t ∧ (a.goesOn = true ∨ a = .loop .loopTest ∨ a = .loop .loopWakeup) := by
  rcases cleared_iff.1 h.cleared with ⟨hlooping, -⟩ | hunpublish | hfinished
  · have hloop : ∀ (b : EventLoop.Action F) (loop : EventLoop F), s.loop.step b = some loop →
        s.loopStep b = s.onLoop b → ∃ t, s.step (.loop b) = some t := by
      intro b loop hb heq
      simp [EventLoopThread.step, heq, onLoop, hb]
    by_cases hstopped : s.loop.pc = .stopped
    · exact ⟨.thread, { s with thread := .unpublish },
        by simp only [EventLoopThread.step, hlooping, hstopped], Or.inl rfl⟩
    cases hcall : s.loop.call with
    | quitting => exact absurd hcall hbegan.call
    | appended =>
        obtain ⟨t, ht⟩ := hloop .loopTest _ (if_pos hcall)
          (by simp [loopStep, hlooping])
        exact ⟨_, t, ht, Or.inr (Or.inl rfl)⟩
    | waking =>
        obtain ⟨t, ht⟩ := hloop .loopWakeup _ (if_pos hcall)
          (by simp [loopStep, hlooping])
        exact ⟨_, t, ht, Or.inr (Or.inr rfl)⟩
    | none =>
        by_cases hpoll : s.loop.pc = .poll
        · obtain ⟨t, ht⟩ := hloop (.pollReturn []) { s.loop with pc := .dispatch [] }
            (by simp [EventLoop.step, hpoll]) (by simp [loopStep, hlooping])
          exact ⟨_, t, ht, Or.inl rfl⟩
        · obtain ⟨loop, hadvance⟩ := EventLoop.exists_advance hstopped hpoll
          obtain ⟨t, ht⟩ := hloop .next loop (by simp [EventLoop.step, hcall, hadvance])
            (by simp [loopStep, hlooping])
          exact ⟨_, t, ht, Or.inl rfl⟩
  · exact ⟨.thread, { s with published := false, thread := .finished },
      by simp only [EventLoopThread.step, hunpublish], Or.inl rfl⟩
  · exact absurd hfinished hthread

/-- A `quit()` that comes behind the clearing of `quit_` is not lost: `quit_` stays set, the loop
    begins at most one more poll and is woken up from it, and the thread goes on to its end,
    whatever the others do. -/
theorem quit_not_lost {as : List (Action F)} (run : (machine F).Reaches QuitsWhenCleared as s)
    (hrequested : s.requested = true) :
    s.loop.quit = true ∧ s.polls ≤ 1 ∧
      (s.loop.pc = .poll → 0 < s.loop.wakeupFd ∨ ∃ u, s.loop.threads u = .quitting) ∧
      (s.thread ≠ .finished → ∃ a t, s.step a = some t ∧
        (a.goesOn = true ∨ a = .loop .loopTest ∨ a = .loop .loopWakeup)) ∧
      ∀ states labels, (machine F).Continues s states labels →
        ∃ N, ∀ n, N ≤ n → (labels n).goesOn = false := by
  obtain ⟨hbegan, hkept⟩ := kept_of_reaches run
  have h := hkept hrequested
  refine ⟨h.quit, h.polls, h.wakes, h.enabled hbegan, ?_⟩
  intro states labels hrun
  have hfinite : ∃ N, ∀ n, N ≤ n → ¬ (labels n).goesOn = true := by
    refine hrun.finitely_many (I := fun s => s.Began ∧ s.Kept) EventLoopThread.rank
      (fun a => a.goesOn = true) ⟨hbegan, h⟩ ?_ ?_ ?_
    · intro s a t hs hstep
      exact ⟨hs.1.step (step_cases hstep), hs.2.step hs.1 (step_cases hstep)⟩
    · intro s a t hs hstep
      exact (hs.2.rank_step hs.1 (step_cases hstep)).1
    · intro s a t hs hstep
      exact (hs.2.rank_step hs.1 (step_cases hstep)).2
  obtain ⟨N, hN⟩ := hfinite
  refine ⟨N, ?_⟩
  intro n hn
  simpa using hN n hn

/-- `StartLoop` returns while the thread is about to call `start()`. -/
def publishLoop : List (Action Unit) := [.startLoop, .thread, .thread, .startLoopReturn]

/-- A thread quits the loop while it waits in its first poll. -/
theorem quit_not_lost_poll :
    ∃ s, (machine Unit).Reaches QuitsWhenCleared
        (publishLoop ++ [.thread, .loop .next, .loop .next, .loop (.quit 1)]) s ∧
      s.loop.pc = .poll ∧ s.loop.quit = true ∧ s.polls ≤ 1 ∧
      (0 < s.loop.wakeupFd ∨ ∃ u, s.loop.threads u = .quitting) := by
  obtain ⟨s, run, hpoll, hrequested⟩ := (machine Unit).exists_reaches_of_exec QuitsWhenCleared new
    (publishLoop ++ [.thread, .loop .next, .loop .next, .loop (.quit 1)])
    (fun s => s.loop.pc = .poll ∧ s.requested = true) rfl (by decide)
  obtain ⟨hquit, hpolls, hwakes, -⟩ := quit_not_lost run hrequested
  exact ⟨s, run, hpoll, hquit, hpolls, hwakes hpoll⟩

/-- The object is destroyed before the thread calls `start()`, which clears `quit_`: the destructor
    waits for a loop that is in its second poll and has no reason to stop. -/
theorem quit_lost :
    ∃ s, (machine Unit).Reaches Machine.anyStep
        (publishLoop ++ [.destructor 0, .destructorQuit, .loop (.wakeup 0), .thread, .loop .next,
          .loop .next, .loop (.pollReturn [.wakeup])] ++ List.replicate 4 (.loop .next)) s ∧
      s.requested = true ∧ s.destructor = .join 0 ∧ s.loop.threads 0 = .none ∧
      s.thread = .looping ∧ s.loop.pc = .poll ∧ s.loop.wakeupFd = 0 ∧ s.loop.quit = false ∧
      ¬ s.polls ≤ 1 :=
  (machine Unit).exists_reaches_of_exec Machine.anyStep new _ _ rfl (by decide)

end EventLoopThread
