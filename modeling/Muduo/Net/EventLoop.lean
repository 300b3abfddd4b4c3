import Muduo.Lib.Machine

set_option autoImplicit false

/-! # EventLoop (`src/net/EventLoop.cpp`)

A loop thread that runs `start()`, and any number of other threads that call `QueueInLoop` and
`quit`. Every access to what they share is a step of its own: the append under `mutex_`, the test
`!IsInLoopThread() || callable_`, the write to `wakeupFd_`, and each point of `start()` and
`DoCallback()`. Functors are of any type; what a functor does to the loop is a matter of the run. -/

abbrev Tid := Nat

namespace EventLoop

universe u

variable {F : Type u}

/-- A functor in `functors_`, with the pass of `DoCallback` that was executing callbacks when it was
    queued. -/
structure Job (F : Type u) where
  callback : F
  during : Option Nat
deriving DecidableEq

/-- Where a thread is in `QueueInLoop` or `quit`. -/
inductive Call
  | none
  /-- The functor is in `functors_`; the test comes next. -/
  | appended
  /-- `wakeup()` comes next. -/
  | waking
  /-- `quit_` is set; `wakeup()` comes next. -/
  | quitting
deriving DecidableEq

/-- An active channel. -/
inductive Ready
  /-- `WakeupChannel_` -/
  | wakeup
  | other
deriving DecidableEq

/-- The place of the loop thread. -/
inductive Pc (F : Type u)
  /-- Outside of `start()`. -/
  | stopped
  | clearQuit
  | testQuit
  /-- About to wait, or waiting, in `poll`. -/
  | poll
  /-- Between two channels of `ActiveChannels_`. -/
  | dispatch (channels : List Ready)
  /-- In the handler of a channel. -/
  | handling (channels : List Ready)
  | testFunctors
  | setCallable
  | swap
  /-- Between two functors of the batch. -/
  | callbacks (batch : List (Job F))
  /-- In a functor of the batch. -/
  | running (batch : List (Job F))
  | clearCallable
deriving DecidableEq

end EventLoop

universe u

structure EventLoop (F : Type u) where
  functors : List (EventLoop.Job F)
  /-- The counter behind `wakeupFd_`. -/
  wakeupFd : Nat
  callable : Bool
  quit : Bool
  pc : EventLoop.Pc F
  /-- The `QueueInLoop` of the loop thread. -/
  call : EventLoop.Call
  /-- The calls of the other threads. -/
  threads : Tid → EventLoop.Call
  /-- The number of batches taken so far. -/
  pass : Nat
  /-- All functors, in the order in which their appends took `mutex_`. -/
  queued : List (EventLoop.Job F)
  /-- All functors run, each with the pass that ran it. -/
  ran : List (EventLoop.Job F × Nat)

namespace EventLoop

variable {F : Type u}

/-- The constructor. -/
def new : EventLoop F where
  functors := []
  wakeupFd := 0
  callable := false
  quit := false
  pc := .stopped
  call := .none
  threads _ := .none
  pass := 0
  queued := []
  ran := []

inductive Action (F : Type u)
  /-- A thread appends a functor under `mutex_`. -/
  | append (t : Tid) (callback : F)
  /-- `!IsInLoopThread()` holds. -/
  | test (t : Tid)
  | wakeup (t : Tid)
  /-- A thread sets `quit_`. -/
  | quit (t : Tid)
  /-- The loop thread appends a functor, from a handler or from a functor. -/
  | loopAppend (callback : F)
  | loopTest
  | loopWakeup
  /-- `quit()` on the loop thread, which wakes nobody up. -/
  | loopQuit
  /-- `start()` is called. -/
  | start
  /-- `poll` returns with these channels, in this order. -/
  | pollReturn (channels : List Ready)
  /-- The loop thread goes on. -/
  | next

/-- The write of `wakeup()`. Near `2^64` an eventfd takes no more, and an error is logged. -/
def write (counter : Nat) : Nat := if counter < 0xfffffffffffffffe then counter + 1 else counter

/-- The pass whose callbacks are being executed. -/
def executing (s : EventLoop F) : Option Nat :=
  match s.pc with
  | .callbacks _ => some s.pass
  | .running _ => some s.pass
  | .clearCallable => some s.pass
  | _ => none

/-- `functors_.emplace_back(callback)` -/
def emplace (s : EventLoop F) (callback : F) : EventLoop F :=
  { s with
    functors := s.functors ++ [⟨callback, s.executing⟩]
    queued := s.queued ++ [⟨callback, s.executing⟩] }

def setThread (s : EventLoop F) (t : Tid) (call : Call) : EventLoop F :=
  { s with threads := fun u => if u = t then call else s.threads u }

/-- A handler or a functor is running on the loop thread. -/
def inUserCode (s : EventLoop F) : Bool :=
  match s.pc with
  | .handling _ => true
  | .running _ => true
  | _ => false

/-- The next step of `start()`. -/
def advance (s : EventLoop F) : Option (EventLoop F) :=
  match s.pc with
  | .stopped => none
  | .clearQuit => some { s with quit := false, pc := .testQuit }
  | .testQuit => some { s with pc := if s.quit then .stopped else .poll }
  | .poll => none
  | .dispatch [] => some { s with pc := .testFunctors }
  -- `HandleRead` reads the counter away
  | .dispatch (.wakeup :: channels) => some { s with wakeupFd := 0, pc := .dispatch channels }
  | .dispatch (.other :: channels) => some { s with pc := .handling channels }
  | .handling channels => some { s with pc := .dispatch channels }
  | .testFunctors => some { s with pc := if s.functors.isEmpty then .testQuit else .setCallable }
  | .setCallable => some { s with callable := true, pc := .swap }
  | .swap => some { s with functors := [], pc := .callbacks s.functors, pass := s.pass + 1 }
  | .callbacks [] => some { s with pc := .clearCallable }
  | .callbacks (job :: batch) =>
      some { s with pc := .running batch, ran := s.ran ++ [(job, s.pass)] }
  | .running batch => some { s with pc := .callbacks batch }
  | .clearCallable => some { s with callable := false, pc := .testQuit }

def step (s : EventLoop F) : Action F → Option (EventLoop F)
  | .append t callback =>
      if s.threads t = .none then some ((s.emplace callback).setThread t .appended) else none
  | .test t => if s.threads t = .appended then some (s.setThread t .waking) else none
  | .wakeup t =>
      if s.threads t = .waking ∨ s.threads t = .quitting then
        some ({ s with wakeupFd := write s.wakeupFd }.setThread t .none)
      else none
  | .quit t =>
      if s.threads t = .none then some ({ s with quit := true }.setThread t .quitting) else none
  | .loopAppend callback =>
      if s.inUserCode ∧ s.call = .none then some { s.emplace callback with call := .appended }
      else none
  | .loopTest =>
      if s.call = .appended then some { s with call := if s.callable then .waking else .none }
      else none
  | .loopWakeup =>
      if s.call = .waking then some { s with wakeupFd := write s.wakeupFd, call := .none } else none
  | .loopQuit => if s.inUserCode ∧ s.call = .none then some { s with quit := true } else none
  | .start =>
      match s.pc with
      | .stopped => some { s with pc := .clearQuit }
      | _ => none
  -- `epoll_wait` reports `wakeupFd_` only when the counter is positive
  | .pollReturn channels =>
      match s.pc with
      | .poll =>
          if Ready.wakeup ∈ channels → 0 < s.wakeupFd then some { s with pc := .dispatch channels }
          else none
      | _ => none
  | .next => if s.call = .none then s.advance else none

def machine (F : Type u) : Machine (EventLoop F) (Action F) where
  init s := s = .new
  step := step

end EventLoop
