import Muduo.Net.EventLoop

set_option autoImplicit false

/-! # EventLoopThread (`src/net/EventLoopThread.cpp`)

The thread that makes an `EventLoop`, publishes its address in `loop_` and runs `start()` on it,
beside `StartLoop`, which waits for the address, the destructor, and the threads that call the loop
through the pointer that `StartLoop` has returned. What happens to the loop itself is a step of
`EventLoop`. -/

namespace EventLoopThread

/-- What `ThreadFunciton` does next. -/
inductive Pc
  /-- The thread has not been started. -/
  | idle
  /-- `EventLoop loop` and `callback_` -/
  | construct
  /-- `loop_ = &loop`, under `mutex_` -/
  | publish
  | start
  /-- In `start()`. -/
  | looping
  /-- `loop_ = nullptr`, under `mutex_` -/
  | unpublish
  | finished
deriving DecidableEq

/-- Where the caller of `StartLoop` is. -/
inductive Starter
  | none
  /-- Waiting for `loop_`. -/
  | waiting
  /-- It has the pointer. -/
  | returned
deriving DecidableEq

/-- Where the destructor is, and the thread that runs it. -/
inductive Destructor
  | none
  /-- `loop_` is not null; `quit()` comes next. -/
  | quit (t : Tid)
  /-- `quit()` is called; `thread_.join()` comes next. -/
  | join (t : Tid)
  | done
deriving DecidableEq

end EventLoopThread

universe u

structure EventLoopThread (F : Type u) where
  loop : EventLoop F
  thread : EventLoopThread.Pc
  /-- `loop_ != nullptr` -/
  published : Bool
  starter : EventLoopThread.Starter
  destructor : EventLoopThread.Destructor
  /-- A `quit()` has stored `quit_`. -/
  requested : Bool
  /-- The polls begun since then, with one that may not have been begun yet. -/
  polls : Nat

namespace EventLoopThread

variable {F : Type u}

def new : EventLoopThread F where
  loop := .new
  thread := .idle
  published := false
  starter := .none
  destructor := .none
  requested := false
  polls := 0

inductive Action (F : Type u)
  /-- `StartLoop`, up to its wait. -/
  | startLoop
  | startLoopReturn
  /-- The next step of `ThreadFunciton` outside of `start()`. -/
  | thread
  /-- A step of the loop, on its thread or on another. -/
  | loop (a : EventLoop.Action F)
  /-- The destructor, up to its test of `loop_`. -/
  | destructor (t : Tid)
  /-- `loop_->quit()`. If the thread has left `start()` since the test, the loop may be destroyed;
      here the call then does no harm. -/
  | destructorQuit
  | destructorJoin

/-- The loop is in `poll`, or just about to be. -/
def atPoll (s : EventLoop F) : Bool :=
  match s.pc with
  | .poll => true
  | _ => false

/-- The loop takes a step that stores `quit_ = true`. -/
def requestQuit (s : EventLoopThread F) (a : EventLoop.Action F) : Option (EventLoopThread F) :=
  (s.loop.step a).map fun loop =>
    { s with
      loop := loop
      requested := true
      polls := if s.requested then s.polls else if atPoll s.loop then 1 else 0 }

/-- The loop takes another step. -/
def onLoop (s : EventLoopThread F) (a : EventLoop.Action F) : Option (EventLoopThread F) :=
  (s.loop.step a).map fun loop =>
    { s with
      loop := loop
      polls := if !atPoll s.loop && atPoll loop then s.polls + 1 else s.polls }

/-- A step of the loop: on its own thread in `start()`, and on another thread with the pointer. -/
def loopStep (s : EventLoopThread F) (a : EventLoop.Action F) : Option (EventLoopThread F) :=
  match a with
  | .append t callback => if s.starter = .returned then s.onLoop (.append t callback) else none
  | .test t => s.onLoop (.test t)
  | .wakeup t => s.onLoop (.wakeup t)
  | .quit t => if s.starter = .returned then s.requestQuit (.quit t) else none
  | .loopQuit => if s.thread = .looping then s.requestQuit .loopQuit else none
  -- only `ThreadFunciton` calls `start()`
  | .start => none
  | a => if s.thread = .looping then s.onLoop a else none

def step (s : EventLoopThread F) : Action F → Option (EventLoopThread F)
  | .startLoop =>
      if s.starter = .none then some { s with starter := .waiting, thread := .construct } else none
  | .startLoopReturn =>
      if s.starter = .waiting ∧ s.published = true then some { s with starter := .returned }
      else none
  | .thread =>
      match s.thread with
      | .idle => none
      | .construct => some { s with thread := .publish }
      | .publish => some { s with published := true, thread := .start }
      | .start => (s.loop.step .start).map fun loop => { s with loop := loop, thread := .looping }
      | .looping =>
          match s.loop.pc with
          | .stopped => some { s with thread := .unpublish }
          | _ => none
      | .unpublish => some { s with published := false, thread := .finished }
      | .finished => none
  | .loop a => s.loopStep a
  | .destructor t =>
      if s.destructor = .none then
        some { s with destructor := if s.published then .quit t else .done }
      else none
  | .destructorQuit =>
      match s.destructor with
      | .quit t => (s.requestQuit (.quit t)).map fun s => { s with destructor := .join t }
      | _ => none
  -- the thread has come back from `quit()`
  | .destructorJoin =>
      match s.destructor with
      | .join t =>
          if s.loop.threads t = .none ∧ s.thread = .finished then
            some { s with destructor := .done }
          else none
      | _ => none

def machine (F : Type u) : Machine (EventLoopThread F) (Action F) where
  init s := s = new
  step := step

end EventLoopThread
