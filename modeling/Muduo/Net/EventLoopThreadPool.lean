import Muduo.Net.EventLoopThread

set_option autoImplicit false

/-! # EventLoopThreadPool (`src/net/EventLoopThreadPool.cpp`)

The one call of `start`, and beside it the threads that it has made, each an `EventLoopThread`. A
pointer to a loop is the place of its thread in `threads_`. The names of the threads are left out,
and so is what `callback` does to a loop. -/

universe u

namespace EventLoopThreadPool

/-- `EventLoop *` -/
inductive LoopPtr
  /-- `BaseLoop_` -/
  | base
  | ofThread (k : Nat)
deriving DecidableEq

/-- Where the call of `start` is. -/
inductive Place
  | none
  /-- Before `i < ThreadNum_`. -/
  | test
  /-- In `StartLoop` of the thread made last. -/
  | startLoop
  | returned
deriving DecidableEq

end EventLoopThreadPool

structure EventLoopThreadPool (F : Type u) where
  threadNum : Int
  threads : List (EventLoopThread F)
  loops : List EventLoopThreadPool.LoopPtr
  next : Nat
  /-- Whether `start` was given a callback. -/
  callback : Bool
  /-- How often it has been called with `BaseLoop_`. -/
  baseCalls : Nat
  place : EventLoopThreadPool.Place

namespace EventLoopThreadPool

variable {F : Type u}

/-- The constructor and `SetThreadNum`. -/
def new (F : Type u) (threadNum : Int) (callback : Bool) : EventLoopThreadPool F where
  threadNum := threadNum
  threads := []
  loops := []
  next := 0
  callback := callback
  baseCalls := 0
  place := .none

/-- `GetNextLoop()`; `none` when `loops_[next_]` is outside of the vector. -/
def getNextLoop (s : EventLoopThreadPool F) : Option (LoopPtr × EventLoopThreadPool F) :=
  if s.loops.isEmpty then some (.base, s)
  else
    (s.loops[s.next]?).map fun loop =>
      (loop, { s with next := if s.next + 1 ≥ s.loops.length then 0 else s.next + 1 })

/-- `AllLoops()` -/
def allLoops (s : EventLoopThreadPool F) : List LoopPtr :=
  if s.loops.isEmpty then [.base] else s.loops

inductive Action (F : Type u)
  | start
  /-- The test of the loop in `start`: a thread is made and `StartLoop` called on it, or `start`
      returns. -/
  | iterate
  /-- `StartLoop` returns, and its loop is put into `loops_`. -/
  | startLoopReturn
  /-- A thread takes its next step outside of `start()` of its loop. -/
  | thread (k : Nat)
  /-- A step of a loop, on its thread or on another. -/
  | loop (k : Nat) (a : EventLoop.Action F)
  | getNextLoop

/-- A step of the thread `k`. -/
def onThread (s : EventLoopThreadPool F) (k : Nat) (a : EventLoopThread.Action F) :
    Option (EventLoopThreadPool F) :=
  (s.threads[k]?.bind fun thread => thread.step a).map fun thread =>
    { s with threads := s.threads.set k thread }

/-- The variable `i` of `start` is the length of `loops_`. -/
def iterate (s : EventLoopThreadPool F) : Option (EventLoopThreadPool F) :=
  if (s.loops.length : Int) < s.threadNum then
    (EventLoopThread.new.step .startLoop).map fun thread =>
      { s with threads := s.threads ++ [thread], place := .startLoop }
  else
    let calls := if s.threadNum = 0 ∧ s.callback = true then s.baseCalls + 1 else s.baseCalls
    some { s with baseCalls := calls, place := .returned }

def step (s : EventLoopThreadPool F) : Action F → Option (EventLoopThreadPool F)
  | .start =>
      match s.place with
      | .none => some { s with place := .test }
      | _ => none
  | .iterate =>
      match s.place with
      | .test => s.iterate
      | _ => none
  | .startLoopReturn =>
      match s.place with
      | .startLoop =>
          (s.onThread s.loops.length .startLoopReturn).map fun s =>
            { s with loops := s.loops ++ [.ofThread s.loops.length], place := .test }
      | _ => none
  | .thread k => s.onThread k .thread
  | .loop k a => s.onThread k (.loop a)
  | .getNextLoop => s.getNextLoop.map Prod.snd

def machine (F : Type u) (threadNum : Int) (callback : Bool) :
    Machine (EventLoopThreadPool F) (Action F) where
  init s := s = new F threadNum callback
  step := step

end EventLoopThreadPool
