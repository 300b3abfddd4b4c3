import Muduo.Net.TimerQueue

set_option autoImplicit false

/-! # The events of a TimerQueue (`src/net/TimerQueue.cpp`)

The loop thread executes `AddTimerInLoop`, `CancelTimerInLoop` and `HandleRead`, and a callback that
`HandleRead` runs may add and cancel timers itself. Where the two functions are called from is left
open, so an id may be any that no timer has, and any id may be cancelled.

An entry of `timers_` shares its `Timer` with the batch that `HandleRead` has taken, and `restart`
writes to it: `expiration` is what the `Timer` objects hold, by id. -/

structure TimerEvents where
  queue : TimerQueue
  phase : TimerLoop.Phase
  /-- `expiration_` of the timers. -/
  expiration : TimerID → Timestamp
  /-- The timers that `AddTimerInLoop` was called for, as they were then. -/
  added : List Timer
  /-- The ids that `CancelTimerInLoop` was called for. -/
  targets : List TimerID
  /-- The timers whose callbacks have run, in order. -/
  ran : List TimerID
  /-- Those that have run since `HandleRead` began last. -/
  ranNow : List TimerID

namespace TimerEvents

def new : TimerEvents where
  queue := .new
  phase := .idle
  expiration := fun _ => .zero
  added := []
  targets := []
  ran := []
  ranNow := []

/-- No event is going on, or a callback is running. -/
def Callable (s : TimerEvents) : Bool :=
  match s.phase with
  | .idle | .running _ _ _ => true
  | .resetting _ _ => false

inductive Action
  /-- `AddTimerInLoop(timer)` -/
  | addTimerInLoop (timer : Timer) (pos : Nat)
  /-- `CancelTimerInLoop(timerid)` -/
  | cancelTimerInLoop (timerid : TimerID)
  /-- `HandleRead` begins, up to the first loop. -/
  | handleRead (now : Timestamp)
  /-- The next expired timer runs. -/
  | runTimer
  /-- All have run; `reset` begins. -/
  | beginReset
  | resetTimer (pos : Nat)
  /-- `reset` and `HandleRead` end. -/
  | endReset
deriving DecidableEq

def step (s : TimerEvents) : Action → Option TimerEvents
  | .addTimerInLoop timer pos =>
      if s.Callable ∧ ∀ t ∈ s.added, t.id ≠ timer.id then
        (s.queue.addTimerInLoop timer pos).map fun queue =>
          { s with
            queue
            expiration := Function.update s.expiration timer.id timer.expiration
            added := s.added ++ [timer] }
      else none
  | .cancelTimerInLoop timerid =>
      if s.Callable then
        some { s with
          queue := s.queue.cancelTimerInLoop timerid
          targets := s.targets ++ [timerid] }
      else none
  | .handleRead now =>
      match s.phase with
      | .idle =>
          let (expired, queue) := s.queue.getExpiredTimer now
          some { s with
            queue := { queue with callingExpiredTimers := false }
            phase := .running now expired expired
            ranNow := [] }
      | _ => none
  | .runTimer =>
      match s.phase with
      | .running now expired (e :: rest) =>
          some { s with
            phase := .running now expired rest
            ran := s.ran ++ [e.id]
            ranNow := s.ranNow ++ [e.id] }
      | _ => none
  | .beginReset =>
      match s.phase with
      | .running now expired [] =>
          some { s with
            queue := { s.queue with callingExpiredTimers := false }
            phase := .resetting now expired }
      | _ => none
  | .resetTimer pos =>
      match s.phase with
      | .resetting now (e :: rest) =>
          (s.queue.resetOne e now pos).map fun queue =>
            { s with
              queue
              phase := .resetting now rest
              expiration := match s.queue.restarted e now with
                | some timer => Function.update s.expiration e.id timer.expiration
                | none => s.expiration }
      | _ => none
  | .endReset =>
      match s.phase with
      | .resetting _ [] => some { s with queue := s.queue.rearm, phase := .idle }
      | _ => none

def machine : Machine TimerEvents Action where
  init s := s = .new
  step := step

end TimerEvents
