import Muduo.Base.Timestamp
import Muduo.Lib.Machine
import Muduo.Lib.Ordered

set_option autoImplicit false

/-! # Timer and TimerQueue (`src/net/Timer.cpp`, `src/net/TimerQueue.cpp`)

`timers_` is the list of its entries in iteration order. Where `std::set` puts an entry is decided
by `operator<` and by the shape of the tree, so `insert` has the gap that the tree ends in as a
parameter, and answers `none` for a gap that the comparisons exclude. No run makes `2^64` timers, so
an id is a number. -/

abbrev TimerID := Nat

/-- A timer without its callback: what a callback does is a matter of the run. -/
structure Timer where
  expiration : Timestamp
  interval : Int
  id : TimerID
deriving DecidableEq

namespace Timer

/-- `repeat_`, which the constructor sets for good. -/
def repeat_ (t : Timer) : Bool := decide (t.interval > 0)

def restart (t : Timer) (now : Timestamp) : Timer :=
  if t.repeat_ then { t with expiration := now.addInt t.interval }
  else { t with expiration := .zero }

end Timer

structure ExpiredTimer where
  timestamp : Timestamp
  timer : Timer
deriving DecidableEq

namespace ExpiredTimer

/-- `operator<` -/
def lt (e t : ExpiredTimer) : Bool :=
  if e.timestamp < t.timestamp then decide (e.timestamp < t.timestamp)
  else decide (e.timer.id < t.timer.id)

def id (e : ExpiredTimer) : TimerID := e.timer.id

end ExpiredTimer

structure TimerQueue where
  timers : List ExpiredTimer
  callingExpiredTimers : Bool
  cancelTimers : List TimerID
  /-- The deadline that `timerfd_` was last armed with. -/
  armed : Option Timestamp
deriving DecidableEq

namespace TimerQueue

/-- The constructor. -/
def new : TimerQueue where
  timers := []
  callingExpiredTimers := false
  cancelTimers := []
  armed := none

/-- `ResetTimerfd(timerfd_, expiration)` -/
def resetTimerfd (q : TimerQueue) (expiration : Timestamp) : TimerQueue :=
  { q with armed := some expiration }

/-- `insert(timer)`, the entry ending in the gap at `pos`. -/
def insert (q : TimerQueue) (timer : Timer) (pos : Nat) : Option (Bool × TimerQueue) :=
  let expired := timer.expiration
  let earliestChanged := q.timers.head?.all fun first => decide (expired < first.timestamp)
  (Ordered.place ExpiredTimer.lt q.timers ⟨expired, timer⟩ pos).map fun timers =>
    (earliestChanged, { q with timers })

def addTimerInLoop (q : TimerQueue) (timer : Timer) (pos : Nat) : Option TimerQueue :=
  (q.insert timer pos).map fun (earliestChanged, q) =>
    if earliestChanged then q.resetTimerfd timer.expiration else q

def cancelTimerInLoop (q : TimerQueue) (timerid : TimerID) : TimerQueue :=
  if q.timers.any (·.id == timerid) then
    { q with timers := q.timers.eraseP (·.id == timerid) }
  else if q.callingExpiredTimers then
    { q with cancelTimers := q.cancelTimers.insert timerid }
  else q

/-- The timers up to the first later one, and the queue without them. -/
def getExpiredTimer (q : TimerQueue) (now : Timestamp) : List ExpiredTimer × TimerQueue :=
  let notLater := fun (e : ExpiredTimer) => !decide (now < e.timestamp)
  (q.timers.takeWhile notLater, { q with timers := q.timers.dropWhile notLater })

/-- The entry that `reset` inserts for an expired timer. -/
def restarted (q : TimerQueue) (e : ExpiredTimer) (now : Timestamp) : Option Timer :=
  if e.timer.repeat_ ∧ e.id ∉ q.cancelTimers then some (e.timer.restart now) else none

/-- The body of the loop of `reset`. -/
def resetOne (q : TimerQueue) (e : ExpiredTimer) (now : Timestamp) (pos : Nat) :
    Option TimerQueue :=
  match q.restarted e now with
  | some timer => (q.insert timer pos).map Prod.snd
  | none => some q

/-- The end of `reset`. -/
def rearm (q : TimerQueue) : TimerQueue :=
  match q.timers.head? with
  | some first => q.resetTimerfd first.timer.expiration
  | none => q

end TimerQueue

/-! ## A loop and its timers

The loop thread runs queued functors and timer events; `AddTimer` and `cancel` are called from the
loop thread, at any moment between two events or inside a timer callback, and from other threads,
which queue a functor. `HandleRead` is cut at every point where a callback can act. -/

namespace TimerLoop

/-- A functor of the loop. -/
inductive Functor
  | addTimerInLoop (timer : Timer)
  | cancelTimerInLoop (timerid : TimerID)
deriving DecidableEq

/-- Where the loop thread is. -/
inductive Phase
  /-- Between two events. -/
  | idle
  /-- In the first loop of `HandleRead`, with `rest` of the expired timers still to run. -/
  | running (now : Timestamp) (expired rest : List ExpiredTimer)
  /-- In the loop of `reset`, with `rest` still to restart. -/
  | resetting (now : Timestamp) (rest : List ExpiredTimer)
deriving DecidableEq

inductive Event
  /-- The callback of the timer runs. -/
  | ran (timerid : TimerID)
  /-- The event in which `CancelTimerInLoop` was executed for the timer is over. -/
  | settled (timerid : TimerID)
deriving DecidableEq

end TimerLoop

structure TimerLoop where
  queue : TimerQueue
  /-- `Timer::TotalNum_` -/
  totalNum : Nat
  phase : TimerLoop.Phase
  functors : List TimerLoop.Functor
  /-- The timers of `AddTimer` calls of other threads that have not queued their functor yet. -/
  creating : List Timer
  /-- The ids for which `CancelTimerInLoop` was executed in this event. -/
  cancelled : List TimerID
  log : List TimerLoop.Event
deriving DecidableEq

namespace TimerLoop

def new : TimerLoop where
  queue := .new
  totalNum := 0
  phase := .idle
  functors := []
  creating := []
  cancelled := []
  log := []

inductive Action
  /-- `new Timer` in the `AddTimer` of another thread. -/
  | newTimer (countDown : Timestamp) (interval : Int)
  /-- The `AddTimer` of another thread queues its functor and returns. -/
  | queueAdd (timer : Timer)
  /-- `cancel` of another thread. -/
  | queueCancel (timerid : TimerID)
  /-- `AddTimer` on the loop thread. -/
  | addTimer (countDown : Timestamp) (interval : Int) (pos : Nat)
  /-- `cancel` on the loop thread. -/
  | cancel (timerid : TimerID)
  /-- The loop runs its first functor. -/
  | runFunctor (pos : Nat)
  /-- `HandleRead` begins, up to the first loop. -/
  | handleRead (now : Timestamp)
  /-- The next expired timer runs. -/
  | runTimer
  /-- All have run; `reset` begins. -/
  | beginReset
  | resetTimer (pos : Nat)
  /-- `reset` and `HandleRead` end. -/
  | endReset

/-- The timer id has been returned by `AddTimer`. -/
def Returned (s : TimerLoop) (timerid : TimerID) : Prop :=
  0 < timerid ∧ timerid ≤ s.totalNum ∧ ∀ t ∈ s.creating, t.id ≠ timerid

instance (s : TimerLoop) (timerid : TimerID) : Decidable (s.Returned timerid) :=
  inferInstanceAs
    (Decidable (0 < timerid ∧ timerid ≤ s.totalNum ∧ ∀ t ∈ s.creating, t.id ≠ timerid))

/-- User code may act on the loop thread: no event is going on, or a callback is running. -/
def Callable (s : TimerLoop) : Prop :=
  match s.phase with
  | .idle => True
  | .running _ _ _ => True
  | .resetting _ _ => False

instance (s : TimerLoop) : Decidable s.Callable :=
  match h : s.phase with
  | .idle => isTrue (by simp [Callable, h])
  | .running _ _ _ => isTrue (by simp [Callable, h])
  | .resetting _ _ => isFalse (by simp [Callable, h])

/-- `CancelTimerInLoop`; between two events it is an event of its own. -/
def cancelInLoop (s : TimerLoop) (timerid : TimerID) : TimerLoop :=
  let s := { s with queue := s.queue.cancelTimerInLoop timerid }
  if s.phase = .idle then { s with log := s.log ++ [.settled timerid] }
  else { s with cancelled := s.cancelled ++ [timerid] }

def step (s : TimerLoop) : Action → Option TimerLoop
  | .newTimer countDown interval =>
      let timer := ⟨countDown, interval, s.totalNum + 1⟩
      some { s with totalNum := s.totalNum + 1, creating := s.creating ++ [timer] }
  | .queueAdd timer =>
      if timer ∈ s.creating then
        some { s with
          creating := s.creating.erase timer
          functors := s.functors ++ [.addTimerInLoop timer] }
      else none
  | .queueCancel timerid =>
      if s.Returned timerid then
        some { s with functors := s.functors ++ [.cancelTimerInLoop timerid] }
      else none
  | .addTimer countDown interval pos =>
      let timer := ⟨countDown, interval, s.totalNum + 1⟩
      if s.Callable then
        (s.queue.addTimerInLoop timer pos).map fun queue =>
          { s with queue, totalNum := s.totalNum + 1 }
      else none
  | .cancel timerid =>
      if s.Callable ∧ s.Returned timerid then some (s.cancelInLoop timerid) else none
  | .runFunctor pos =>
      match s.phase, s.functors with
      | .idle, .addTimerInLoop timer :: functors =>
          (s.queue.addTimerInLoop timer pos).map fun queue => { s with queue, functors }
      | .idle, .cancelTimerInLoop timerid :: functors =>
          some ({ s with functors }.cancelInLoop timerid)
      | _, _ => none
  | .handleRead now =>
      match s.phase with
      | .idle =>
          let (expired, queue) := s.queue.getExpiredTimer now
          some { s with
            queue := { queue with callingExpiredTimers := false }
            phase := .running now expired expired }
      | _ => none
  | .runTimer =>
      match s.phase with
      | .running now expired (e :: rest) =>
          some { s with phase := .running now expired rest, log := s.log ++ [.ran e.id] }
      | _ => none
  | .beginReset =>
      match s.phase with
      | .running now expired [] =>
          some { s with
            queue := { s.queue with callingExpiredTimers := false }
            phase := .resetting now expired }
      | _ => none
  | .resetTimer pos =>
      match s.phase with
      | .resetting now (e :: rest) =>
          (s.queue.resetOne e now pos).map fun queue =>
            { s with queue, phase := .resetting now rest }
      | _ => none
  | .endReset =>
      match s.phase with
      | .resetting _ [] =>
          some { s with
            queue := s.queue.rearm
            phase := .idle
            cancelled := []
            log := s.log ++ s.cancelled.map .settled }
      | _ => none

def machine : Machine TimerLoop Action where
  init s := s = .new
  step := step

end TimerLoop
