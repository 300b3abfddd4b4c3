import Muduo.Net.TimerQueue

set_option autoImplicit false

/-! # From a delay to a timer to the timerfd (`src/net/EventLoop.cpp`, `src/net/TimerQueue.cpp`)

The functions of `EventLoop` that schedule, each as the timer that `AddTimer` makes when
`Timestamp::now()` answers `now` and the timer gets the id `id`; and what `ResetTimerfd` passes to
the kernel. -/

/-- The values of an `int`. -/
def InInt (x : Int) : Prop := -2147483648 ≤ x ∧ x ≤ 2147483647

instance (x : Int) : Decidable (InInt x) :=
  inferInstanceAs (Decidable (-2147483648 ≤ x ∧ x ≤ 2147483647))

/-- `delay * 1000`; an overflow is undefined. -/
def thousandfold (delay : Int) : Option Int :=
  if InInt (delay * 1000) then some (delay * 1000) else none

namespace EventLoop

def runAt (time : Timestamp) (id : TimerID) : Timer := ⟨time, 0, id⟩

def runAfterS (now : Timestamp) (delay : Int) (id : TimerID) : Option Timer :=
  (thousandfold delay).map fun ms => runAt (now.addInt ms) id

def runAfterMs (now : Timestamp) (delay : Int) (id : TimerID) : Timer := runAt (now.addInt delay) id

def runEveryS (now : Timestamp) (delay : Int) (id : TimerID) : Option Timer :=
  (thousandfold delay).map fun ms => ⟨now.addInt ms, ms, id⟩

def runEveryMs (now : Timestamp) (delay : Int) (id : TimerID) : Option Timer :=
  -- the first expiration is computed as for seconds
  (thousandfold delay).map fun ms => ⟨now.addInt ms, delay, id⟩

end EventLoop

/-- `it_value` of a `struct itimerspec`. -/
structure ItValue where
  tv_sec : Int
  tv_nsec : Int
deriving DecidableEq

/-- `ResetTimerfd(timerfd, expiration)`, whose two calls of `Timestamp::now()` answer `now` and
    `later`. -/
def ItValue.reset (expiration now later : Timestamp) : ItValue :=
  let sec := (expiration.sub now).tdiv 1000
  let nsec := (expiration.sub later).tmod 1000
  ⟨sec, nsec * 1000⟩
