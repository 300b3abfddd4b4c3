import Mathlib.Data.List.Basic

set_option autoImplicit false

/-! # Channel and Poller (`src/net/Channel.cpp`, `src/net/Poller.cpp`)

A channel is the interest of one file descriptor and what the poller knows of it. The functions that
end in the poller answer with the channel they leave and the effects they have outside of it, in
order: the updates of `channels_` and the calls of `epoll_ctl`. -/

/-- The bits of `events_` that the code sets. -/
structure Events where
  pollIn : Bool
  pollPri : Bool
  pollOut : Bool
deriving DecidableEq

namespace Events

/-- `events_ = 0`. -/
def none : Events := ⟨false, false, false⟩

end Events

/-- The bits of `revents_` that are tested. -/
structure Revents where
  pollIn : Bool
  pollPri : Bool
  pollOut : Bool
  pollErr : Bool
  pollHup : Bool
deriving DecidableEq

namespace Poller

/-- `Poller::states`, the values of a channel's `state_`. -/
inductive State
  | new | add | deleted
deriving DecidableEq

/-- The operation of an `epoll_ctl`. -/
inductive Op
  | add | mod | del
deriving DecidableEq

inductive Effect
  /-- `channels_[fd] = channel` -/
  | setChannel (fd : Nat)
  /-- `channels_.erase(fd)` -/
  | eraseChannel (fd : Nat)
  | epollCtl (op : Op) (fd : Nat) (events : Events)
deriving DecidableEq

end Poller

structure Channel where
  fd : Nat
  events : Events
  state : Poller.State
deriving DecidableEq

namespace Channel

/-- The constructor. -/
def new (fd : Nat) : Channel where
  fd := fd
  events := .none
  state := .new

def isWriting (c : Channel) : Bool := c.events.pollOut

def isReading (c : Channel) : Bool := c.events.pollIn || c.events.pollPri

def isNoneEvent (c : Channel) : Bool := decide (c.events = .none)

end Channel

/-! ## The poller's side -/

namespace Poller

/-- `update(operation, channel)`. -/
def update (op : Op) (c : Channel) : List Effect := [.epollCtl op c.fd c.events]

def updateChannel (c : Channel) : Channel × List Effect :=
  match c.state with
  | .new =>
      let known := [.setChannel c.fd]
      let c := { c with state := .add }
      (c, known ++ update .add c)
  | .deleted =>
      let c := { c with state := .add }
      (c, update .add c)
  | .add =>
      if c.isNoneEvent then ({ c with state := .deleted }, update .del c)
      else (c, update .mod c)

def removeChannel (c : Channel) : Channel × List Effect :=
  let deleted := if c.state = .add then update .del c else []
  ({ c with state := .new }, .eraseChannel c.fd :: deleted)

end Poller

/-! ## Changes of interest -/

namespace Channel

/-- `update()`, through the loop. -/
def update (c : Channel) : Channel × List Poller.Effect := Poller.updateChannel c

def enableReading (c : Channel) : Channel × List Poller.Effect :=
  { c with events := { c.events with pollIn := true, pollPri := true } }.update

def disableReading (c : Channel) : Channel × List Poller.Effect :=
  { c with events := { c.events with pollIn := false, pollPri := false } }.update

def enableWriting (c : Channel) : Channel × List Poller.Effect :=
  { c with events := { c.events with pollOut := true } }.update

def disableWriting (c : Channel) : Channel × List Poller.Effect :=
  { c with events := { c.events with pollOut := false } }.update

def disableAll (c : Channel) : Channel × List Poller.Effect :=
  { c with events := .none }.update

def remove (c : Channel) : Channel × List Poller.Effect := Poller.removeChannel c

/-! ## What a change does -/

@[simp] theorem update_events (c : Channel) : c.update.1.events = c.events := by
  unfold update Poller.updateChannel
  split
  · rfl
  · rfl
  · split <;> rfl

@[simp] theorem update_fd (c : Channel) : c.update.1.fd = c.fd := by
  unfold update Poller.updateChannel
  split
  · rfl
  · rfl
  · split <;> rfl

@[simp] theorem isWriting_enableReading (c : Channel) :
    c.enableReading.1.isWriting = c.isWriting := by
  simp [enableReading, isWriting]

@[simp] theorem isWriting_enableWriting (c : Channel) : c.enableWriting.1.isWriting = true := by
  simp [enableWriting, isWriting]

@[simp] theorem isWriting_disableWriting (c : Channel) : c.disableWriting.1.isWriting = false := by
  simp [disableWriting, isWriting]

@[simp] theorem events_disableAll (c : Channel) : c.disableAll.1.events = .none := by
  simp [disableAll]

@[simp] theorem remove_events (c : Channel) : c.remove.1.events = c.events := rfl

end Channel
