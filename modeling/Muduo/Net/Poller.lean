import Muduo.Lib.Machine
import Muduo.Net.Channel
import Mathlib.Logic.Function.Basic

set_option autoImplicit false

/-! # The channels of one poller and the kernel's set (`src/net/Poller.cpp`)

What a poller knows of its channels is kept three times: in each channel's `state_`, in `channels_`
and in the epoll instance of the kernel. The functions of `Channel.lean` answer with what they do to
the last two; here it is done to them, for the channels `χ` of one loop.

The kernel is a parameter. All that is asked of it is the documented behaviour of `epoll_ctl` where
it is used as documented: an ADD of a descriptor that is not in the set and a MOD or a DEL of one
that is. What it answers otherwise is left open. -/

universe u

namespace Poller

variable {χ : Type u}

/-! ## The kernel -/

/-- An `epoll_event` given to the kernel: `event.events` and `event.data.ptr`. -/
structure EpollEvent (χ : Type u) where
  events : Events
  ptr : χ
deriving DecidableEq

/-- The set of an epoll instance. -/
abbrev EpollSet (χ : Type u) := Nat → Option (EpollEvent χ)

/-- An ADD is for an absent descriptor, a MOD and a DEL are for a present one. -/
def legal (epoll : EpollSet χ) (op : Op) (fd : Nat) : Bool :=
  match op with
  | .add => (epoll fd).isNone
  | .mod => (epoll fd).isSome
  | .del => (epoll fd).isSome

/-- What a legal operation does to the set. -/
def change (epoll : EpollSet χ) (op : Op) (fd : Nat) (event : EpollEvent χ) : EpollSet χ :=
  match op with
  | .add => Function.update epoll fd (some event)
  | .mod => Function.update epoll fd (some event)
  | .del => Function.update epoll fd none

/-- `epoll_ctl` of a kernel that fails illegal operations only; `none` is the answer `-1`. -/
structure Kernel (χ : Type u) where
  epollCtl : EpollSet χ → Op → Nat → EpollEvent χ → Option (EpollSet χ)
  succeeds (epoll : EpollSet χ) (op : Op) (fd : Nat) (event : EpollEvent χ) :
    legal epoll op fd = true → epollCtl epoll op fd event = some (change epoll op fd event)

/-- A kernel that fails every illegal operation: `EEXIST` and `ENOENT`. -/
def Kernel.strict (χ : Type u) : Kernel χ where
  epollCtl epoll op fd event :=
    if legal epoll op fd = true then some (change epoll op fd event) else none
  succeeds _ _ _ _ h := if_pos h

/-! ## The poller -/

structure Registry (χ : Type u) where
  /-- the channels of the loop -/
  channel : χ → Channel
  /-- `channels_` -/
  channels : Nat → Option χ
  /-- the set behind `epollfd_` -/
  epoll : EpollSet χ
  /-- the calls of `epoll_ctl` so far, and whether each was legal -/
  issued : List (Op × Bool)
  /-- `LOG_FATAL` of `update` -/
  logFatal : Bool

namespace Registry

def hasChannel (s : Registry χ) (channel : χ) : Prop :=
  s.channels (s.channel channel).fd = some channel

/-- One effect of a function of `channel`. -/
def perform (kernel : Kernel χ) (channel : χ) (s : Registry χ) : Effect → Registry χ
  | .setChannel fd => { s with channels := Function.update s.channels fd (some channel) }
  | .eraseChannel fd => { s with channels := Function.update s.channels fd none }
  | .epollCtl op fd events =>
      let s' := { s with issued := s.issued ++ [(op, legal s.epoll op fd)] }
      match kernel.epollCtl s.epoll op fd ⟨events, channel⟩ with
      | some epoll => { s' with epoll := epoll }
      | none => if op = .del then s' else { s' with logFatal := true }

/-- Channels on the descriptors `fd` and a poller, just made. -/
def new (fd : χ → Nat) : Registry χ where
  channel c := .new (fd c)
  channels _ := none
  epoll _ := none
  issued := []
  logFatal := false

end Registry

/-- The functions of a channel that end in the poller. -/
inductive Call
  | enableReading | disableReading | enableWriting | disableWriting | disableAll | remove
deriving DecidableEq

def Call.run : Call → Channel → Channel × List Effect
  | .enableReading => Channel.enableReading
  | .disableReading => Channel.disableReading
  | .enableWriting => Channel.enableWriting
  | .disableWriting => Channel.disableWriting
  | .disableAll => Channel.disableAll
  | .remove => Channel.remove

variable [DecidableEq χ]

namespace Registry

def setChannel (s : Registry χ) (channel : χ) (c : Channel) : Registry χ :=
  { s with channel := Function.update s.channel channel c }

/-- `call` on `channel`. -/
def call (kernel : Kernel χ) (s : Registry χ) (channel : χ) (call : Call) : Registry χ :=
  let (c, effects) := call.run (s.channel channel)
  effects.foldl (perform kernel channel) (s.setChannel channel c)

end Registry

/-- The channels on the descriptors `fd`, called in any order. -/
def machine (kernel : Kernel χ) (fd : χ → Nat) : Machine (Registry χ) (χ × Call) where
  init s := s = .new fd
  step s a := some (s.call kernel a.1 a.2)

end Poller
