import Mathlib.Data.List.Perm.Subperm
import Muduo.Net.Poller

set_option autoImplicit false

/-! # The poller at work (`src/net/Poller.cpp`, `src/net/EventLoop.cpp`)

`poll` with the vector `events_` that `epoll_wait` fills, and the vector `ActiveChannels_` of the
loop. Which descriptors are ready is up to the environment. Which of them `epoll_wait` reports, and
in what order, when it has no room for all is up to the kernel. The time that `poll` returns is left
out, and so is the length of an `int`. -/

universe u

/-- What is reported of a descriptor that is `ready`: what was asked for, an error and a hang-up. -/
def Events.reported (asked : Events) (ready : Revents) : Revents where
  pollIn := asked.pollIn && ready.pollIn
  pollPri := asked.pollPri && ready.pollPri
  pollOut := asked.pollOut && ready.pollOut
  pollErr := ready.pollErr
  pollHup := ready.pollHup

def Revents.none : Revents := ⟨false, false, false, false, false⟩

namespace Poller

variable {χ : Type u}

/-- An `epoll_event` filled in by the kernel: `events` and `data.ptr`. -/
structure Report (χ : Type u) where
  events : Revents
  ptr : χ
deriving DecidableEq

/-- The report of a descriptor, when there is something to report. -/
def report? (epoll : EpollSet χ) (fd : Nat) (ready : Revents) : Option (Report χ) :=
  (epoll fd).bind fun event =>
    let events := event.events.reported ready
    if events = Revents.none then none else some ⟨events, event.ptr⟩

/-- What `epoll_wait` can report. -/
def reports (epoll : EpollSet χ) (ready : List (Nat × Revents)) : List (Report χ) :=
  ready.filterMap fun (fd, revents) => report? epoll fd revents

end Poller

/-- The poller of a loop and what a round of the loop knows of its channels. -/
structure Polling (χ : Type u) where
  registry : Poller.Registry χ
  /-- `events_.size()` -/
  eventsSize : Nat
  /-- `revents_` of the channels. -/
  revents : χ → Revents
  activeChannels : List χ

namespace Polling

open Poller (Report Registry reports)

/-- `InitEventListSize` -/
def initEventListSize : Nat := 16

variable {χ : Type u} [DecidableEq χ]

def new (fd : χ → Nat) : Polling χ where
  registry := .new fd
  eventsSize := initEventListSize
  revents _ := Revents.none
  activeChannels := []

/-- `FillActiveChannels`, `events` being the first `num` elements of `events_`. -/
def fillActiveChannels (s : Polling χ) (events : List (Report χ)) : Polling χ :=
  events.foldl (fun s event =>
    { s with
      revents := Function.update s.revents event.ptr event.events
      activeChannels := s.activeChannels ++ [event.ptr] }) s

/-- `ActiveChannels_.clear()` and `poll`; `none` is the answer -1 of `epoll_wait`. -/
def poll (s : Polling χ) (answer : Option (List (Report χ))) : Polling χ :=
  let s := { s with activeChannels := [] }
  match answer with
  | none => s
  | some events =>
      if events.length > 0 then
        let s := s.fillActiveChannels events
        if events.length = s.eventsSize then { s with eventsSize := s.eventsSize * 2 } else s
      else s

inductive Action (χ : Type u)
  /-- A function of a channel is called, in a handler or outside. -/
  | call (channel : χ) (call : Poller.Call)
  /-- A round of the loop polls, these descriptors being ready. -/
  | poll (ready : List (Nat × Revents)) (answer : Option (List (Report χ)))

def step (kernel : Poller.Kernel χ) (s : Polling χ) : Action χ → Polling χ
  | .call channel call => { s with registry := s.registry.call kernel channel call }
  | .poll _ answer => s.poll answer

def machine (kernel : Poller.Kernel χ) (fd : χ → Nat) : Machine (Polling χ) (Action χ) where
  init s := s = new fd
  step s a := some (s.step kernel a)

/-- What is documented of `epoll_wait(epfd, events, maxevents, timeout)`: it reports as many as
    there is room for of the descriptors with something to report, each once. -/
def EpollWait (s : Polling χ) : Action χ → Prop
  | .poll ready (some events) =>
      (ready.map Prod.fst).Nodup ∧ events.Subperm (reports s.registry.epoll ready) ∧
        events.length = min s.eventsSize (reports s.registry.epoll ready).length
  | _ => True

instance (s : Polling χ) (a : Action χ) : Decidable (s.EpollWait a) := by
  unfold EpollWait
  split <;> infer_instance

end Polling
