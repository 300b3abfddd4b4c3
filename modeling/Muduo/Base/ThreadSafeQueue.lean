import Muduo.Lib.Chain
import Muduo.Lib.Machine
import Mathlib.Logic.Function.Basic

set_option autoImplicit false

/-! # ThreadSafeQueue (`include/base/ThreadSafeQueue.ipp`)

A singly linked list of nodes that ends in a node without data, its head under `HeadMutex_` and its
tail under `TailMutex`. The threads are the list of their program counters. What a thread does
between two accesses to what the threads share is one step; `PopHead`, which only touches what
`HeadMutex_` protects, is one step, and so is `tail()`, which is one read under `TailMutex`.

A `std::unique_ptr` that is local to a call is part of the program counter, with what it owns. So
the address of a new node is chosen when the node is linked: any address that is not in use. -/

/-- `node *` -/
abbrev NodePtr := Nat

namespace ThreadSafeQueue

/-- `data` is null, or the value that it points to, or what is left when the value is moved out. -/
structure Node (α : Type) where
  data : Option (Option α)
  next : Option NodePtr
deriving DecidableEq

/-- The functions that pop. -/
inductive Pop
  /-- `WaitPop()` -/
  | waitPop
  /-- `WaitPop(T &value)` -/
  | waitPopValue
  /-- `TryPop()` -/
  | tryPop
  /-- `TryPop(T &value)`. It does not compile where it is used, as it returns its `unique_ptr` for a
      `bool`; what it means to do is here. -/
  | tryPopValue
deriving DecidableEq

/-- It goes through `WaitData`. -/
def Pop.waits : Pop → Bool
  | .waitPop | .waitPopValue => true
  | .tryPop | .tryPopValue => false

/-- It moves the value out of the node under the lock. -/
def Pop.moves : Pop → Bool
  | .waitPopValue | .tryPopValue => true
  | .waitPop | .tryPop => false

/-- Where a thread is. -/
inductive Pc (α : Type)
  /-- Between two calls, with what the last one returned until the caller takes it. -/
  | returned (value : Option α)
  /-- `push`, before `TailMutex` is locked. -/
  | push (value : α)
  /-- Before `tail_->data = NewData`. -/
  | setData (value : α)
  /-- Before `tail_->next = std::move(p)`. -/
  | setNext (value : α)
  /-- Before `tail_ = NewTail`. -/
  | setTail (value : α) (newTail : NodePtr)
  /-- Before `cond_.notify_one()`. -/
  | notifyOne
  /-- Before `TailMutex` is unlocked. -/
  | unlockTail
  /-- Before `HeadMutex_` is locked, by the function or by `cond_.wait` that has been woken up. -/
  | lockHead (pop : Pop)
  /-- Before the call of `tail()`. -/
  | readTail (pop : Pop)
  /-- Before `head_.get()` is compared with what `tail()` has returned. The queue held `seen` then,
      which the code does not know. -/
  | compare (pop : Pop) (tail : NodePtr) (seen : List α)
  /-- The predicate of `cond_.wait` was false, and the wait has not begun. -/
  | block (pop : Pop)
  /-- Blocked in `cond_.wait`. -/
  | blocked (pop : Pop)
  /-- Before `value = std::move(*head_->data)`. -/
  | moveData (pop : Pop)
  /-- Before `PopHead()`, with the value that was moved out. -/
  | popHead (value : Option α)
  /-- Before `HeadMutex_` is unlocked. -/
  | unlockHead (value : Option α) (oldHead : Option (Node α))
  /-- Before the result is made of `OldHead` and `OldHead` is destroyed. -/
  | destroy (value : Option α) (oldHead : Option (Node α))
deriving DecidableEq

end ThreadSafeQueue

structure ThreadSafeQueue (α : Type) where
  heap : NodePtr → Option (ThreadSafeQueue.Node α)
  head : NodePtr
  tail : NodePtr
  /-- The thread that has locked `HeadMutex_`. -/
  headMutex : Option Nat
  /-- The thread that has locked `TailMutex`. -/
  tailMutex : Option Nat
  threads : List (ThreadSafeQueue.Pc α)
  /-- The values pushed, in the order in which the pushes held `TailMutex`. -/
  pushed : List α
  /-- The values popped, in the order in which the pops held `HeadMutex_`. -/
  popped : List α
  /-- For each `TryPop` that has failed, what the queue held when it called `tail()`. -/
  failed : List (List α)

namespace ThreadSafeQueue

variable {α : Type}

/-- The constructor, for `n` threads to use the queue. -/
def new (α : Type) (n : Nat) : ThreadSafeQueue α where
  heap := Function.update (fun _ => none) 0 (some ⟨none, none⟩)
  head := 0
  tail := 0
  headMutex := none
  tailMutex := none
  threads := List.replicate n (.returned none)
  pushed := []
  popped := []
  failed := []

/-- The link of a node. -/
def next (s : ThreadSafeQueue α) (a : NodePtr) : Option NodePtr := (s.heap a).bind Node.next

/-- The `data` of a node. -/
def data (s : ThreadSafeQueue α) (a : NodePtr) : Option (Option α) := (s.heap a).bind Node.data

/-- The data of the nodes from `head_` to `tail_`; the node whose value a pop has moved out counts
    for nothing. There are never more nodes than pushes, and one. -/
def stored (s : ThreadSafeQueue α) : List α :=
  (Chain.walk s.next s.tail (s.pushed.length + 1) s.head).filterMap fun a => (s.data a).join

/-- What has been pushed and not popped. -/
def content (s : ThreadSafeQueue α) : List α := s.pushed.drop s.popped.length

/-! ## Parts of the functions -/

/-- `tail_->data = NewData` -/
def setData (s : ThreadSafeQueue α) (value : α) : ThreadSafeQueue α :=
  { s with
    heap := Function.update s.heap s.tail
      ((s.heap s.tail).map fun node => { node with data := some (some value) }) }

/-- `tail_->next = std::move(p)` -/
def setNext (s : ThreadSafeQueue α) (p : NodePtr) : ThreadSafeQueue α :=
  { s with
    heap := Function.update (Function.update s.heap p (some ⟨none, none⟩)) s.tail
      ((s.heap s.tail).map fun node => { node with next := some p }) }

/-- `tail_ = NewTail` -/
def setTail (s : ThreadSafeQueue α) (value : α) (newTail : NodePtr) : ThreadSafeQueue α :=
  { s with tail := newTail, pushed := s.pushed ++ [value] }

/-- `push(value)` when no other thread uses the queue. -/
def pushAlone (s : ThreadSafeQueue α) (value : α) (p : NodePtr) : ThreadSafeQueue α :=
  ((s.setData value).setNext p).setTail value p

/-- `value = std::move(*head_->data)`; `none` when there is no data. -/
def moveData (s : ThreadSafeQueue α) : Option (α × ThreadSafeQueue α) :=
  match s.heap s.head with
  | some ⟨some (some value), next⟩ =>
      some (value, { s with
        heap := Function.update s.heap s.head (some ⟨some none, next⟩)
        popped := s.popped ++ [value] })
  | _ => none

/-- `PopHead()`; `none` when `head_` would become null. -/
def popHead (s : ThreadSafeQueue α) : Option (Node α × ThreadSafeQueue α) :=
  match s.heap s.head with
  | some ⟨data, some next⟩ =>
      some (⟨data, some next⟩, { s with
        heap := Function.update s.heap s.head none
        head := next
        popped := s.popped ++ data.join.toList })
  | _ => none

/-! ## The steps of the threads -/

def goTo (s : ThreadSafeQueue α) (i : Nat) (pc : Pc α) : ThreadSafeQueue α :=
  { s with threads := s.threads.set i pc }

/-- Wake the thread up if it is blocked. -/
def Pc.woken : Pc α → Pc α
  | .blocked pop => .lockHead pop
  | pc => pc

/-- Blocked in `cond_.wait`. -/
def Pc.waiting : Pc α → Bool
  | .blocked _ => true
  | _ => false

/-- `cond_.notify_one()` wakes up the thread `j`, or nobody when nobody is blocked. -/
def notifyOne (s : ThreadSafeQueue α) (j : Nat) : Option (ThreadSafeQueue α) :=
  if s.threads.any Pc.waiting then
    match s.threads[j]? with
    | some (.blocked pop) => some (s.goTo j (.lockHead pop))
    | _ => none
  else some s

/-- `cond_.notify_all()` -/
def notifyAll (s : ThreadSafeQueue α) : ThreadSafeQueue α :=
  { s with threads := s.threads.map Pc.woken }

/-- The value of a call that ends. -/
def result (value : Option α) (oldHead : Option (Node α)) : Option α :=
  value.or (oldHead.bind fun node => node.data.join)

/-- The thread `i` goes on from `pc`. `choice` is the address of the new node, or the thread that
    `notify_one` wakes up. -/
def goOn (s : ThreadSafeQueue α) (i choice : Nat) : Pc α → Option (ThreadSafeQueue α)
  | .returned _ | .blocked _ => none
  | .push value =>
      if s.tailMutex = none then some ({ s with tailMutex := some i }.goTo i (.setData value))
      else none
  | .setData value => some ((s.setData value).goTo i (.setNext value))
  | .setNext value =>
      if s.heap choice = none then some ((s.setNext choice).goTo i (.setTail value choice))
      else none
  | .setTail value newTail => some ((s.setTail value newTail).goTo i .notifyOne)
  | .notifyOne => (s.notifyOne choice).map fun s => s.goTo i .unlockTail
  | .unlockTail => some ({ s with tailMutex := none }.goTo i (.returned none))
  | .lockHead pop =>
      if s.headMutex = none then some ({ s with headMutex := some i }.goTo i (.readTail pop))
      else none
  | .readTail pop =>
      if s.tailMutex = none then some (s.goTo i (.compare pop s.tail s.content)) else none
  | .compare pop tail seen =>
      if s.head ≠ tail then some (s.goTo i (if pop.moves then .moveData pop else .popHead none))
      else if pop.waits then some (s.goTo i (.block pop))
      else some ({ s with failed := s.failed ++ [seen] }.goTo i (.unlockHead none none))
  | .block pop => some ({ s with headMutex := none }.goTo i (.blocked pop))
  | .moveData _ => s.moveData.map fun (value, s) => s.goTo i (.popHead (some value))
  | .popHead value => s.popHead.map fun (oldHead, s) => s.goTo i (.unlockHead value (some oldHead))
  | .unlockHead value oldHead =>
      some ({ s with headMutex := none }.goTo i (.destroy value oldHead))
  | .destroy value oldHead => some (s.goTo i (.returned (result value oldHead)))

inductive Action (α : Type)
  /-- The thread calls `push(value)`. -/
  | push (i : Nat) (value : α)
  /-- The thread calls a function that pops. -/
  | pop (i : Nat) (pop : Pop)
  /-- The thread goes on. -/
  | next (i choice : Nat)
  /-- `cond_.wait` wakes up by itself. -/
  | wake (i : Nat)
  /-- The caller takes what the call has returned. -/
  | take (i : Nat)
  /-- `NotifyAll()` -/
  | notifyAll
deriving DecidableEq

def step (s : ThreadSafeQueue α) : Action α → Option (ThreadSafeQueue α)
  | .push i value =>
      match s.threads[i]? with
      | some (.returned none) => some (s.goTo i (.push value))
      | _ => none
  | .pop i pop =>
      match s.threads[i]? with
      | some (.returned none) => some (s.goTo i (.lockHead pop))
      | _ => none
  | .next i choice => s.threads[i]?.bind (s.goOn i choice)
  | .wake i =>
      match s.threads[i]? with
      | some (.blocked pop) => some (s.goTo i (.lockHead pop))
      | _ => none
  | .take i =>
      match s.threads[i]? with
      | some (.returned (some _)) => some (s.goTo i (.returned none))
      | _ => none
  | .notifyAll => some s.notifyAll

/-- A queue that `n` threads use. -/
def machine (α : Type) (n : Nat) : Machine (ThreadSafeQueue α) (Action α) where
  init s := s = new α n
  step := step

end ThreadSafeQueue
