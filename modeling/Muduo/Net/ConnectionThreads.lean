import Muduo.Lib.Machine
import Muduo.Net.TcpConnection

set_option autoImplicit false

/-! # A connection and the threads that use it (`src/net/TcpConnection.cpp`)

`send` and `shutdown` called from any thread. Off the loop thread they test `state_` and queue a
functor; between the two, and until the functor runs, everything else may happen. The functor of a
`send` carries a pointer into the caller's string or `Buffer` and reads it when it runs, so the
memory of the callers is part of the state. The loop runs its functors in the order in which they
were queued, and handles an event between any two of them.

Each load and each store of `state_` is a step of its own where another thread can come between. -/

abbrev Addr := Nat

/-- The memory that belongs to the callers; `none` where nothing is allocated. -/
abbrev Memory := Addr → Option Byte

namespace Memory

/-- The `len` bytes at `data`, if all of them are allocated. -/
def load (memory : Memory) (data : Addr) : (len : Nat) → Option Bytes
  | 0 => some []
  | len + 1 =>
      match memory data, load memory (data + 1) len with
      | some b, some bs => some (b :: bs)
      | _, _ => none

def store (memory : Memory) (a : Addr) (b : Option Byte) : Memory :=
  fun x => if x = a then b else memory x

end Memory

namespace ConnectionThreads

/-- A `send` off the loop thread: the arguments of its `SendInLoop`, whether it is the overload for
    `Buffer *`, and the bytes that the caller's object held when it was called. -/
structure Send where
  data : Addr
  len : Nat
  buffer : Bool
  payload : Bytes
deriving DecidableEq

inductive Functor
  | sendInLoop (send : Send)
  | shutdownInLoop
  | writeComplete
  | highWaterMark (size : Nat)
deriving DecidableEq

/-- Where a call off the loop thread is. -/
inductive Caller
  /-- `state_` was `kConnected`; the functor is queued next. -/
  | sendTested (send : Send)
  /-- `state_` was `kConnected`; it is stored next. -/
  | shutdownTested
  /-- `state_` is stored; the functor is queued next. -/
  | shutdownStored
deriving DecidableEq

/-- Where a call on the loop thread is. -/
inductive LoopCall
  | none
  /-- `shutdown()` found `kConnected`. -/
  | shutdownTested
  /-- `ConnectDestoryed()` found `kConnected`. -/
  | destroyTested
deriving DecidableEq

/-- A `SendInLoop` that has run: what `send` was called with, and the effects; `none` when it read
    memory that was not allocated any more. -/
structure Delivery where
  payload : Bytes
  effects : Option (List TcpConnection.Effect)
deriving DecidableEq

end ConnectionThreads

structure ConnectionThreads where
  conn : TcpConnection
  loopCall : ConnectionThreads.LoopCall
  /-- The functors of the loop that have still to run. -/
  functors : List ConnectionThreads.Functor
  /-- The calls in progress on other threads. -/
  callers : List ConnectionThreads.Caller
  memory : Memory
  /-- The effects of the connection so far. -/
  trace : List TcpConnection.Effect
  /-- The payloads of the `send`s that found `kConnected`. -/
  accepted : List Bytes
  deliveries : List ConnectionThreads.Delivery
  /-- The readable bytes that each `send(Buffer *)` left. -/
  left : List Nat

namespace ConnectionThreads

inductive Action
  /-- `send` off the loop thread, up to the test of `state_`. -/
  | send (data : Addr) (len : Nat) (buffer : Bool)
  /-- `shutdown` off the loop thread, up to the test of `state_`. -/
  | shutdown
  /-- A thread takes the next step of its call. -/
  | goOn (caller : Caller)
  | loopSend (data : Addr) (len : Nat) (buffer : Bool) (w : WriteResult)
  /-- `shutdown` on the loop thread, up to the test of `state_`. -/
  | loopShutdown
  | loopStoreShutdown
  | runFunctor (w : WriteResult)
  | handleWrite (w : WriteResult)
  | handleClose
  /-- `ConnectEstablished` -/
  | connectEstablished
  /-- `ConnectDestoryed`, up to the test of `state_`. -/
  | connectDestoryed
  | storeDisconnected
  /-- A caller changes, allocates or releases a byte of its own. -/
  | store (a : Addr) (b : Option Byte)

/-- The functor that an effect queues. -/
def queuedBy : TcpConnection.Effect → Option Functor
  | .queueWriteComplete => some .writeComplete
  | .queueHighWaterMark size => some (.highWaterMark size)
  | _ => none

/-- A function of the connection has run on the loop thread. -/
def perform (s : ConnectionThreads) (r : TcpConnection × List TcpConnection.Effect) :
    ConnectionThreads :=
  { s with
    conn := r.1
    trace := s.trace ++ r.2
    functors := s.functors ++ r.2.filterMap queuedBy }

/-- `SendInLoop(data, len)` for a `send` that was called with `payload`. -/
def deliver (s : ConnectionThreads) (payload data : Bytes) (w : WriteResult) : ConnectionThreads :=
  { s.perform (s.conn.sendInLoop data w) with
    deliveries := s.deliveries ++ [⟨payload, some (s.conn.sendInLoop data w).2⟩] }

/-- The next step of a call off the loop thread. -/
def callerStep (s : ConnectionThreads) : Caller → ConnectionThreads
  | .sendTested send =>
      { s with
        callers := s.callers.erase (.sendTested send)
        functors := s.functors ++ [.sendInLoop send]
        -- the buffer keeps its bytes
        left := s.left ++ if send.buffer then [send.len] else [] }
  | .shutdownTested =>
      { s with
        callers := .shutdownStored :: s.callers.erase .shutdownTested
        conn := { s.conn with state := .disconnecting } }
  | .shutdownStored =>
      { s with
        callers := s.callers.erase .shutdownStored
        functors := s.functors ++ [.shutdownInLoop] }

/-- The loop runs a functor. -/
def runFunctor (s : ConnectionThreads) (w : WriteResult) : Functor → ConnectionThreads
  | .sendInLoop send =>
      match s.memory.load send.data send.len with
      | some data => s.deliver send.payload data w
      | none => { s with deliveries := s.deliveries ++ [⟨send.payload, none⟩] }
  | .shutdownInLoop => s.perform (s.conn, s.conn.shutdownInLoop)
  | .writeComplete => s
  | .highWaterMark _ => s

/-- A call on the loop thread, when it is in none. -/
def loopStep (s : ConnectionThreads) : Action → Option ConnectionThreads
  | .loopSend data len buffer w =>
      if s.conn.state = .connected then
        (s.memory.load data len).map fun payload =>
          { s.deliver payload payload w with
            accepted := s.accepted ++ [payload]
            -- `RetrieveAll`
            left := s.left ++ if buffer then [0] else [] }
      else some s
  | .loopShutdown =>
      if s.conn.state = .connected then some { s with loopCall := .shutdownTested } else some s
  | .runFunctor w =>
      match s.functors with
      | f :: functors => some ({ s with functors }.runFunctor w f)
      | [] => none
  | .handleWrite w => some (s.perform (s.conn.handleWrite w))
  -- the loop may still hold an event from before the channel was disabled
  | .handleClose =>
      if s.conn.state = .connecting then none else some (s.perform s.conn.handleClose)
  | .connectEstablished =>
      if s.conn.state = .connecting then some (s.perform s.conn.connectEstablished) else none
  | .connectDestoryed =>
      if s.conn.state = .connected then some { s with loopCall := .destroyTested }
      else some (s.perform (s.conn.onChannel Channel.remove))
  | _ => none

def step (s : ConnectionThreads) : Action → Option ConnectionThreads
  | .send data len buffer =>
      if s.conn.state = .connected then
        (s.memory.load data len).map fun payload =>
          { s with
            callers := .sendTested ⟨data, len, buffer, payload⟩ :: s.callers
            accepted := s.accepted ++ [payload] }
      else some s
  | .shutdown =>
      if s.conn.state = .connected then some { s with callers := .shutdownTested :: s.callers }
      else some s
  | .goOn caller => if caller ∈ s.callers then some (s.callerStep caller) else none
  | .loopStoreShutdown =>
      if s.loopCall = .shutdownTested then
        let conn := { s.conn with state := .disconnecting }
        some { s.perform (conn, conn.shutdownInLoop) with loopCall := .none }
      else none
  | .storeDisconnected =>
      if s.loopCall = .destroyTested then
        let s := s.perform s.conn.disconnect
        some { s.perform (s.conn.onChannel Channel.remove) with loopCall := .none }
      else none
  | .store a b => some { s with memory := s.memory.store a b }
  | a => if s.loopCall = .none then s.loopStep a else none

/-- The connection is new, and nobody has called anything. -/
def machine : Machine ConnectionThreads Action where
  init s := (∃ fd connection writeComplete close highWaterMark,
      s.conn = .new fd connection writeComplete close highWaterMark) ∧
    s.loopCall = .none ∧ s.functors = [] ∧ s.callers = [] ∧ s.trace = [] ∧ s.accepted = [] ∧
    s.deliveries = [] ∧ s.left = []
  step := step

end ConnectionThreads
