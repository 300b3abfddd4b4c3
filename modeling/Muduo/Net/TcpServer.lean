import Muduo.Lib.Machine
import Muduo.Net.Address
import Muduo.Net.TcpConnection
import Mathlib.Logic.Function.Basic

set_option autoImplicit false

/-! # TcpServer (`src/net/TcpServer.cpp`, `src/net/EventLoop.cpp`, `src/net/Channel.cpp`)

A server, the loops it runs on, its connections and the threads that use them. A loop thread is
what it has still to do: its place in `start()`, and above it the functions that are in progress,
innermost first. Everything that holds a `TcpConnectionPtr` is in the state: the entries of
`connections_`, the functors that were bound to one, the functions in progress and the copies of the
users. A connection that nothing holds is dead.

The functors of `SendInLoop` and `ShutdownInLoop` are bound to `this` and hold nothing. What bytes a
`SendInLoop` finds when it runs is left open here, and so is everything the kernel answers.

A thread that goes on with a freed object, be it a dead connection or a server that is gone, is at
fault, and nothing follows. The loops of the pool are not destroyed here: their threads may do more
than they do before they are joined. -/

abbrev LoopId := Nat

/-- Connections are named by the value of `NextConnectionId_` that they were made with. -/
abbrev ConnId := Nat

namespace TcpServer

/-! ## The loops -/

inductive Functor
  | connectEstablished (c : ConnId)
  | connectDestoryed (c : ConnId)
  | removeConnectionInLoop (c : ConnId)
  | writeComplete (c : ConnId)
  | highWaterMark (c : ConnId) (size : Nat)
  /-- Bound to `this`, and so is the next one. -/
  | sendInLoop (c : ConnId)
  | shutdownInLoop (c : ConnId)
  /-- A functor of the users. -/
  | other
deriving DecidableEq

/-- An active channel. For a connection: whether `POLLIN` or `POLLPRI` and whether `POLLOUT` is
    among its `revents_`. -/
inductive Active
  | connection (c : ConnId) (readable writable : Bool)
  | acceptor
  | other
deriving DecidableEq

/-- The place in `start()`. -/
inductive Phase
  /-- In `poll`, or outside of `start()`. -/
  | poll
  /-- The rest of the pass over `ActiveChannels_`. -/
  | channels (active : List Active)
  /-- In `DoCallback`: the functors of `fun` that have run and those that have not. -/
  | callbacks (done todo : List Functor)
deriving DecidableEq

/-- A function in progress on a loop thread. -/
inductive Frame
  /-- `HandleEvent` with its guard: which of the two callbacks are still to be called. -/
  | handleEvent (c : ConnId) (readable writable : Bool)
  /-- `state_` is stored and the channel is updated; `ConnectionCallback_` is called next. -/
  | announce (c : ConnId)
  /-- Code of the users, in a callback of the connection. -/
  | callback (c : ConnId)
  /-- `HandleClose`, up to the call of `CloseCallback_`. -/
  | closeCallback (c : ConnId)
  /-- `ConnectDestoryed`, up to its test. -/
  | connectDestoryed (c : ConnId)
  /-- `ConnectDestoryed` found `kConnected`. -/
  | disconnect (c : ConnId)
  /-- `ConnectDestoryed`, up to `channel_->remove()`. -/
  | remove (c : ConnId)
  /-- `SendInLoop`, called by its functor, and whether its work is done. -/
  | sendInLoop (c : ConnId) (done : Bool)
  | shutdownInLoop (c : ConnId) (done : Bool)
  /-- Code of the users elsewhere. -/
  | userCode
  /-- The loop of `~TcpServer`. -/
  | destructor
deriving DecidableEq

/-- What the server is about in an `EventLoop` and its thread. -/
structure Loop where
  functors : List Functor
  phase : Phase
  stack : List Frame
deriving DecidableEq

/-- Where a call of another thread is. -/
inductive Caller
  /-- `state_` was `kConnected`; the functor is queued next. -/
  | sendTested
  /-- `state_` was `kConnected`; it is stored next. -/
  | shutdownTested
  /-- `state_` is stored; the functor is queued next. -/
  | shutdownStored
deriving DecidableEq

/-- What a connection went through. -/
inductive Milestone
  | handleClose
  /-- `ConnectDestoryed` is called, during a pass over `ActiveChannels_` or not. -/
  | connectDestoryed (inPass : Bool)
  /-- `ConnectDestoryed` has returned. -/
  | destroyed
deriving DecidableEq

/-- What does not change: constant members, the loops and which callbacks are set. -/
structure Config where
  name : List Char
  listenAddr : Address
  /-- `loop_` -/
  loop : LoopId
  /-- `loops_` of the pool -/
  loops : List LoopId
  connectionCallback : Bool
  writeCompleteCallback : Bool
  /-- Set by the users on each connection, or not. -/
  highWaterMarkCallback : Bool

end TcpServer

structure TcpServer where
  /-- `connections_` -/
  connections : List (List Char × ConnId)
  nextConnectionId : Nat
  /-- `next_` of the pool -/
  next : Nat
  /-- `~TcpServer` was called. -/
  destructed : Bool
  loops : LoopId → TcpServer.Loop
  /-- `channels_` of the poller of each loop -/
  channels : LoopId → Nat → Option ConnId
  conn : ConnId → TcpConnection
  /-- `loop_` of each connection -/
  loop : ConnId → LoopId
  /-- The copies that the users hold, in any thread. -/
  users : List ConnId
  /-- The calls in progress on other threads, each with the copy that it is made through. -/
  callers : List (ConnId × TcpServer.Caller)
  /-- The values of `state_` at the calls of `ConnectionCallback_`. -/
  announced : ConnId → List TcpConnection.State
  life : ConnId → List TcpServer.Milestone
  /-- Each `RemoveConnectionInLoop` with the connections that it erased from `connections_`. -/
  erased : List (ConnId × List ConnId)
  /-- A freed object was used. -/
  fault : Bool

namespace TcpServer

/-- The constructor. -/
def new : TcpServer where
  connections := []
  nextConnectionId := 1
  next := 0
  destructed := false
  loops _ := ⟨[], .poll, []⟩
  channels _ _ := none
  conn _ := .new 0 false false false false
  loop _ := 0
  users := []
  callers := []
  announced _ := []
  life _ := []
  erased := []
  fault := false

/-! ## Owners -/

/-- The connection of which a functor holds a `TcpConnectionPtr`. -/
def Functor.holds : Functor → Option ConnId
  | .connectEstablished c => some c
  | .connectDestoryed c => some c
  | .removeConnectionInLoop c => some c
  | .writeComplete c => some c
  | .highWaterMark c _ => some c
  | .sendInLoop _ => none
  | .shutdownInLoop _ => none
  | .other => none

/-- The connection that a functor is bound to without holding it. -/
def Functor.bindsThis : Functor → Option ConnId
  | .sendInLoop c => some c
  | .shutdownInLoop c => some c
  | _ => none

/-- The connection that a function in progress is about. -/
def Frame.subject : Frame → Option ConnId
  | .handleEvent c _ _ => some c
  | .announce c => some c
  | .callback c => some c
  | .closeCallback c => some c
  | .connectDestoryed c => some c
  | .disconnect c => some c
  | .remove c => some c
  | .sendInLoop c _ => some c
  | .shutdownInLoop c _ => some c
  | .userCode => none
  | .destructor => none

/-- The connection that a function in progress works on without holding it. -/
def Frame.bindsThis : Frame → Option ConnId
  | .sendInLoop c _ => some c
  | .shutdownInLoop c _ => some c
  | _ => none

/-- The connection that a function in progress holds: the guard of `HandleEvent`, `self` of
    `HandleClose`, the argument of a callback, or the functor that the function was called by. -/
def Frame.holds (f : Frame) : Option ConnId := if f.bindsThis.isSome then none else f.subject

/-- The functors that `DoCallback` has still to run. -/
def Phase.todo : Phase → List Functor
  | .callbacks _ todo => todo
  | _ => []

/-- The functors that `DoCallback` keeps until it returns. -/
def Phase.functors : Phase → List Functor
  | .callbacks done todo => done ++ todo
  | _ => []

/-- The rest of the pass over `ActiveChannels_`. -/
def Phase.active : Phase → List Active
  | .channels active => active
  | _ => []

def Loop.owns (loop : Loop) (c : ConnId) : Bool :=
  (loop.functors ++ loop.phase.functors).any (·.holds = some c) ||
    loop.stack.any (·.holds = some c)

/-- `connections_`, a functor or a function in progress holds the connection. -/
def held (cfg : Config) (s : TcpServer) (c : ConnId) : Bool :=
  s.connections.any (·.2 = c) || (cfg.loop :: cfg.loops).any fun l => (s.loops l).owns c

/-- The users hold the connection. -/
def used (s : TcpServer) (c : ConnId) : Bool :=
  s.users.any (· = c) || s.callers.any (·.1 = c)

def dead (cfg : Config) (s : TcpServer) (c : ConnId) : Bool := !(s.held cfg c || s.used c)

/-- `~TcpServer` has returned. -/
def gone (cfg : Config) (s : TcpServer) : Bool :=
  s.destructed && !(s.loops cfg.loop).stack.contains .destructor

/-! ## Steps of a loop thread -/

namespace Loop

def queue (loop : Loop) (functors : List Functor) : Loop :=
  { loop with functors := loop.functors ++ functors }

def push (loop : Loop) (frames : List Frame) : Loop :=
  { loop with stack := frames ++ loop.stack }

def setStack (loop : Loop) (stack : List Frame) : Loop := { loop with stack := stack }

def setPhase (loop : Loop) (phase : Phase) : Loop := { loop with phase := phase }

/-- The end of a pass: `if (!functors_.empty()) DoCallback();`, up to the swap. -/
def doCallback (loop : Loop) : Loop :=
  if loop.functors.isEmpty then loop.setPhase .poll
  else { loop with functors := [], phase := .callbacks [] loop.functors }

/-- Whether the thread is in the pass over `ActiveChannels_`. -/
def inPass (loop : Loop) : Bool :=
  match loop.phase with
  | .channels _ => true
  | _ => false

/-- Code of the users is running on the thread. -/
def inUserCode (loop : Loop) : Bool :=
  match loop.stack with
  | .callback _ :: _ => true
  | .userCode :: _ => true
  | _ => false

end Loop

def onLoop (s : TcpServer) (l : LoopId) (f : Loop → Loop) : TcpServer :=
  { s with loops := Function.update s.loops l (f (s.loops l)) }

/-- `QueueInLoop`. The wakeup is a matter of `EventLoop.lean`. -/
def queueInLoop (s : TcpServer) (l : LoopId) (f : Functor) : TcpServer := s.onLoop l (·.queue [f])

/-! ## Functions of a connection -/

/-- The functor that an effect queues. -/
def queuedBy (c : ConnId) : TcpConnection.Effect → Option Functor
  | .queueWriteComplete => some (.writeComplete c)
  | .queueHighWaterMark size => some (.highWaterMark c size)
  | _ => none

/-- The call that an effect stands for. -/
def calledBy (c : ConnId) : TcpConnection.Effect → Option Frame
  | .connectionCallback => some (.announce c)
  | .closeCallback => some (.closeCallback c)
  | _ => none

/-- What an effect does to `channels_`. -/
def register (c : ConnId) (channels : Nat → Option ConnId) :
    TcpConnection.Effect → Nat → Option ConnId
  | .poller (.setChannel fd) => Function.update channels fd (some c)
  | .poller (.eraseChannel fd) => Function.update channels fd none
  | _ => channels

/-- A function of `c` has run on its loop thread, up to the first of the callbacks it calls. -/
def perform (s : TcpServer) (c : ConnId) (r : TcpConnection × List TcpConnection.Effect) :
    TcpServer :=
  { s with
    conn := Function.update s.conn c r.1
    channels := Function.update s.channels (s.loop c)
      (r.2.foldl (register c) (s.channels (s.loop c))) }.onLoop (s.loop c) fun loop =>
    (loop.queue (r.2.filterMap (queuedBy c))).push (r.2.filterMap (calledBy c))

def connectEstablished (s : TcpServer) (c : ConnId) : TcpServer :=
  s.perform c (s.conn c).connectEstablished

def addMilestone (s : TcpServer) (c : ConnId) (m : Milestone) : TcpServer :=
  { s with life := Function.update s.life c (s.life c ++ [m]) }

/-- `ConnectionCallback_` is called. -/
def announce (s : TcpServer) (c : ConnId) : TcpServer :=
  { s with announced := Function.update s.announced c (s.announced c ++ [(s.conn c).state]) }

/-- `ConnectDestoryed` is called. -/
def connectDestoryed (s : TcpServer) (c : ConnId) : TcpServer :=
  (s.addMilestone c (.connectDestoryed (s.loops (s.loop c)).inPass)).onLoop (s.loop c)
    (·.push [.connectDestoryed c])

def handleClose (s : TcpServer) (c : ConnId) : TcpServer :=
  (s.addMilestone c .handleClose).perform c (s.conn c).handleClose

/-! ## Functions of the server -/

/-- `name_` and the `snprintf` into `char buf[64]`. -/
def Config.connectionName (cfg : Config) (c : ConnId) : List Char :=
  cfg.name ++ ('-' :: cfg.listenAddr.ipPort ++ '#' :: Address.decimal c).take 63

/-- `GetNextLoop()`: the loop, and `next_` behind it. -/
def Config.getNextLoop (cfg : Config) (next : Nat) : LoopId × Nat :=
  if cfg.loops.isEmpty then (cfg.loop, next)
  else (cfg.loops.getD next cfg.loop, if next + 1 ≥ cfg.loops.length then 0 else next + 1)

/-- The connection that `NewConnection` makes and puts into `connections_`. -/
def insertConnection (cfg : Config) (s : TcpServer) (fd : Nat) : TcpServer :=
  let c := s.nextConnectionId
  { s with
    nextConnectionId := c + 1
    next := (cfg.getNextLoop s.next).2
    connections :=
      (cfg.connectionName c, c) :: s.connections.filter (·.1 ≠ cfg.connectionName c)
    conn := Function.update s.conn c
      (.new fd cfg.connectionCallback cfg.writeCompleteCallback true cfg.highWaterMarkCallback)
    loop := Function.update s.loop c (cfg.getNextLoop s.next).1 }

/-- `NewConnection(sockfd, …)` -/
def newConnection (cfg : Config) (s : TcpServer) (fd : Nat) : TcpServer :=
  let c := s.nextConnectionId
  let ioloop := (cfg.getNextLoop s.next).1
  let s := s.insertConnection cfg fd
  -- `RunInLoop`
  if ioloop = cfg.loop then s.connectEstablished c
  else s.queueInLoop ioloop (.connectEstablished c)

/-- The entry of `c` is erased from `connections_`. -/
def eraseConnection (cfg : Config) (s : TcpServer) (c : ConnId) : TcpServer :=
  let named : List Char × ConnId → Bool := fun entry => entry.1 = cfg.connectionName c
  { s with
    connections := s.connections.filter (!named ·)
    erased := s.erased ++ [(c, (s.connections.filter named).map (·.2))] }

def removeConnectionInLoop (cfg : Config) (s : TcpServer) (c : ConnId) : TcpServer :=
  (s.eraseConnection cfg c).queueInLoop (s.loop c) (.connectDestoryed c)

/-- `RemoveConnection`, called by the thread of `l`. -/
def removeConnection (cfg : Config) (s : TcpServer) (l : LoopId) (c : ConnId) : TcpServer :=
  if l = cfg.loop then s.removeConnectionInLoop cfg c
  else s.queueInLoop cfg.loop (.removeConnectionInLoop c)

/-- One round of the loop in `~TcpServer`, on the thread of `l`. -/
def destroyConnection (s : TcpServer) (l : LoopId) (c : ConnId) : TcpServer :=
  let s := { s with connections := s.connections.filter (·.2 ≠ c) }
  if s.loop c = l then s.connectDestoryed c
  else s.queueInLoop (s.loop c) (.connectDestoryed c)

/-! ## Steps -/

/-- What `ReadFromFd` returns to `HeadleRead`. -/
inductive ReadResult
  /-- `n > 0` -/
  | message
  /-- `n == 0` -/
  | eof
  | error
deriving DecidableEq

/-- What a step of a loop thread finds outside of the model. -/
structure Answer where
  /-- What `accept` returns. -/
  fd : Option Nat := none
  read : ReadResult := .message
  write : WriteResult := .room 0
  /-- The bytes that a functor of `SendInLoop` reads. -/
  data : Bytes := []
  /-- The entry of `connections_` that comes next. -/
  entry : ConnId := 0
deriving DecidableEq

inductive Action
  /-- `poll` returns on a loop. -/
  | poll (l : LoopId) (active : List Active)
  /-- A loop thread goes on. -/
  | next (l : LoopId) (answer : Answer)
  /-- A thread of a loop is outside of `start()` and runs code of the users. -/
  | outside (l : LoopId)
  /-- Code of the users on the loop thread of `c` calls `send` or `shutdown`. -/
  | loopSend (c : ConnId) (data : Bytes) (w : WriteResult)
  | loopShutdown (c : ConnId)
  /-- Code of the users copies the argument of the callback that it is in. -/
  | copy (l : LoopId)
  /-- The users copy a copy, and drop one. -/
  | clone (c : ConnId)
  | drop (c : ConnId)
  /-- Another thread calls `send` or `shutdown`, up to the test of `state_`. -/
  | send (c : ConnId)
  | shutdown (c : ConnId)
  /-- A thread takes the next step of its call. -/
  | goOn (c : ConnId) (caller : Caller)
  /-- A functor of the users is queued. -/
  | queueOther (l : LoopId)
  /-- Code of the users on the base loop thread destroys the server. -/
  | destruct

/-- What `poll` may report for a connection. -/
def pollable (s : TcpServer) (l : LoopId) : Active → Bool
  | .connection c readable writable =>
      let channel := (s.conn c).channel
      0 < c && c < s.nextConnectionId && s.loop c = l && channel.state = .add &&
        (!readable || channel.isReading) && (!writable || channel.isWriting)
  | _ => true

def Active.subject : Active → Option ConnId
  | .connection c _ _ => some c
  | _ => none

/-- `poll` may report these channels: each of them once, and the acceptor on the base loop. -/
def polls (cfg : Config) (s : TcpServer) (l : LoopId) (active : List Active) : Bool :=
  active.all (s.pollable l) && (active.filterMap Active.subject).Nodup &&
    (!active.contains .acceptor || l = cfg.loop && !s.destructed)

/-- No open connection has this descriptor. -/
def fdFree (cfg : Config) (s : TcpServer) (fd : Nat) : Bool :=
  (List.range s.nextConnectionId).all fun c =>
    c = 0 || s.dead cfg c || (s.conn c).channel.fd ≠ fd

/-- `Acceptor::HandleRead`. Behind `2^31 - 1` connections the `int` of the server overflows. -/
def handleAccept (cfg : Config) (s : TcpServer) : Option Nat → Option TcpServer
  | some fd =>
      if s.nextConnectionId < 2 ^ 31 ∧ s.fdFree cfg fd then some (s.newConnection cfg fd) else none
  | none => some s

/-- The thread of `l` runs a functor. -/
def runFunctor (cfg : Config) (s : TcpServer) (l : LoopId) : Functor → TcpServer
  | .connectEstablished c => s.connectEstablished c
  | .connectDestoryed c => s.connectDestoryed c
  | .removeConnectionInLoop c => s.removeConnectionInLoop cfg c
  | .writeComplete c => s.onLoop l (·.push [.callback c])
  | .highWaterMark c _ => s.onLoop l (·.push [.callback c])
  | .sendInLoop c => s.onLoop l (·.push [.sendInLoop c false])
  | .shutdownInLoop c => s.onLoop l (·.push [.shutdownInLoop c false])
  | .other => s.onLoop l (·.push [.userCode])

/-- The channel that comes next in the pass. -/
def handleActive (cfg : Config) (s : TcpServer) (l : LoopId) (answer : Answer) :
    Active → Option TcpServer
  | .connection c readable writable => some (s.onLoop l (·.push [.handleEvent c readable writable]))
  | .acceptor => s.handleAccept cfg answer.fd
  | .other => some (s.onLoop l (·.push [.userCode]))

/-- The next step of `start()`. -/
def phaseStep (cfg : Config) (s : TcpServer) (l : LoopId) (answer : Answer) : Option TcpServer :=
  match (s.loops l).phase with
  | .poll => none
  | .channels [] => some (s.onLoop l Loop.doCallback)
  | .channels (a :: active) =>
      (s.onLoop l (·.setPhase (.channels active))).handleActive cfg l answer a
  | .callbacks _ [] => some (s.onLoop l (·.setPhase .poll))
  | .callbacks done (f :: todo) =>
      some ((s.onLoop l (·.setPhase (.callbacks (done ++ [f]) todo))).runFunctor cfg l f)

/-- `HeadleRead`, `s` being the state behind its call. -/
def headleRead (s : TcpServer) (l : LoopId) (c : ConnId) : ReadResult → TcpServer
  | .message => s.onLoop l (·.push [.callback c])
  | .eof => s.handleClose c
  | .error => s

/-- The next step of the innermost function, above `stack`. -/
def frameStep (cfg : Config) (s : TcpServer) (l : LoopId) (answer : Answer) (stack : List Frame) :
    Frame → Option TcpServer
  | .handleEvent c true writable =>
      some ((s.onLoop l (·.setStack (.handleEvent c false writable :: stack))).headleRead l c
        answer.read)
  | .handleEvent c false true =>
      some ((s.onLoop l (·.setStack (.handleEvent c false false :: stack))).perform c
        ((s.conn c).handleWrite answer.write))
  | .handleEvent _ false false => some (s.onLoop l (·.setStack stack))
  | .announce c =>
      some ((s.announce c).onLoop l (·.setStack (.callback c :: stack)))
  | .callback _ => some (s.onLoop l (·.setStack stack))
  | .closeCallback c => some ((s.onLoop l (·.setStack stack)).removeConnection cfg l c)
  | .connectDestoryed c =>
      let next := if (s.conn c).state = .connected then Frame.disconnect c else .remove c
      some (s.onLoop l (·.setStack (next :: stack)))
  | .disconnect c =>
      some ((s.onLoop l (·.setStack (.remove c :: stack))).perform c (s.conn c).disconnect)
  | .remove c =>
      some (((s.onLoop l (·.setStack stack)).perform c
        ((s.conn c).onChannel Channel.remove)).addMilestone c .destroyed)
  | .sendInLoop c false =>
      some ((s.onLoop l (·.setStack (.sendInLoop c true :: stack))).perform c
        ((s.conn c).sendInLoop answer.data answer.write))
  | .shutdownInLoop c false =>
      some ((s.onLoop l (·.setStack (.shutdownInLoop c true :: stack))).perform c
        (s.conn c, (s.conn c).shutdownInLoop))
  | .sendInLoop _ true | .shutdownInLoop _ true => some (s.onLoop l (·.setStack stack))
  | .userCode => some (s.onLoop l (·.setStack stack))
  | .destructor =>
      if s.connections.isEmpty then some (s.onLoop l (·.setStack stack))
      else if s.connections.any (·.2 = answer.entry) then
        some (s.destroyConnection l answer.entry)
      else none

/-- The next step of the thread of `l` works on what is freed: in the rest of a pass, the channel of
    a connection that is dead or of the acceptor of a server that is gone; in a batch, the `this`
    of a functor; in a function, the server behind `CloseCallback_`, or the connection that the
    function is bound to, up to its return. -/
def freed (cfg : Config) (s : TcpServer) (l : LoopId) : Bool :=
  match (s.loops l).stack with
  | [] =>
      match (s.loops l).phase with
      | .channels (.connection c _ _ :: _) => s.dead cfg c
      | .channels (.acceptor :: _) => s.gone cfg
      | .callbacks _ (.removeConnectionInLoop _ :: _) => s.gone cfg
      | .callbacks _ (f :: _) => f.bindsThis.any (s.dead cfg)
      | _ => false
  | .closeCallback _ :: _ => s.gone cfg
  | frame :: _ => frame.bindsThis.any (s.dead cfg)

/-- The code of the users that runs on the loop thread of `c` has a pointer to it. -/
def reachableBy (s : TcpServer) (c : ConnId) : Bool :=
  (s.loops (s.loop c)).inUserCode &&
    (s.users.any (· = c) || (s.loops (s.loop c)).stack.any (· = .callback c))

def setUsers (s : TcpServer) (users : List ConnId) (callers : List (ConnId × Caller)) :
    TcpServer :=
  { s with users := users, callers := callers }

def setState (s : TcpServer) (c : ConnId) (state : TcpConnection.State) : TcpServer :=
  { s with conn := Function.update s.conn c { s.conn c with state } }

/-- The next step of a call on another thread. -/
def callerStep (s : TcpServer) (c : ConnId) (caller : Caller) : TcpServer :=
  let callers := s.callers.erase (c, caller)
  match caller with
  | .sendTested => (s.setUsers (c :: s.users) callers).queueInLoop (s.loop c) (.sendInLoop c)
  | .shutdownTested =>
      (s.setUsers s.users ((c, .shutdownStored) :: callers)).setState c .disconnecting
  | .shutdownStored =>
      (s.setUsers (c :: s.users) callers).queueInLoop (s.loop c) (.shutdownInLoop c)

/-- A call of another thread that tests `state_` first. -/
def test (s : TcpServer) (c : ConnId) (caller : Caller) : Option TcpServer :=
  if c ∈ s.users then
    if (s.conn c).state = .connected then
      some (s.setUsers (s.users.erase c) ((c, caller) :: s.callers))
    else some s
  else none

def step (cfg : Config) (s : TcpServer) : Action → Option TcpServer
  | .poll l active =>
      if (s.loops l).stack = [] ∧ (s.loops l).phase = .poll ∧ s.polls cfg l active then
        some (s.onLoop l (·.setPhase (.channels active)))
      else none
  | .next l answer =>
      if s.freed cfg l then some { s with fault := true }
      else
        match (s.loops l).stack with
        | [] => s.phaseStep cfg l answer
        | frame :: stack => s.frameStep cfg l answer stack frame
  | .outside l =>
      if (s.loops l).stack = [] ∧ (s.loops l).phase = .poll then
        some (s.onLoop l (·.push [.userCode]))
      else none
  | .loopSend c data w =>
      if s.reachableBy c then some (s.perform c ((s.conn c).send data w)) else none
  | .loopShutdown c => if s.reachableBy c then some (s.perform c (s.conn c).shutdown) else none
  | .copy l =>
      match (s.loops l).stack with
      | .callback c :: _ => some (s.setUsers (c :: s.users) s.callers)
      | _ => none
  | .clone c => if c ∈ s.users then some (s.setUsers (c :: s.users) s.callers) else none
  | .drop c => if c ∈ s.users then some (s.setUsers (s.users.erase c) s.callers) else none
  | .send c => s.test c .sendTested
  | .shutdown c => s.test c .shutdownTested
  | .goOn c caller => if (c, caller) ∈ s.callers then some (s.callerStep c caller) else none
  | .queueOther l => some (s.queueInLoop l .other)
  | .destruct =>
      if (s.loops cfg.loop).inUserCode ∧ !s.destructed then
        some ({ s with destructed := true }.onLoop cfg.loop (·.push [.destructor]))
      else none

/-- Nothing is known behind a fault, so no step follows. -/
def machine (cfg : Config) : Machine TcpServer Action where
  init s := s = new
  step s a := if s.fault then none else s.step cfg a

end TcpServer
