import Muduo.Net.TcpServer

set_option autoImplicit false

/-! # One connection between its loop and the base loop

What the server, the loops and the users do to a single connection, everything else left out: of its
own loop the functors, the active channel and the frames that are about it, of the base loop the
number of its `RemoveConnectionInLoop`s. A step of the server is a step here for each connection, or
is none of its business. The steps are more than the server's in that what another connection does
in between is forgotten. -/

namespace TcpServer

/-- The frames that may be left waiting for another. -/
def Frame.waits : Frame → Bool
  | .announce _ => false
  | .connectDestoryed _ => false
  | .disconnect _ => false
  | _ => true

structure Handshake where
  /-- What is about the connection in its loop. -/
  loop : Loop
  /-- Whether its loop is the base loop. -/
  onBase : Bool
  /-- The functors of `RemoveConnectionInLoop` that have still to run on the base loop. -/
  removals : Nat
  /-- Whether it is in `connections_`. -/
  entry : Bool
  conn : TcpConnection
  /-- The copies of the users. -/
  copies : Nat
  callers : List Caller
  destructed : Bool
  announced : List TcpConnection.State
  life : List Milestone

namespace Handshake

def onLoop (v : Handshake) (f : Loop → Loop) : Handshake := { v with loop := f v.loop }

def addMilestone (v : Handshake) (m : Milestone) : Handshake := { v with life := v.life ++ [m] }

variable (c : ConnId)

def perform (v : Handshake) (r : TcpConnection × List TcpConnection.Effect) : Handshake :=
  { v with conn := r.1 }.onLoop fun loop =>
    (loop.queue (r.2.filterMap (queuedBy c))).push
      (r.2.filterMap (calledBy c))

def connectDestoryed (v : Handshake) : Handshake :=
  (v.addMilestone (.connectDestoryed v.loop.inPass)).onLoop (·.push [.connectDestoryed c])

/-- The entry goes and `ConnectDestoryed` is queued. -/
def removeEntry (v : Handshake) : Handshake :=
  { v with entry := false }.onLoop (·.queue [.connectDestoryed c])

/-- Something that is not a copy of the users holds the connection. -/
def held (v : Handshake) : Bool := v.entry || v.loop.owns c

def used (v : Handshake) : Bool := decide (0 < v.copies) || !v.callers.isEmpty

/-- What `NewConnection` puts into `connections_`. -/
def newborn (onBase : Bool) (phase : Phase) (conn : TcpConnection) : Handshake where
  loop := ⟨[], phase, []⟩
  onBase := onBase
  removals := 0
  entry := true
  conn := conn
  copies := 0
  callers := []
  destructed := false
  announced := []
  life := []

/-- `NewConnection` has run: `ConnectEstablished` is queued, or has run on the base loop.
    `connection` says whether `ConnectionCallback_` is set. -/
inductive Born (connection : Bool) : Handshake → Prop
  | queued {phase : Phase} {fd : Nat} {writeComplete highWaterMark : Bool}
      (hactive : phase.active = []) (hfunctors : phase.functors = []) :
      Born connection ((newborn false phase
        (.new fd connection writeComplete true highWaterMark)).onLoop
          (·.queue [.connectEstablished c]))
  | here {phase : Phase} {conn : TcpConnection} {fd : Nat} {writeComplete highWaterMark : Bool}
      (hactive : phase.active = []) (hfunctors : phase.functors = [])
      (hconn : conn = .new fd connection writeComplete true highWaterMark) :
      Born connection ((newborn true phase conn).perform c conn.connectEstablished)

/-- The steps that the guards of the runs speak about. -/
inductive Label
  | quiet
  /-- The test of `ConnectDestoryed`. -/
  | test
  /-- `HandleClose`. -/
  | close
  /-- `shutdown` of another thread stores `state_`. -/
  | store
  /-- `send` of another thread finds `kConnected`. -/
  | send
  /-- The users give up a copy, or the argument of a callback that returns. -/
  | release
  | destruct
deriving DecidableEq

/-- A functor of the batch is taken, with the loop outside of any function of the connection. -/
structure Takes (v : Handshake) (f : Functor) (loop : Loop) : Prop where
  stack : v.loop.stack = []
  phase : ∃ done todo, v.loop.phase = .callbacks done (f :: todo) ∧
    loop = v.loop.setPhase (.callbacks (done ++ [f]) todo)

/-- The innermost function of the connection. -/
def Inner (v : Handshake) (f : Frame) (stack : List Frame) : Prop := v.loop.stack = f :: stack

/-- The steps that leave the life of the connection as it is. -/
inductive Routine : Handshake → Handshake → Prop
  -- the loop
  | poll {v : Handshake} {active : List Active} (hstack : v.loop.stack = [])
      (hphase : v.loop.phase = .poll)
      (hactive : active = [] ∨ ∃ readable writable, active = [.connection c readable writable] ∧
        v.conn.channel.state = .add ∧ (readable = true → v.conn.channel.isReading = true) ∧
        (writable = true → v.conn.channel.isWriting = true)) :
      Routine v (v.onLoop (·.setPhase (.channels active)))
  | passDone {v : Handshake} (hstack : v.loop.stack = []) (hphase : v.loop.phase = .channels [])
      (hfunctors : v.loop.functors = []) : Routine v (v.onLoop (·.setPhase .poll))
  | doCallback {v : Handshake} (hstack : v.loop.stack = []) (hphase : v.loop.phase = .channels []) :
      Routine v
        (v.onLoop fun loop => { loop with functors := [], phase := .callbacks [] loop.functors })
  | handleEvent {v : Handshake} {readable writable : Bool} {active : List Active}
      (hstack : v.loop.stack = [])
      (hphase : v.loop.phase = .channels (.connection c readable writable :: active)) :
      Routine v (v.onLoop fun loop =>
        (loop.setPhase (.channels active)).push [.handleEvent c readable writable])
  | batchDone {v : Handshake} {done : List Functor} (hstack : v.loop.stack = [])
      (hphase : v.loop.phase = .callbacks done []) : Routine v (v.onLoop (·.setPhase .poll))
  -- the functors
  | runCallback {v : Handshake} {f : Functor} {loop : Loop} (h : v.Takes f loop)
      (hf : f = .writeComplete c ∨ ∃ size, f = .highWaterMark c size) :
      Routine v ({ v with loop }.onLoop (·.push [.callback c]))
  | runSend {v : Handshake} {loop : Loop} (h : v.Takes (.sendInLoop c) loop) :
      Routine v ({ v with loop }.onLoop (·.push [.sendInLoop c false]))
  | runShutdown {v : Handshake} {loop : Loop} (h : v.Takes (.shutdownInLoop c) loop) :
      Routine v ({ v with loop }.onLoop (·.push [.shutdownInLoop c false]))
  -- the functions in progress
  | readMessage {v : Handshake} {writable : Bool} {stack : List Frame}
      (h : v.Inner (.handleEvent c true writable) stack) :
      Routine v
        (v.onLoop (·.setStack (.callback c :: .handleEvent c false writable :: stack)))
  | readError {v : Handshake} {writable : Bool} {stack : List Frame}
      (h : v.Inner (.handleEvent c true writable) stack) :
      Routine v (v.onLoop (·.setStack (.handleEvent c false writable :: stack)))
  | handleWrite {v : Handshake} {w : WriteResult} {stack : List Frame}
      (h : v.Inner (.handleEvent c false true) stack) :
      Routine v ((v.onLoop (·.setStack (.handleEvent c false false :: stack))).perform c
        (v.conn.handleWrite w))
  | handled {v : Handshake} {stack : List Frame}
      (h : v.Inner (.handleEvent c false false) stack) : Routine v (v.onLoop (·.setStack stack))
  | sendInLoop {v : Handshake} {data : Bytes} {w : WriteResult} {stack : List Frame}
      (h : v.Inner (.sendInLoop c false) stack) :
      Routine v ((v.onLoop (·.setStack (.sendInLoop c true :: stack))).perform c
        (v.conn.sendInLoop data w))
  | shutdownInLoop {v : Handshake} {stack : List Frame}
      (h : v.Inner (.shutdownInLoop c false) stack) :
      Routine v ((v.onLoop (·.setStack (.shutdownInLoop c true :: stack))).perform c
        (v.conn, v.conn.shutdownInLoop))
  | returned {v : Handshake} {frame : Frame} {stack : List Frame} (h : v.Inner frame stack)
      (hframe : frame = .sendInLoop c true ∨ frame = .shutdownInLoop c true) :
      Routine v (v.onLoop (·.setStack stack))
  -- the users
  | loopSend {v : Handshake} {data : Bytes} {w : WriteResult}
      (h : 0 < v.copies ∨ .callback c ∈ v.loop.stack) :
      Routine v (v.perform c (v.conn.send data w))
  | copy {v : Handshake} (h : 0 < v.copies ∨ .callback c ∈ v.loop.stack) :
      Routine v { v with copies := v.copies + 1 }
  | shutdown {v : Handshake} {n : Nat} (h : v.copies = n + 1) (hstate : v.conn.state = .connected) :
      Routine v { v with copies := n, callers := .shutdownTested :: v.callers }

inductive Step : Handshake → Label → Handshake → Prop
  | nothing {v : Handshake} {a : Label} : Step v a v
  | routine {v v' : Handshake} (h : Routine c v v') : Step v .quiet v'
  -- the functors
  | runEstablished {v : Handshake} {loop : Loop} (h : v.Takes (.connectEstablished c) loop) :
      Step v .quiet ({ v with loop }.perform c v.conn.connectEstablished)
  | runDestoryed {v : Handshake} {loop : Loop} (h : v.Takes (.connectDestoryed c) loop) :
      Step v .quiet ({ v with loop }.connectDestoryed c)
  -- the functions in progress
  | readClose {v : Handshake} {writable : Bool} {stack : List Frame}
      (h : v.Inner (.handleEvent c true writable) stack) :
      Step v .close (((v.onLoop (·.setStack (.handleEvent c false writable :: stack))).addMilestone
        .handleClose).perform c v.conn.handleClose)
  | announce {v : Handshake} {stack : List Frame} (h : v.Inner (.announce c) stack) :
      Step v .quiet ({ v with announced := v.announced ++ [v.conn.state] }.onLoop
        (·.setStack (.callback c :: stack)))
  | return {v : Handshake} {stack : List Frame} (h : v.Inner (.callback c) stack) :
      Step v .release (v.onLoop (·.setStack stack))
  | removeHere {v : Handshake} {stack : List Frame} (h : v.Inner (.closeCallback c) stack)
      (honBase : v.onBase = true) :
      Step v .quiet ((v.onLoop (·.setStack stack)).removeEntry c)
  | removeThere {v : Handshake} {stack : List Frame} (h : v.Inner (.closeCallback c) stack)
      (honBase : v.onBase = false) :
      Step v .quiet { v.onLoop (·.setStack stack) with removals := v.removals + 1 }
  | testConnected {v : Handshake} {stack : List Frame} (h : v.Inner (.connectDestoryed c) stack)
      (hstate : v.conn.state = .connected) :
      Step v .test (v.onLoop (·.setStack (.disconnect c :: stack)))
  | testOther {v : Handshake} {stack : List Frame} (h : v.Inner (.connectDestoryed c) stack)
      (hstate : v.conn.state ≠ .connected) :
      Step v .test (v.onLoop (·.setStack (.remove c :: stack)))
  | disconnect {v : Handshake} {stack : List Frame} (h : v.Inner (.disconnect c) stack) :
      Step v .quiet ((v.onLoop (·.setStack (.remove c :: stack))).perform c v.conn.disconnect)
  | remove {v : Handshake} {stack : List Frame} (h : v.Inner (.remove c) stack) :
      Step v .quiet (((v.onLoop (·.setStack stack)).perform c
        (v.conn.onChannel Channel.remove)).addMilestone .destroyed)
  -- the base loop
  | removal {v : Handshake} {n : Nat} (h : v.removals = n + 1)
      (hdestructed : v.destructed = false) :
      Step v .quiet ({ v with removals := n }.removeEntry c)
  | destruct {v : Handshake} (hdestructed : v.destructed = false) :
      Step v .destruct { v with destructed := true }
  | destroyHere {v : Handshake} (hdestructed : v.destructed = true) (hentry : v.entry = true)
      (honBase : v.onBase = true) (hwaits : ∀ f ∈ v.loop.stack, f.waits = true) :
      Step v .quiet ({ v with entry := false }.connectDestoryed c)
  | destroyThere {v : Handshake} (hdestructed : v.destructed = true) (hentry : v.entry = true)
      (honBase : v.onBase = false) : Step v .quiet (v.removeEntry c)
  -- the users
  | loopShutdown {v : Handshake} (h : 0 < v.copies ∨ .callback c ∈ v.loop.stack) :
      Step v .quiet (v.perform c v.conn.shutdown)
  | drop {v : Handshake} {n : Nat} (h : v.copies = n + 1) : Step v .release { v with copies := n }
  | send {v : Handshake} {n : Nat} (h : v.copies = n + 1) (hstate : v.conn.state = .connected) :
      Step v .send { v with copies := n, callers := .sendTested :: v.callers }
  | queueSend {v : Handshake} (h : .sendTested ∈ v.callers) :
      Step v .quiet ({ v with
        copies := v.copies + 1
        callers := v.callers.erase .sendTested }.onLoop (·.queue [.sendInLoop c]))
  | store {v : Handshake} (h : .shutdownTested ∈ v.callers) :
      Step v .store { v with
        callers := .shutdownStored :: v.callers.erase .shutdownTested
        conn := { v.conn with state := .disconnecting } }
  | queueShutdown {v : Handshake} (h : .shutdownStored ∈ v.callers) :
      Step v .quiet ({ v with
        copies := v.copies + 1
        callers := v.callers.erase .shutdownStored }.onLoop (·.queue [.shutdownInLoop c]))

end Handshake

end TcpServer
