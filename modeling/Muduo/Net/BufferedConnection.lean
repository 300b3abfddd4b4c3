import Muduo.Net.Buffer
import Muduo.Lib.Machine
import Muduo.Net.TcpConnection

set_option autoImplicit false

/-! # A connection on its buffers (`src/net/TcpConnection.cpp`, `src/net/Channel.cpp`)

The functions of `TcpConnection.lean` with a `Buffer` for `OutputBuffer_`, and what they leave out:
`InputBuffer_`, `HeadleRead` and the dispatch of an event. A function answers `none` when a byte
outside of a vector is touched. What runs in a callback of the users is a list of calls. -/

structure BufferedConnection where
  state : TcpConnection.State
  channel : Channel
  inputBuffer : Buffer
  outputBuffer : Buffer
  highWaterMark : Nat
  /-- Whether the callback is set, here and below. `MessageCallback_` always is. -/
  connectionCallback : Bool
  writeCompleteCallback : Bool
  closeCallback : Bool
  highWaterMarkCallback : Bool
deriving DecidableEq

namespace BufferedConnection

open TcpConnection (Effect)

/-- The constructor, and which of the callbacks are set before the connection is established. -/
def new (fd : Nat) (connection writeComplete close highWaterMark : Bool) : BufferedConnection where
  state := .connecting
  channel := .new fd
  inputBuffer := .new Buffer.kInitialSize
  outputBuffer := .new Buffer.kInitialSize
  highWaterMark := 64 * 1024 * 1024
  connectionCallback := connection
  writeCompleteCallback := writeComplete
  closeCallback := close
  highWaterMarkCallback := highWaterMark

/-- A call of `channel_`. -/
def onChannel (c : BufferedConnection) (f : Channel → Channel × List Poller.Effect) :
    BufferedConnection × List Effect :=
  let (channel, effects) := f c.channel
  ({ c with channel }, effects.map .poller)

/-! ## Sending -/

/-- What the direct `::write` of `SendInLoop` leaves: `nwrite`, `err` and the effects. -/
def writeDirect (c : BufferedConnection) (data : Bytes) (w : WriteResult) :
    Nat × Bool × List Effect :=
  if !c.channel.isWriting && c.outputBuffer.readableBytes == 0 then
    match w with
    | .room n =>
        let nwrite := min n data.length
        let complete :=
          if data.length - nwrite = 0 ∧ c.writeCompleteCallback then [.queueWriteComplete] else []
        (nwrite, false, .write (data.take nwrite) :: complete)
    | .error errno =>
        (0, decide (errno = .epipe ∨ errno = .econnreset), [.writeError errno])
  else (0, false, [])

def sendInLoop (c : BufferedConnection) (data : Bytes) (w : WriteResult) :
    Option (BufferedConnection × List Effect) :=
  let (nwrite, err, written) := c.writeDirect data w
  let remain := data.length - nwrite
  if !err ∧ remain > 0 then
    let bufremain := c.outputBuffer.readableBytes
    let high :=
      if bufremain + remain ≥ c.highWaterMark ∧ bufremain < c.highWaterMark
          ∧ c.highWaterMarkCallback then
        [.queueHighWaterMark (bufremain + remain)]
      else []
    (c.outputBuffer.append (data.drop nwrite)).map fun outputBuffer =>
      let c := { c with outputBuffer }
      let (c, enabled) :=
        if !c.channel.isWriting then c.onChannel Channel.enableWriting else (c, [])
      (c, written ++ high ++ [.append (data.drop nwrite)] ++ enabled)
  else some (c, written)

def shutdownInLoop (c : BufferedConnection) : List Effect :=
  if !c.channel.isWriting then [.shutdownWrite] else []

/-- The branch of `HandleWrite` for an `OutputBuffer_` that has become empty. -/
def drained (c : BufferedConnection) : BufferedConnection × List Effect :=
  let (c, disabled) := c.onChannel Channel.disableWriting
  let complete := if c.writeCompleteCallback then [.queueWriteComplete] else []
  let half := if c.state = .disconnecting then c.shutdownInLoop else []
  (c, disabled ++ complete ++ half)

/-- `WriteFromFd` offers the bytes from `peek()` up to `BeginWrite()`. -/
def handleWrite (c : BufferedConnection) (w : WriteResult) : BufferedConnection × List Effect :=
  if c.channel.isWriting then
    match w with
    | .error errno => (c, [.writeError errno])
    | .room room =>
        let n := min room c.outputBuffer.readableBytes
        let written := .write (c.outputBuffer.readable.take n)
        if n > 0 then
          let c := { c with outputBuffer := c.outputBuffer.retrieve n }
          if c.outputBuffer.readableBytes = 0 then
            let (c, drained) := c.drained
            (c, written :: drained)
          else (c, [written])
        else (c, [written])
  else (c, [])

/-! ## Calls on the loop thread -/

/-- `send(data)` on the loop thread. -/
def send (c : BufferedConnection) (data : Bytes) (w : WriteResult) :
    Option (BufferedConnection × List Effect) :=
  if c.state = .connected then c.sendInLoop data w else some (c, [])

/-- `shutdown()` on the loop thread. -/
def shutdown (c : BufferedConnection) : BufferedConnection × List Effect :=
  if c.state = .connected then
    let c := { c with state := .disconnecting }
    (c, c.shutdownInLoop)
  else (c, [])

/-! ## Up and down -/

def connectEstablished (c : BufferedConnection) : BufferedConnection × List Effect :=
  let c := { c with state := .connected }
  let (c, enabled) := c.onChannel Channel.enableReading
  (c, enabled ++ if c.connectionCallback then [.connectionCallback] else [])

/-- The branch of `ConnectDestoryed` for a connection found in `kConnected`. -/
def disconnect (c : BufferedConnection) : BufferedConnection × List Effect :=
  let c := { c with state := .disconnected }
  let (c, disabled) := c.onChannel Channel.disableAll
  (c, disabled ++ [.disconnected] ++ if c.connectionCallback then [.connectionCallback] else [])

def connectDestoryed (c : BufferedConnection) : BufferedConnection × List Effect :=
  let (c, down) := if c.state = .connected then c.disconnect else (c, [])
  let (c, removed) := c.onChannel Channel.remove
  (c, down ++ removed)

def handleClose (c : BufferedConnection) : BufferedConnection × List Effect :=
  let (c, down) := c.disconnect
  (c, down ++ if c.closeCallback then [.closeCallback] else [])

/-! ## A connection in use -/

/-- A call of the users on the loop thread, `w` being the answer to a `::write` in it. -/
inductive Call
  | send (data : Bytes) (w : WriteResult)
  /-- `conn->send(buf)` with the buffer that `MessageCallback_` is given. -/
  | sendInput (w : WriteResult)
  | shutdown
  /-- `buf->retrieve(len)` -/
  | retrieve (len : Nat)
deriving DecidableEq

inductive Action
  /-- The loop finds the channel active: the answers of `readv` and of the `::write` of
      `HandleWrite`, and the calls in the callback that `HeadleRead` makes. -/
  | handleEvent (revents : Revents) (r : Buffer.Readv) (calls : List Call) (w : WriteResult)
  /-- A call from a functor or a timer. -/
  | call (call : Call)

end BufferedConnection

/-- A connection, its effects so far, and the bytes that went through. -/
structure Exchange where
  conn : BufferedConnection
  trace : List TcpConnection.Effect
  /-- The bytes that `readv` delivered. -/
  received : Bytes
  /-- The bytes taken out of `InputBuffer_`. -/
  retrieved : Bytes
  /-- The data passed to `send` while the connection was `kConnected`. -/
  passed : Bytes
deriving DecidableEq

namespace Exchange

open BufferedConnection

/-- The function goes through. -/
def perform (s : Exchange) (r : BufferedConnection × List TcpConnection.Effect) : Exchange :=
  { s with conn := r.1, trace := s.trace ++ r.2 }

/-- `buf->retrieve(len)` on `InputBuffer_` -/
def retrieve (s : Exchange) (len : Nat) : Exchange :=
  { s with
    conn := { s.conn with inputBuffer := s.conn.inputBuffer.retrieve len }
    retrieved := s.retrieved ++ s.conn.inputBuffer.readable.take len }

/-- `buf->RetrieveAll()` -/
def retrieveAll (s : Exchange) : Exchange :=
  { s with
    conn := { s.conn with inputBuffer := s.conn.inputBuffer.retrieveAll }
    retrieved := s.retrieved ++ s.conn.inputBuffer.readable }

/-- `send(data)` on the loop thread. -/
def send (s : Exchange) (data : Bytes) (w : WriteResult) : Option Exchange :=
  (s.conn.send data w).map fun r =>
    { s.perform r with passed := s.passed ++ if s.conn.state = .connected then data else [] }

/-- `send(buf)`: `RetrieveAll` comes behind `SendInLoop`, and only in `kConnected`. -/
def sendInput (s : Exchange) (w : WriteResult) : Option Exchange :=
  if s.conn.state = .connected then
    (s.send s.conn.inputBuffer.readable w).map retrieveAll
  else some s

def shutdown (s : Exchange) : Exchange := s.perform s.conn.shutdown

def call (s : Exchange) : Call → Option Exchange
  | .send data w => s.send data w
  | .sendInput w => s.sendInput w
  | .shutdown => some s.shutdown
  | .retrieve len => some (s.retrieve len)

def callAll (s : Exchange) : List Call → Option Exchange
  | [] => some s
  | c :: cs => (s.call c).bind fun s => s.callAll cs

/-- `HeadleRead`. `HandleError` asks for `SO_ERROR` and logs it. -/
def headleRead (s : Exchange) (r : Buffer.Readv) (calls : List Call) : Option Exchange :=
  (s.conn.inputBuffer.readFromFd r).bind fun (n, _, inputBuffer) =>
    let s := { s with conn := { s.conn with inputBuffer } }
    match r with
    | .error _ => some s
    | .ok data =>
        let s := { s with received := s.received ++ data }
        if n > 0 then s.callAll calls
        else (s.perform s.conn.handleClose).callAll calls

def handleWrite (s : Exchange) (w : WriteResult) : Exchange := s.perform (s.conn.handleWrite w)

/-- `HandleEventWithGuard`. A connection sets no `CloseCallback_` and no `ErrorCallback_` on its
    channel, so `POLLHUP` and `POLLERR` call nothing. -/
def handleEventWithGuard (s : Exchange) (revents : Revents) (r : Buffer.Readv) (calls : List Call)
    (w : WriteResult) : Option Exchange :=
  let read := if revents.pollIn || revents.pollPri then s.headleRead r calls else some s
  read.map fun s => if revents.pollOut then s.handleWrite w else s

def step (s : Exchange) : Action → Option Exchange
  | .handleEvent revents r calls w => s.handleEventWithGuard revents r calls w
  | .call call => s.call call

/-- `ConnectEstablished` was called, and nothing else has happened. -/
def Established (s : Exchange) : Prop :=
  ∃ fd connection writeComplete close highWaterMark,
    s = ⟨(new fd connection writeComplete close highWaterMark).connectEstablished.1, [], [], [], []⟩

/-- A connection on which `ConnectEstablished` was called. -/
def machine : Machine Exchange Action where
  init := Established
  step := step

/-! ## The outgoing side alone -/

/-- What the users or the loop do to it. -/
inductive Output
  | send (data : Bytes) (w : WriteResult)
  | shutdown
  | handleWrite (w : WriteResult)
deriving DecidableEq

def output (s : Exchange) : Output → Option Exchange
  | .send data w => s.send data w
  | .shutdown => some s.shutdown
  | .handleWrite w => some (s.handleWrite w)

/-- A connection that sends; the state is `none` once a byte outside of a vector was touched. -/
def sending : Machine (Option Exchange) Output where
  init s := ∃ u : Exchange, u.Established ∧ s = some u
  step s a := s.map fun u => u.output a

end Exchange
