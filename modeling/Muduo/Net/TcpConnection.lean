import Muduo.Base.Bytes
import Muduo.Net.Channel

set_option autoImplicit false

/-! # TcpConnection (`include/net/TcpConnection.h`, `src/net/TcpConnection.cpp`)

The functions that the loop thread runs, each as the connection it leaves and the effects it has, in
order. `OutputBuffer_` is the queue of its bytes. What `::write` answers is a parameter: the kernel
either takes at most `n` bytes of what it is offered, for any `n`, or fails. -/

inductive Errno
  | eagain | epipe | econnreset | other
deriving DecidableEq

/-- The answer of `::write`. -/
inductive WriteResult
  /-- The kernel has room for `n` bytes. -/
  | room (n : Nat)
  | error (errno : Errno)
deriving DecidableEq

namespace TcpConnection

/-- `TcpConnection::state`. -/
inductive State
  | disconnected | disconnecting | connecting | connected
deriving DecidableEq

inductive Effect
  /-- `::write` returned the number of these bytes. -/
  | write (accepted : Bytes)
  /-- `::write` returned -1. -/
  | writeError (errno : Errno)
  /-- `OutputBuffer_.append` -/
  | append (data : Bytes)
  | poller (effect : Poller.Effect)
  | shutdownWrite
  /-- `QueueInLoop(WriteCompleteCallback_)` -/
  | queueWriteComplete
  /-- `QueueInLoop(HighWaterMarkCallback_)` with the number of pending bytes -/
  | queueHighWaterMark (size : Nat)
  | connectionCallback
  | closeCallback
  /-- `state_` is `kDisconnected` and the channel is disabled. -/
  | disconnected
deriving DecidableEq

end TcpConnection

structure TcpConnection where
  state : TcpConnection.State
  channel : Channel
  outputBuffer : Bytes
  highWaterMark : Nat
  /-- Whether the callback is set, here and below. -/
  connectionCallback : Bool
  writeCompleteCallback : Bool
  closeCallback : Bool
  highWaterMarkCallback : Bool
deriving DecidableEq

namespace TcpConnection

/-- The constructor, and which of the callbacks are set before the connection is established. -/
def new (fd : Nat) (connection writeComplete close highWaterMark : Bool) : TcpConnection where
  state := .connecting
  channel := .new fd
  outputBuffer := []
  highWaterMark := 64 * 1024 * 1024
  connectionCallback := connection
  writeCompleteCallback := writeComplete
  closeCallback := close
  highWaterMarkCallback := highWaterMark

/-- A call of `channel_`. -/
def onChannel (c : TcpConnection) (f : Channel → Channel × List Poller.Effect) :
    TcpConnection × List Effect :=
  let (channel, effects) := f c.channel
  ({ c with channel }, effects.map .poller)

/-! ## Sending -/

/-- What the direct `::write` of `SendInLoop` leaves: `nwrite`, `err` and the effects. -/
def writeDirect (c : TcpConnection) (data : Bytes) (w : WriteResult) : Nat × Bool × List Effect :=
  if !c.channel.isWriting && c.outputBuffer.length == 0 then
    match w with
    | .room n =>
        let nwrite := min n data.length
        let complete :=
          if data.length - nwrite = 0 ∧ c.writeCompleteCallback then [.queueWriteComplete] else []
        (nwrite, false, .write (data.take nwrite) :: complete)
    | .error errno =>
        (0, decide (errno = .epipe ∨ errno = .econnreset), [.writeError errno])
  else (0, false, [])

/-- `SendInLoop(data, len)`. A disconnected connection is logged, and the function goes on. -/
def sendInLoop (c : TcpConnection) (data : Bytes) (w : WriteResult) :
    TcpConnection × List Effect :=
  let (nwrite, err, written) := c.writeDirect data w
  let remain := data.length - nwrite
  if !err ∧ remain > 0 then
    let bufremain := c.outputBuffer.length
    let high :=
      if bufremain + remain ≥ c.highWaterMark ∧ bufremain < c.highWaterMark
          ∧ c.highWaterMarkCallback then
        [.queueHighWaterMark (bufremain + remain)]
      else []
    let c := { c with outputBuffer := c.outputBuffer ++ data.drop nwrite }
    let (c, enabled) :=
      if !c.channel.isWriting then c.onChannel Channel.enableWriting else (c, [])
    (c, written ++ high ++ [.append (data.drop nwrite)] ++ enabled)
  else (c, written)

def shutdownInLoop (c : TcpConnection) : List Effect :=
  if !c.channel.isWriting then [.shutdownWrite] else []

/-- The branch of `HandleWrite` for an `OutputBuffer_` that has become empty. -/
def drained (c : TcpConnection) : TcpConnection × List Effect :=
  let (c, disabled) := c.onChannel Channel.disableWriting
  let complete := if c.writeCompleteCallback then [.queueWriteComplete] else []
  let half := if c.state = .disconnecting then c.shutdownInLoop else []
  (c, disabled ++ complete ++ half)

/-- `HandleWrite()`, `WriteFromFd` offering all of `OutputBuffer_`. -/
def handleWrite (c : TcpConnection) (w : WriteResult) : TcpConnection × List Effect :=
  if c.channel.isWriting then
    match w with
    | .error errno => (c, [.writeError errno])
    | .room room =>
        let n := min room c.outputBuffer.length
        let written := .write (c.outputBuffer.take n)
        if n > 0 then
          let c := { c with outputBuffer := c.outputBuffer.drop n }
          if c.outputBuffer.length = 0 then
            let (c, drained) := c.drained
            (c, written :: drained)
          else (c, [written])
        else (c, [written])
  else (c, [])

/-! ## Calls on the loop thread -/

/-- `send(data)` on the loop thread. -/
def send (c : TcpConnection) (data : Bytes) (w : WriteResult) : TcpConnection × List Effect :=
  if c.state = .connected then c.sendInLoop data w else (c, [])

/-- `shutdown()` on the loop thread. -/
def shutdown (c : TcpConnection) : TcpConnection × List Effect :=
  if c.state = .connected then
    let c := { c with state := .disconnecting }
    (c, c.shutdownInLoop)
  else (c, [])

/-! ## The life of a connection -/

def connectEstablished (c : TcpConnection) : TcpConnection × List Effect :=
  let c := { c with state := .connected }
  let (c, enabled) := c.onChannel Channel.enableReading
  (c, enabled ++ if c.connectionCallback then [.connectionCallback] else [])

/-- The branch of `ConnectDestoryed` for a connection found in `kConnected`. -/
def disconnect (c : TcpConnection) : TcpConnection × List Effect :=
  let c := { c with state := .disconnected }
  let (c, disabled) := c.onChannel Channel.disableAll
  (c, disabled ++ [.disconnected] ++ if c.connectionCallback then [.connectionCallback] else [])

def connectDestoryed (c : TcpConnection) : TcpConnection × List Effect :=
  let (c, down) := if c.state = .connected then c.disconnect else (c, [])
  let (c, removed) := c.onChannel Channel.remove
  (c, down ++ removed)

def handleClose (c : TcpConnection) : TcpConnection × List Effect :=
  let (c, down) := c.disconnect
  (c, down ++ if c.closeCallback then [.closeCallback] else [])

end TcpConnection
