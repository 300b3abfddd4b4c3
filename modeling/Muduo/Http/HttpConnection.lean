import Muduo.Http.HttpServer
import Muduo.Lib.History
import Muduo.Net.Proofs.TcpConnection

set_option autoImplicit false

/-! # A connection served by HttpServer (`src/net/http/HttpServer.cpp`, `src/net/TcpConnection.cpp`)

The calls that `OnMessage` makes, executed on the connection. Everything runs on the loop thread.
What the connection takes for output is what `send` writes at once or puts into `OutputBuffer_`;
`HandleWrite` moves bytes that have been taken. -/

/-- What a message is answered with. -/
inductive HttpReply
  | badRequest
  /-- The response that `HttpCallback_` has made, sent in an order of its header map. -/
  | response (iterate : HeaderMap → HeaderMap) (res : HttpResponse)

namespace HttpReply

def text : HttpReply → Bytes
  | .badRequest => HttpServer.badRequest
  | .response iterate res => (res.response iterate).2

def keepAlive : HttpReply → Bool
  | .badRequest => false
  | .response _ res => res.keepAlive

end HttpReply

/-- The reply to a message, if it gets one. -/
def HttpServer.reply? (httpCallback : HttpRequest → HttpResponse → HttpResponse)
    (iterate : HeaderMap → HeaderMap) (buf : Bytes) (receiveTime : Timestamp) : Option HttpReply :=
  let (ok, request, _) := HttpRequest.new.parse buf receiveTime
  if !ok then some .badRequest
  else if request.acceptable then some (.response iterate (httpCallback request .new))
  else none

namespace TcpConnection

/-- A call of the message handler, `w` being the answer to a `::write` in it. -/
def serve (c : TcpConnection) (w : WriteResult) : HttpEvent → TcpConnection × List Effect
  | .httpCallback _ => (c, [])
  | .sendString data => c.send data w
  | .sendBuffer data => c.send data w
  | .shutdown => c.shutdown

def serveAll (w : WriteResult) : TcpConnection → List HttpEvent → TcpConnection × List Effect
  | c, [] => (c, [])
  | c, e :: es =>
      let (c, first) := c.serve w e
      let (c, rest) := serveAll w c es
      (c, first ++ rest)

end TcpConnection

structure HttpConnection where
  conn : TcpConnection
  inputBuffer : Bytes
  /-- The bytes that the connection has taken for output. -/
  accepted : Bytes
  /-- The replies of which it has taken bytes. -/
  replies : List HttpReply

namespace HttpConnection

inductive Action
  /-- `HeadleRead` has received `chunk` and calls `OnMessage`. -/
  | onMessage (httpCallback : HttpRequest → HttpResponse → HttpResponse)
      (iterate : HeaderMap → HeaderMap) (receiveTime : Timestamp) (chunk : Bytes) (w : WriteResult)
  | handleWrite (w : WriteResult)
  | handleClose
  | connectDestoryed

def step (s : HttpConnection) : Action → HttpConnection
  | .onMessage httpCallback iterate receiveTime chunk w =>
      let buf := s.inputBuffer ++ chunk
      let (events, inputBuffer) := HttpServer.onMessage httpCallback iterate buf receiveTime
      let (conn, effects) := s.conn.serveAll w events
      let reply := HttpServer.reply? httpCallback iterate buf receiveTime
      let taken := TcpConnection.handled effects
      { conn
        inputBuffer
        accepted := s.accepted ++ taken
        replies := s.replies ++ if taken = [] then [] else reply.toList }
  | .handleWrite w => { s with conn := (s.conn.handleWrite w).1 }
  | .handleClose => { s with conn := s.conn.handleClose.1 }
  | .connectDestoryed => { s with conn := s.conn.connectDestoryed.1 }

/-- What a step does to the connection. -/
def effects (s : HttpConnection) : Action → List TcpConnection.Effect
  | .onMessage httpCallback iterate receiveTime chunk w =>
      let (events, _) :=
        HttpServer.onMessage httpCallback iterate (s.inputBuffer ++ chunk) receiveTime
      (s.conn.serveAll w events).2
  | .handleWrite w => (s.conn.handleWrite w).2
  | .handleClose => s.conn.handleClose.2
  | .connectDestoryed => s.conn.connectDestoryed.2

def machine : Machine HttpConnection Action where
  init s := s.conn.Established ∧ s.inputBuffer = [] ∧ s.accepted = [] ∧ s.replies = []
  step s a := some (s.step a)

/-- The machine with the bytes that the kernel has taken from the connection. -/
def onWire : Machine (HttpConnection × Bytes) Action :=
  machine.observing (fun _ => []) fun wire s a _ => wire ++ TcpConnection.written (s.effects a)

end HttpConnection
