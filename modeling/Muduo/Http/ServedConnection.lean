import Muduo.Http.BufferParse
import Muduo.Http.HttpConnection
import Muduo.Net.BufferedConnection

set_option autoImplicit false

/-! # HttpServer on buffers (`src/net/http/HttpServer.cpp`, `src/net/http/HttpResponse.cpp`)

The functions of `HttpServer.lean` and `HttpConnection.lean` with a `Buffer` for `InputBuffer_`, for
`OutputBuffer_` and for the local one in which `OnRequest` builds its response. A function answers
`none` when a byte outside of a vector is touched. -/

namespace HttpRequest

/-- At most `fuel` passes; every pass that goes on consumes a line, so `parseBuffer` has enough. -/
def parseBufferLoop (receiveTime : Timestamp) :
    (fuel : Nat) → HttpRequest → Buffer → Bool × HttpRequest × Buffer
  | 0, r, b => (true, r, b)
  | fuel + 1, r, b =>
      match parseBufferPass receiveTime r b with
      | .again r b => parseBufferLoop receiveTime fuel r b
      | .stop ok r b => (ok, r, b)

/-- `parse(buffer, ReceiveTime)` -/
def parseBuffer (r : HttpRequest) (b : Buffer) (receiveTime : Timestamp) :
    Bool × HttpRequest × Buffer :=
  parseBufferLoop receiveTime (b.readableBytes + 1) r b

end HttpRequest

namespace HttpResponse

/-- What `response` appends, one string after the other. -/
def strings (iterate : HeaderMap → HeaderMap) (res : HttpResponse) : List Bytes :=
  let prot := res.versionToString ++ bytes " " ++ bytes (toString res.stateCode) ++ bytes " "
    ++ res.stateMessage ++ crlf
  let res := res.setHeader kContentLength (bytes (toString res.body.length))
  let lines := (iterate res.headers).flatMap fun s => [s.1, bytes ": ", s.2, crlf]
  [prot] ++ lines ++ [crlf] ++ if res.body.isEmpty then [] else [res.body]

/-- `response(output)` -/
def responseBuffer (iterate : HeaderMap → HeaderMap) (res : HttpResponse) (output : Buffer) :
    Option (HttpResponse × Buffer) :=
  (output.appendAll (res.strings iterate)).map fun output =>
    (res.setHeader kContentLength (bytes (toString res.body.length)), output)

end HttpResponse

namespace HttpServer

variable (httpCallback : HttpRequest → HttpResponse → HttpResponse)
variable (iterate : HeaderMap → HeaderMap)

/-- `OnRequest(conn, req)` -/
def onRequestBuffer (req : HttpRequest) : Option (List HttpEvent) :=
  let res := httpCallback req .new
  (res.responseBuffer iterate (.new Buffer.kInitialSize)).map fun (res, buf) =>
    [.httpCallback req, .sendBuffer buf.readable] ++ if !res.keepAlive then [.shutdown] else []

/-- `OnMessage(conn, buf, ReceiveTime)`: the calls made, and what `buf` becomes. -/
def onMessageBuffer (buf : Buffer) (receiveTime : Timestamp) : Option (List HttpEvent × Buffer) :=
  let (ok, request, buf) := HttpRequest.new.parseBuffer buf receiveTime
  let rejected := if !ok then [.sendString badRequest, .shutdown] else []
  let dispatched :=
    if request.acceptable then onRequestBuffer httpCallback iterate request else some []
  dispatched.map fun dispatched => (rejected ++ dispatched, buf)

end HttpServer

namespace BufferedConnection

/-- A call of the message handler, `w` being the answer to a `::write` in it. -/
def serve (c : BufferedConnection) (w : WriteResult) :
    HttpEvent → Option (BufferedConnection × List TcpConnection.Effect)
  | .httpCallback _ => some (c, [])
  | .sendString data => c.send data w
  | .sendBuffer data => c.send data w
  | .shutdown => some c.shutdown

def serveAll (w : WriteResult) :
    BufferedConnection → List HttpEvent → Option (BufferedConnection × List TcpConnection.Effect)
  | c, [] => some (c, [])
  | c, e :: es =>
      (c.serve w e).bind fun (c, first) =>
        (serveAll w c es).map fun (c, rest) => (c, first ++ rest)

end BufferedConnection

/-- A connection of a server, and what has come of it. -/
structure ServedConnection where
  conn : BufferedConnection
  trace : List TcpConnection.Effect
  /-- The calls made in each `OnMessage`. -/
  messages : List (List HttpEvent)
  /-- The bytes that the connection has taken for output. -/
  accepted : Bytes
  /-- The replies of which it has taken bytes. -/
  replies : List HttpReply

namespace ServedConnection

/-- The bytes that the kernel has taken. -/
def wire (s : ServedConnection) : Bytes := TcpConnection.written s.trace

inductive Action
  /-- `HeadleRead`, with the answers of `readv` and of the `::write` of a reply. -/
  | headleRead (httpCallback : HttpRequest → HttpResponse → HttpResponse)
      (iterate : HeaderMap → HeaderMap) (receiveTime : Timestamp) (r : Buffer.Readv)
      (w : WriteResult)
  | handleWrite (w : WriteResult)
  | connectDestoryed

def perform (s : ServedConnection) (r : BufferedConnection × List TcpConnection.Effect) :
    ServedConnection :=
  { s with conn := r.1, trace := s.trace ++ r.2 }

/-- `OnMessage` on the bytes in `InputBuffer_`. -/
def onMessage (s : ServedConnection) (httpCallback : HttpRequest → HttpResponse → HttpResponse)
    (iterate : HeaderMap → HeaderMap) (receiveTime : Timestamp) (w : WriteResult) :
    Option ServedConnection :=
  (HttpServer.onMessageBuffer httpCallback iterate s.conn.inputBuffer receiveTime).bind
    fun (events, inputBuffer) =>
      (BufferedConnection.serveAll w { s.conn with inputBuffer } events).map fun (conn, effects) =>
        let taken := TcpConnection.handled effects
        let reply :=
          HttpServer.reply? httpCallback iterate s.conn.inputBuffer.readable receiveTime
        { conn
          trace := s.trace ++ effects
          messages := s.messages ++ [events]
          accepted := s.accepted ++ taken
          replies := s.replies ++ if taken = [] then [] else reply.toList }

def headleRead (s : ServedConnection) (httpCallback : HttpRequest → HttpResponse → HttpResponse)
    (iterate : HeaderMap → HeaderMap) (receiveTime : Timestamp) (r : Buffer.Readv)
    (w : WriteResult) : Option ServedConnection :=
  (s.conn.inputBuffer.readFromFd r).bind fun (n, _, inputBuffer) =>
    let s := { s with conn := { s.conn with inputBuffer } }
    if n > 0 then s.onMessage httpCallback iterate receiveTime w
    else if n = 0 then some (s.perform s.conn.handleClose)
    else some s

def step (s : ServedConnection) : Action → Option ServedConnection
  | .headleRead httpCallback iterate receiveTime r w =>
      s.headleRead httpCallback iterate receiveTime r w
  | .handleWrite w => some (s.perform (s.conn.handleWrite w))
  | .connectDestoryed => some (s.perform s.conn.connectDestoryed)

/-- `ConnectEstablished` was called, and nothing else has happened. -/
def Established (s : ServedConnection) : Prop :=
  ∃ fd connection writeComplete close highWaterMark,
    s = ⟨(BufferedConnection.new fd connection writeComplete close
      highWaterMark).connectEstablished.1, [], [], [], []⟩

/-- The state is `none` once a byte outside of a vector was touched. -/
def machine : Machine (Option ServedConnection) Action where
  init o := ∃ s : ServedConnection, s.Established ∧ o = some s
  step o a := o.map fun s => s.step a

end ServedConnection
