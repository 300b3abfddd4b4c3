import Muduo.Http.HttpResponse

set_option autoImplicit false

/-! # HttpServer (`src/net/http/HttpServer.cpp`)

What a message handler does is the list of the calls it makes, in order: the invocations of
`HttpCallback_` and the calls on the connection. The input buffer is the queue of its bytes. -/

/-- A call made while a message is handled. -/
inductive HttpEvent
  | httpCallback (req : HttpRequest)
  /-- `conn->send(const std::string &)` -/
  | sendString (data : Bytes)
  /-- `conn->send(Buffer *)` -/
  | sendBuffer (data : Bytes)
  | shutdown
deriving DecidableEq

/-- The request that `HttpCallback_` was invoked with. -/
def HttpEvent.request? : HttpEvent → Option HttpRequest
  | .httpCallback req => some req
  | _ => none

namespace HttpServer

/-- The text sent for a request that does not parse. -/
def badRequest : Bytes := bytes "HTTP/1.1 400 Bad Request" ++ crlf ++ crlf

/-- `HttpCallback_` when none is set; it does not look at the request. -/
def defaultHttpCallback (res : HttpResponse) : HttpResponse :=
  ((res.setStateCode Http.StateCode.notFound.toInt).setSateMessage
    (bytes "Not Found")).setKeepAlive false

variable (httpCallback : HttpRequest → HttpResponse → HttpResponse)
variable (iterate : HeaderMap → HeaderMap)

def onRequest (req : HttpRequest) : List HttpEvent :=
  let res := httpCallback req .new
  let (res, buf) := res.response iterate
  [.httpCallback req, .sendBuffer buf] ++ if !res.keepAlive then [.shutdown] else []

/-- `OnMessage(conn, buf, ReceiveTime)`: the calls made and the bytes left in `buf`. -/
def onMessage (buf : Bytes) (receiveTime : Timestamp) : List HttpEvent × Bytes :=
  let request := HttpRequest.new
  let (ok, request, buf) := request.parse buf receiveTime
  let rejected := if !ok then [.sendString badRequest, .shutdown] else []
  let dispatched := if request.acceptable then onRequest httpCallback iterate request else []
  (rejected ++ dispatched, buf)

end HttpServer

/-! ## A connection that receives -/

/-- The input buffer of a connection and the calls made on its behalf so far. -/
structure HttpSession where
  inputBuffer : Bytes
  events : List HttpEvent
deriving DecidableEq

namespace HttpSession

def new : HttpSession := ⟨[], []⟩

variable (httpCallback : HttpRequest → HttpResponse → HttpResponse)
variable (iterate : HeaderMap → HeaderMap)

/-- `TcpConnection::HeadleRead` when the read delivers the bytes `chunk` at `receiveTime`. -/
def headleRead (s : HttpSession) (receiveTime : Timestamp) (chunk : Bytes) : HttpSession :=
  let (events, inputBuffer) :=
    HttpServer.onMessage httpCallback iterate (s.inputBuffer ++ chunk) receiveTime
  { inputBuffer, events := s.events ++ events }

/-- The reads of a connection, one after the other. -/
def headleReads (s : HttpSession) (reads : List (Timestamp × Bytes)) : HttpSession :=
  reads.foldl (fun s read => s.headleRead httpCallback iterate read.1 read.2) s

/-- The requests that `HttpCallback_` was invoked with, in order. -/
def dispatched (s : HttpSession) : List HttpRequest :=
  s.events.filterMap HttpEvent.request?

end HttpSession
