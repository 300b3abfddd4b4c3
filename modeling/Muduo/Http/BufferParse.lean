import Muduo.Http.HttpRequest
import Muduo.Net.Buffer

set_option autoImplicit false

/-! # HttpRequest::parse on a Buffer (`src/net/http/HttpRequest.cpp`)

The parser as the source has it, with pointers into `buffer_`: a pointer is an index, `peek()` is
`ReaderIndex_`, and `RetrieveUntil` moves it. The loop has no bound, so a run of it is a derivation:
`Parses` holds of what the loop ends with, if it ends. -/

open Storage

namespace Buffer

/-- `findCRLF()`; `none` is `NULL`. -/
def findCRLF (b : Buffer) : Option Nat :=
  let found := b.readerIndex + Delimited.search crlf b.readable
  if found = b.writerIndex then none else some found

end Buffer

namespace HttpRequest

/-- What one pass through the body of `while(parsing)` leaves. -/
inductive BufferPass
  | again (r : HttpRequest) (b : Buffer)
  | stop (ok : Bool) (r : HttpRequest) (b : Buffer)

def parseBufferPass (receiveTime : Timestamp) (r : HttpRequest) (b : Buffer) : BufferPass :=
  match r.state with
  | .parseLine =>
      match b.findCRLF with
      | some cr =>
          let (ok, r) := r.parseLine (slice b.buffer b.readerIndex cr)
          if ok then
            .again ((r.setReceiveTime receiveTime).setState .parseHeader) (b.retrieveUntil (cr + 2))
          else .stop false r b
      | none => .stop true r b
  | .parseHeader =>
      match b.findCRLF with
      | some cr =>
          let colon := b.readerIndex + (slice b.buffer b.readerIndex cr).idxOf 58
          if colon ≠ cr then
            let text := slice b.buffer b.readerIndex (cr + 1)
            .again (r.addHeader text (colon - b.readerIndex) (cr - b.readerIndex))
              (b.retrieveUntil (cr + 2))
          else .stop true (r.setState .down) (b.retrieveUntil (cr + 2))
      | none => .stop true r b
  | .down => .stop true r b

/-- The loop started with `r` on `b` ends and leaves `result`: the value returned, the request and
    the buffer. -/
inductive Parses (receiveTime : Timestamp) :
    HttpRequest → Buffer → (result : Bool × HttpRequest × Buffer) → Prop
  | stop {r r' : HttpRequest} {b b' : Buffer} {ok : Bool}
      (hpass : parseBufferPass receiveTime r b = .stop ok r' b') :
      Parses receiveTime r b (ok, r', b')
  | again {r r' : HttpRequest} {b b' : Buffer} {result : Bool × HttpRequest × Buffer}
      (hpass : parseBufferPass receiveTime r b = .again r' b')
      (hrest : Parses receiveTime r' b' result) : Parses receiveTime r b result

end HttpRequest
