import Muduo.Http.HttpRequest

set_option autoImplicit false

/-! # HttpResponse (`include/net/http/HttpResponse.h`, `src/net/http/HttpResponse.cpp`)

The constructor sets `Connection` and no member function removes a key, so every response carries
the header that `KeepAlive` looks up with `at`: the structure keeps this as a field. -/

def kConnection : Bytes := bytes "Connection"

def kContentLength : Bytes := bytes "Content-Length"

structure HttpResponse where
  version : Http.Version
  stateCode : Int
  stateMessage : Bytes
  headers : HeaderMap
  body : Bytes
  /-- `headers_.at("Connection")` does not throw. -/
  hasConnection : (HeaderMap.get? headers kConnection).isSome

namespace HttpResponse

/-- `SetHeader(k, v)`. -/
def setHeader (res : HttpResponse) (k v : Bytes) : HttpResponse :=
  { res with
    headers := HeaderMap.set res.headers k v
    hasConnection := by
      rw [HeaderMap.get?_set]
      split
      · rfl
      · exact res.hasConnection }

def setKeepAlive (res : HttpResponse) (on : Bool) : HttpResponse :=
  res.setHeader kConnection (if on then bytes "Keep-Alive" else bytes "close")

/-- The constructor. -/
def new : HttpResponse where
  version := .http11
  stateCode := 0
  stateMessage := []
  headers := HeaderMap.set [] kConnection (bytes "Keep-Alive")
  body := []
  hasConnection := by
    rw [HeaderMap.get?_set, if_pos rfl]
    rfl

def setVersion (res : HttpResponse) (v : Http.Version) : HttpResponse := { res with version := v }

/-- `SetStateCode(int)`. -/
def setStateCode (res : HttpResponse) (code : Int) : HttpResponse := { res with stateCode := code }

def setSateMessage (res : HttpResponse) (msg : Bytes) : HttpResponse :=
  { res with stateMessage := msg }

def setBody (res : HttpResponse) (body : Bytes) : HttpResponse := { res with body }

/-- `SetContentLength(len)`. A number assigned to a `std::string` is converted to a `char`. -/
def setContentLength (res : HttpResponse) (len : Nat) : HttpResponse :=
  res.setHeader kContentLength [len.toUInt8]

def keepAlive (res : HttpResponse) : Bool :=
  (HeaderMap.get? res.headers kConnection).get res.hasConnection != bytes "close"

def versionToString (res : HttpResponse) : Bytes :=
  if res.version = .http10 then bytes "HTTP/1.0"
  else if res.version = .http11 then bytes "HTTP/1.1"
  else bytes "HTTP/2.0"

/-- `response(output)`: the response with its `Content-Length` set, and the bytes appended to
    `output`. `iterate` is the order in which `for` goes through the header map. -/
def response (iterate : HeaderMap → HeaderMap) (res : HttpResponse) : HttpResponse × Bytes :=
  let prot := res.versionToString ++ bytes " " ++ bytes (toString res.stateCode) ++ bytes " "
    ++ res.stateMessage ++ crlf
  let res := res.setHeader kContentLength (bytes (toString res.body.length))
  let lines := (iterate res.headers).flatMap fun s => s.1 ++ bytes ": " ++ s.2 ++ crlf
  (res, prot ++ lines ++ crlf ++ res.body)

/-! ## Histories -/

/-- A call that sets something. -/
inductive Call
  | setVersion (v : Http.Version)
  | setStateCode (code : Int)
  /-- `SetStateCode(StateCode)` -/
  | setStateCodeOf (code : Http.StateCode)
  | setSateMessage (msg : Bytes)
  | setHeader (k v : Bytes)
  | setKeepAlive (on : Bool)
  | setContentLength (len : Nat)
  | setBody (body : Bytes)

def call (res : HttpResponse) : Call → HttpResponse
  | .setVersion v => res.setVersion v
  | .setStateCode code => res.setStateCode code
  | .setStateCodeOf code => res.setStateCode code.toInt
  | .setSateMessage msg => res.setSateMessage msg
  | .setHeader k v => res.setHeader k v
  | .setKeepAlive on => res.setKeepAlive on
  | .setContentLength len => res.setContentLength len
  | .setBody body => res.setBody body

/-- A response on which the calls were made. -/
def ofCalls (calls : List Call) : HttpResponse := calls.foldl call .new

end HttpResponse
