import Muduo.Base.Bytes
import Muduo.Base.Timestamp
import Muduo.Http.HttpHead
import Muduo.Lib.Delimited
import Muduo.Lib.Storage

set_option autoImplicit false

/-! # HttpRequest (`include/net/http/HttpRequest.h`, `src/net/http/HttpRequest.cpp`)

The parser reads from the readable bytes of a buffer, here the list of the bytes from `peek()` to
`BeginWrite()`: `RetrieveUntil(p)` drops the bytes before `p`. A pointer into the text is its
distance from the first byte of the text. `std::find` is `List.idxOf`, which answers the length (the
end pointer) when nothing is found. -/

/-- `kCRLF`. -/
def crlf : Bytes := [13, 10]

/-- `Buffer::findCRLF` as a distance from `peek()`; `none` is `NULL`. -/
def findCRLF (readable : Bytes) : Option Nat :=
  let found := Delimited.search crlf readable
  if found = readable.length then none else some found

/-- The white space of the C locale. -/
def isspace (c : Byte) : Bool := c == 32 || (9 ≤ c && c ≤ 13)

/-! ## Header maps -/

/-- `std::unordered_map<std::string, std::string>`, its entries in some order. -/
abbrev HeaderMap := List (Bytes × Bytes)

/-- `headers_[key] = value`. -/
def HeaderMap.set : HeaderMap → Bytes → Bytes → HeaderMap
  | [], key, value => [(key, value)]
  | (k, v) :: rest, key, value =>
      if k = key then (k, value) :: rest else (k, v) :: HeaderMap.set rest key value

/-- `headers_.find(key)`. -/
def HeaderMap.get? : HeaderMap → Bytes → Option Bytes
  | [], _ => none
  | (k, v) :: rest, key => if k = key then some v else HeaderMap.get? rest key

theorem HeaderMap.get?_set (m : HeaderMap) (key value k : Bytes) :
    HeaderMap.get? (HeaderMap.set m key value) k
      = if key = k then some value else HeaderMap.get? m k := by
  induction m with
  | nil => simp [HeaderMap.set, HeaderMap.get?]
  | cons e rest ih =>
      obtain ⟨k', v'⟩ := e
      by_cases hk : k' = key
      · subst hk
        simp only [HeaderMap.set, HeaderMap.get?, if_true]
        split <;> rfl
      · simp only [HeaderMap.set, if_neg hk, HeaderMap.get?, ih]
        by_cases hk' : k' = k
        · subst hk'
          rw [if_pos rfl, if_neg (fun h => hk h.symm), if_pos rfl]
        · rw [if_neg hk', if_neg hk']

namespace HttpRequest

inductive ParseState
  | parseLine | parseHeader | down
deriving DecidableEq

end HttpRequest

structure HttpRequest where
  method : Http.Method
  version : Http.Version
  url : Bytes
  query : Bytes
  receiveTime : Timestamp
  state : HttpRequest.ParseState
  headers : HeaderMap
deriving DecidableEq

namespace HttpRequest

/-- The constructor. -/
def new : HttpRequest where
  method := .unknown
  version := .http11
  url := []
  query := []
  receiveTime := .zero
  state := .parseLine
  headers := []

def setMethod (r : HttpRequest) (m : Bytes) : HttpRequest :=
  if m = bytes "GET" then { r with method := .GET }
  else if m = bytes "HEAD" then { r with method := .HEAD }
  else if m = bytes "POST" then { r with method := .POST }
  else if m = bytes "PUT" then { r with method := .PUT }
  else if m = bytes "DELETE" then { r with method := .DELETE }
  else { r with method := .unknown }

def setReceiveTime (r : HttpRequest) (t : Timestamp) : HttpRequest := { r with receiveTime := t }

/-- `state_ = state`. -/
def setState (r : HttpRequest) (state : ParseState) : HttpRequest := { r with state }

def acceptable (r : HttpRequest) : Bool := r.state == .down

/-! ## Header lines -/

/-- `while(colon < end && isspace(*colon)) ++colon;` with `n = end - colon`. -/
def skipSpaces (text : Bytes) : (n : Nat) → (colon : Nat) → Nat
  | 0, colon => colon
  | n + 1, colon => if isspace (text.getD colon 0) then skipSpaces text n (colon + 1) else colon

/-- `while(end > colon && isspace(*end)) --end;` with `n = end - colon`. -/
def trimSpaces (text : Bytes) : (n : Nat) → (stop : Nat) → Nat
  | 0, stop => stop
  | n + 1, stop => if isspace (text.getD stop 0) then trimSpaces text n (stop - 1) else stop

/-- `AddHeader(start, colon, end)`: `text` runs from `start` to the byte at `end`, which the second
    loop reads before any byte of the value. -/
def addHeader (r : HttpRequest) (text : Bytes) (colon stop : Nat) : HttpRequest :=
  let key := text.take colon
  let first := skipSpaces text (stop - (colon + 1)) (colon + 1)
  let last := trimSpaces text (stop - first) stop
  { r with headers := HeaderMap.set r.headers key (Storage.slice text first last) }

/-- `header(filed)`. -/
def header (r : HttpRequest) (filed : Bytes) : Bytes := (r.headers.get? filed).getD []

/-! ## The request line -/

/-- `ParseLine(begin, end)` on the line `[begin, end)`. The fields set before a failure stay set. -/
def parseLine (r : HttpRequest) (line : Bytes) : Bool × HttpRequest :=
  let space := line.idxOf 32
  if space ≠ line.length then
    let r := r.setMethod (line.take space)
    if r.method = .unknown then (false, r)
    else
      let start := line.drop (space + 1)
      let space := start.idxOf 32
      if space ≠ start.length then
        let target := start.take space
        let question := target.idxOf 63
        let r :=
          if question ≠ target.length then
            { r with url := target.take question, query := target.drop question }
          else { r with url := target }
        let start := start.drop (space + 1)
        -- the last three characters are not compared as a whole
        if start.length = 8 ∧ start.take 5 = bytes "HTTP/" then
          if start.getD 5 0 = 50 then (true, { r with version := .http20 })
          else if start.getD 7 0 = 48 then (true, { r with version := .http10 })
          else if start.getD 7 0 = 49 then (true, { r with version := .http11 })
          else (false, r)
        else (false, r)
      else (false, r)
  else (false, r)

/-! ## The parser loop -/

/-- What one pass through the body of `while(parsing)` leaves. -/
inductive Pass
  | again (r : HttpRequest) (buffer : Bytes)
  | stop (ok : Bool) (r : HttpRequest) (buffer : Bytes)

def parsePass (receiveTime : Timestamp) (r : HttpRequest) (buffer : Bytes) : Pass :=
  match r.state with
  | .parseLine =>
      match findCRLF buffer with
      | some cr =>
          let (ok, r) := r.parseLine (buffer.take cr)
          if ok then
            .again ((r.setReceiveTime receiveTime).setState .parseHeader) (buffer.drop (cr + 2))
          else .stop false r buffer
      | none => .stop true r buffer
  | .parseHeader =>
      match findCRLF buffer with
      | some cr =>
          let colon := (buffer.take cr).idxOf 58
          if colon ≠ cr then
            .again (r.addHeader (buffer.take (cr + 1)) colon cr) (buffer.drop (cr + 2))
          else .stop true (r.setState .down) (buffer.drop (cr + 2))
      | none => .stop true r buffer
  | .down => .stop true r buffer

/-- At most `fuel` passes; every pass that goes on consumes a line, so `parse` has enough. -/
def parseLoop (receiveTime : Timestamp) :
    (fuel : Nat) → HttpRequest → Bytes → Bool × HttpRequest × Bytes
  | 0, r, buffer => (true, r, buffer)
  | fuel + 1, r, buffer =>
      match parsePass receiveTime r buffer with
      | .again r buffer => parseLoop receiveTime fuel r buffer
      | .stop ok r buffer => (ok, r, buffer)

/-- `parse(buffer, ReceiveTime)`: the value returned, the request and the unread bytes. -/
def parse (r : HttpRequest) (buffer : Bytes) (receiveTime : Timestamp) :
    Bool × HttpRequest × Bytes :=
  parseLoop receiveTime (buffer.length + 1) r buffer

end HttpRequest
