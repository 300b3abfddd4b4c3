import Muduo.Base.LogStream
import Muduo.Base.Timestamp

set_option autoImplicit false

/-! # Logger (`include/base/Logger.h`, `src/base/Logger.cpp`)

A logger lives for one record: the constructor streams the head of the record, the user the items,
and the destructor the rest. -/

inductive LogLevel
  | debug
  | info
  | warn
  | error
  | fatal
deriving DecidableEq

def logLevelName : LogLevel → Bytes
  | .debug => bytes "DEBUG "
  | .info => bytes "INFO  "
  | .warn => bytes "WARN  "
  | .error => bytes "ERROR "
  | .fatal => bytes "FATAL "

structure Logger where
  stream : FixedBuffer.Memory
  level : LogLevel
  line : LogStream.Integer
  line_int : line.type = .int
  basename : Bytes

namespace Logger

open LogStream

/-- What the constructor streams. -/
def head (localtime : Int → Tm) (tv : Timeval) (level : LogLevel) : List Item :=
  [.string ((Timestamp.now tv).toString localtime), .char 32, .cString (some (logLevelName level))]

/-- What the destructor streams. -/
def tail (file : Bytes) (line : Integer) : List Item :=
  [.cString (some (bytes " - ")), .string file, .char 58, .integer line, .char 10]

/-- What the destructor passes to `g_output`, and whether it flushes and aborts after that. -/
structure Record where
  msg : Bytes
  aborts : Bool

/-- `~Logger()`. -/
def destroy (l : Logger) : Option Record := do
  let stream ← (tail l.basename l.line).foldlM insert l.stream
  some ⟨stream.toString, l.level == .fatal⟩

/-- `<<` on `stream()`. -/
def insertAll (l : Logger) (items : List Item) : Option Logger := do
  let stream ← items.foldlM insert l.stream
  some { l with stream := stream }

end Logger

/-- Where and when a record is logged: the file and the line, the clock and what `localtime` makes
    of it, and the memory that the buffer of the stream is in. -/
structure LogSite where
  file : Bytes
  line : LogStream.Integer
  line_int : line.type = .int
  tv : Timeval
  localtime : Int → Tm
  data : Bytes
  length_data : data.length = kSmallBuffer

namespace Logger

open LogStream

def new (site : LogSite) (level : LogLevel) : Option Logger := do
  let stream ← ofItems site.data (head site.localtime site.tv level)
  some ⟨stream, level, site.line, site.line_int, site.file⟩

/-- The constructor without a level. -/
def newInfo (site : LogSite) : Option Logger := new site .info

/-- A record from its constructor to its destructor. -/
def log (site : LogSite) (level : LogLevel) (items : List Item) : Option Record := do
  let l ← new site level
  let l ← l.insertAll items
  l.destroy

end Logger
