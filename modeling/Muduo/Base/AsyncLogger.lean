import Muduo.Base.FixedBuffer
import Muduo.Base.Timestamp
import Muduo.Lib.Machine

set_option autoImplicit false

/-! # AsyncLogger (`src/base/AsyncLogger.cpp`)

Any number of threads append messages to `CurrentBuffer_` and hand full buffers over in `buffers_`;
the logging thread swaps `buffers_` with a vector of its own and writes that to the file. `append`
holds `mutex_` from its first to its last access, so it is one step. `StartLog` is one step for
each access to what it shares, and for each buffer that it writes.

A `BufferPtr` is `none` when it is null. Following a null pointer, or asking an empty vector for its
last element, is a `fault`. -/

namespace AsyncLogger

abbrev Buffer := FixedBuffer kLargeBuffer

abbrev BufferPtr := Option Buffer

abbrev BufferVector := List BufferPtr

/-- A call of `LogFile::append`. -/
inductive Record
  /-- `Dropped log messages at (now), (buffers) larger buffers` -/
  | notice (now : Timestamp) (buffers : Nat)
  | buffer (data : Bytes)
deriving DecidableEq

/-- What the logging thread does next. -/
inductive Pc
  /-- The thread has not been started. -/
  | idle
  /-- `latch_.count_down()` and the declarations -/
  | countDown
  /-- `while (running_)` -/
  | testRunning
  | lock
  /-- `buffers_.empty()` -/
  | testBuffers
  /-- `cond_.wait_for`, which returns on a notification, after the interval or for no reason -/
  | waiting
  | pushCurrent
  | moveBuffer1
  | swap
  /-- `!NextBuffer_` -/
  | testNext
  | moveBuffer2
  | unlock
  /-- `BuffersWrite.size() > 25` -/
  | testSize
  | notice
  | erase
  /-- `k` buffers of `BuffersWrite` are written. -/
  | write (k : Nat)
  | resize
  | refillBuffer1
  | refillBuffer2
  | clear
  | flush
  | lastFlush
  | done
deriving DecidableEq

/-- `mutex_` is held. -/
def Pc.locked : Pc → Bool
  | .testBuffers => true
  | .pushCurrent => true
  | .moveBuffer1 => true
  | .swap => true
  | .testNext => true
  | .moveBuffer2 => true
  | .unlock => true
  | _ => false

/-- What the thread that calls `start` and `stop` has done. -/
inductive Owner
  | constructed
  /-- In `start`, before `latch_.wait()`. -/
  | waitLatch
  | started
  /-- In `stop`, after its store. -/
  | notify
  | join
  | stopped
deriving DecidableEq

end AsyncLogger

structure AsyncLogger where
  owner : AsyncLogger.Owner
  pc : AsyncLogger.Pc
  running : Bool
  currentBuffer : AsyncLogger.BufferPtr
  nextBuffer : AsyncLogger.BufferPtr
  buffers : AsyncLogger.BufferVector
  /-- The locals of `StartLog`. -/
  buffer1 : AsyncLogger.BufferPtr
  buffer2 : AsyncLogger.BufferPtr
  buffersWrite : AsyncLogger.BufferVector
  /-- What `output.append` has been called with. -/
  output : List AsyncLogger.Record
  fault : Bool
  /-- The messages, in the order in which their `append`s took `mutex_`. -/
  appended : List Bytes
  /-- What was in the buffers that the branch for too many buffers has erased. -/
  erased : List Bytes
  /-- The messages appended before `stop` stored `running_`. -/
  beforeStop : List Bytes

namespace AsyncLogger

/-- What is in a buffer. -/
def content (b : BufferPtr) : Bytes := b.elim [] (·.data)

inductive Action
  | append (msg : Bytes)
  | start
  /-- `latch_.wait()` -/
  | waitLatch
  /-- `stop`, up to its store. -/
  | stop
  | notify
  | join
  /-- The next step of `StartLog`; the time is read for the notice only. -/
  | log (now : Timestamp)

/-- The constructor. -/
def new : AsyncLogger where
  owner := .constructed
  pc := .idle
  running := false
  currentBuffer := some (.new _)
  nextBuffer := some (.new _)
  buffers := []
  buffer1 := none
  buffer2 := none
  buffersWrite := []
  output := []
  fault := false
  appended := []
  erased := []
  beforeStop := []

def append (s : AsyncLogger) (msg : Bytes) : AsyncLogger :=
  match s.currentBuffer with
  | none => { s with fault := true }
  | some current =>
      if current.freeSize > msg.length then
        { s with
          currentBuffer := some (current.append msg)
          appended := s.appended ++ [msg] }
      else
        let next := s.nextBuffer.getD (.new _)
        { s with
          buffers := s.buffers ++ [some current]
          nextBuffer := none
          currentBuffer := some (next.append msg)
          appended := s.appended ++ [msg] }

/-- `buffer = std::move(BuffersWrite.back())`, `pop_back` and `reset`, into the pointer that
    `store` sets. -/
def refill (s : AsyncLogger) (store : AsyncLogger → BufferPtr → AsyncLogger) : AsyncLogger :=
  match s.buffersWrite.getLast? with
  | some (some b) => store { s with buffersWrite := s.buffersWrite.dropLast } (some b.reset)
  | _ => { s with fault := true }

/-- `StartLog` -/
def log (s : AsyncLogger) (now : Timestamp) : Option AsyncLogger :=
  match s.pc with
  | .idle => none
  | .countDown =>
      some { s with pc := .testRunning, buffer1 := some (.new _), buffer2 := some (.new _) }
  | .testRunning => some { s with pc := if s.running then .lock else .lastFlush }
  | .lock => some { s with pc := .testBuffers }
  | .testBuffers => some { s with pc := if s.buffers = [] then .waiting else .pushCurrent }
  | .waiting => some { s with pc := .pushCurrent }
  | .pushCurrent =>
      some { s with
        pc := .moveBuffer1
        buffers := s.buffers ++ [s.currentBuffer]
        currentBuffer := none }
  | .moveBuffer1 => some { s with pc := .swap, currentBuffer := s.buffer1, buffer1 := none }
  | .swap =>
      some { s with pc := .testNext, buffersWrite := s.buffers, buffers := s.buffersWrite }
  | .testNext => some { s with pc := if s.nextBuffer = none then .moveBuffer2 else .unlock }
  | .moveBuffer2 => some { s with pc := .unlock, nextBuffer := s.buffer2, buffer2 := none }
  | .unlock => some { s with pc := .testSize }
  | .testSize => some { s with pc := if s.buffersWrite.length > 25 then .notice else .write 0 }
  | .notice =>
      some { s with
        pc := .erase
        output := s.output ++ [.notice now (s.buffersWrite.length - 2)] }
  | .erase =>
      some { s with
        pc := .write 0
        buffersWrite := s.buffersWrite.take 2
        erased := s.erased ++ (s.buffersWrite.drop 2).map content }
  | .write k =>
      match s.buffersWrite[k]? with
      | none => some { s with pc := .resize }
      | some none => some { s with fault := true }
      | some (some b) =>
          some { s with pc := .write (k + 1), output := s.output ++ [.buffer b.data] }
  | .resize =>
      some { s with
        pc := .refillBuffer1
        buffersWrite := if s.buffersWrite.length > 2 then s.buffersWrite.take 2
          else s.buffersWrite }
  | .refillBuffer1 =>
      let s := { s with pc := .refillBuffer2 }
      some (if s.buffer1 = none then s.refill fun s b => { s with buffer1 := b } else s)
  | .refillBuffer2 =>
      let s := { s with pc := .clear }
      some (if s.buffer2 = none then s.refill fun s b => { s with buffer2 := b } else s)
  | .clear => some { s with pc := .flush, buffersWrite := [] }
  | .flush => some { s with pc := .testRunning }
  | .lastFlush => some { s with pc := .done }
  | .done => none

def step (s : AsyncLogger) : Action → Option AsyncLogger
  | .append msg => if s.pc.locked then none else some (s.append msg)
  | .start =>
      if s.owner = .constructed then
        some { s with owner := .waitLatch, running := true, pc := .countDown }
      else none
  | .waitLatch =>
      if s.owner = .waitLatch ∧ s.pc ≠ .countDown then some { s with owner := .started } else none
  | .stop =>
      if s.owner = .started then
        some { s with owner := .notify, running := false, beforeStop := s.appended }
      else none
  | .notify => if s.owner = .notify then some { s with owner := .join } else none
  | .join =>
      if s.owner = .join ∧ s.pc = .done then some { s with owner := .stopped } else none
  | .log now => s.log now

/-- Any number of threads append while one starts and stops the logger. -/
def machine : Machine AsyncLogger Action where
  init s := s = new
  step := step

/-- Every message is shorter than a buffer. -/
def ShortMessages (_ : AsyncLogger) : Action → Prop
  | .append msg => msg.length < kLargeBuffer
  | _ => True

instance (s : AsyncLogger) (a : Action) : Decidable (ShortMessages s a) := by
  unfold ShortMessages
  split <;> infer_instance

/-! ## Where the messages are -/

/-- The log buffers handed to `LogFile::append` so far. -/
def logged (s : AsyncLogger) : List Bytes :=
  s.output.filterMap fun r =>
    match r with
    | .buffer data => some data
    | .notice _ _ => none

/-- The buffers of `BuffersWrite` that are still to be written. -/
def unwritten (s : AsyncLogger) : BufferVector :=
  match s.pc with
  | .write k => s.buffersWrite.drop k
  | .resize => []
  | .refillBuffer1 => []
  | .refillBuffer2 => []
  | .clear => []
  | _ => s.buffersWrite

end AsyncLogger
