import Mathlib.Data.Int.Init
import Muduo.Base.Timestamp
import Muduo.Lib.Appending
import Muduo.Lib.Machine

set_option autoImplicit false

/-! # LogFile (`include/base/LogFile.h`, `src/base/LogFile.cpp`)

A log that goes on in a new file when the old one is too big or a day is over. `append` and `flush`
hold `mutex_` from their first to their last access, so each is one step. `file_` is a stream that
appends to the file it is open on and decides by itself when to pass on what it has; nobody else
writes to the files, and opening one does not fail. -/

/-- What the functions find outside: the clock of `::time(NULL)` at the call, the clock that
    `RollFile` reads, and how many bytes the stream passes on during a write. -/
structure LogFile.Answer where
  now : Int
  rollNow : Int
  spill : Nat
deriving DecidableEq

/-- A message that was written, with the clock at its `append`, the file it was written to and the
    time at which that file was opened. -/
structure LogFile.Routed where
  msg : Bytes
  time : Int
  file : Option Bytes
  opened : Int
deriving DecidableEq

/-- The arguments of the constructor. -/
structure LogFile.Args where
  name : Bytes
  roll : Int
  flush : Int := 5
  check : Int := 1024

structure LogFile where
  basename : Bytes
  rollSize : Int
  flushInterval : Int
  checkEveryN : Int
  count : Int
  start : Int
  lastRoll : Int
  lastFlush : Int
  /-- `file_`, with the files. -/
  file : Appending Bytes Byte
  filename : Bytes
  routed : List LogFile.Routed

namespace LogFile

def kRollPerSeconds : Int := 60 * 60 * 24

/-- The beginning of the day of `now`. -/
def dayOf (now : Int) : Int := now.tdiv kRollPerSeconds * kRollPerSeconds

/-- `LogFileName`; what `strftime` makes of a `struct tm` fits into `buf`. -/
def logFileName (localtime : Int → Tm) (name : Bytes) (now : Int) : Bytes :=
  let time := localtime now
  name ++ bytes "-" ++ Decimal.ofInt (time.year + 1900) ++ bytes "-"
    ++ Timestamp.zeroPadded 2 (time.mon + 1) ++ bytes "-" ++ Timestamp.zeroPadded 2 time.mday
    ++ bytes " " ++ Timestamp.zeroPadded 2 time.hour ++ bytes ":"
    ++ Timestamp.zeroPadded 2 time.min ++ bytes ":" ++ Timestamp.zeroPadded 2 time.sec
    ++ bytes ".log"

/-- `RollFile()`, the clock showing `now`. -/
def rollFile (localtime : Int → Tm) (l : LogFile) (now : Int) : Bool × LogFile :=
  if now > l.lastRoll then
    let filename := logFileName localtime l.basename now
    (true, { l with
      filename := filename
      lastRoll := now
      lastFlush := now
      start := dayOf now
      file := l.file.close.openFile filename })
  else (false, l)

/-- The constructor. -/
def new (localtime : Int → Tm) (files : Bytes → Option Bytes) (args : Args) (now : Int) : LogFile :=
  (rollFile localtime
    { basename := args.name
      rollSize := args.roll
      flushInterval := args.flush
      checkEveryN := args.check
      count := 0
      start := 0
      lastRoll := 0
      lastFlush := 0
      file := .new files
      filename := []
      routed := [] } now).2

/-- A file size as an `int`. -/
def sizeToInt (size : Nat) : Int := Int.bmod size (2 ^ 32)

/-- `file_.write(msg, len)` -/
def write (l : LogFile) (msg : Bytes) (answer : Answer) : LogFile :=
  { l with
    file := l.file.write msg answer.spill
    routed := l.routed ++ [⟨msg, answer.now, l.file.file, l.lastRoll⟩] }

/-- The branch of `append` for a file that is not too big. -/
def check (localtime : Int → Tm) (l : LogFile) (answer : Answer) : LogFile :=
  let l := { l with count := l.count + 1 }
  if l.count ≥ l.checkEveryN then
    let l := { l with count := 0 }
    let cur := dayOf answer.now
    if cur ≠ l.start then (l.rollFile localtime answer.rollNow).2
    else if answer.now - l.lastFlush > l.flushInterval then
      { l with lastFlush := answer.now, file := l.file.flush }
    else l
  else l

/-- `append(msg, len)`; `file_size` throws when there is no file. -/
def append (localtime : Int → Tm) (l : LogFile) (msg : Bytes) (answer : Answer) :
    Option LogFile :=
  let l := l.write msg answer
  (l.file.files l.filename).map fun file =>
    let size := sizeToInt file.length
    if size > l.rollSize then (l.rollFile localtime answer.rollNow).2
    else l.check localtime answer

/-- `flush()` -/
def flush (l : LogFile) : LogFile := { l with file := l.file.flush }

/-- The destructor closes `file_`. -/
def destroy (l : LogFile) : LogFile := { l with file := l.file.close }

/-! ## Runs -/

inductive Action
  | append (msg : Bytes) (answer : Answer)
  | flush
  /-- `RollFile()` is public. -/
  | rollFile (now : Int)

def step (localtime : Int → Tm) (l : LogFile) : Action → Option LogFile
  | .append msg answer => l.append localtime msg answer
  | .flush => some l.flush
  | .rollFile now => some (l.rollFile localtime now).2

/-- The calls of a log file that was constructed at `now`. -/
def machine (localtime : Int → Tm) (files : Bytes → Option Bytes) (args : Args) (now : Int) :
    Machine LogFile Action where
  init l := l = new localtime files args now
  step := step localtime

/-- The message that a call appends. -/
def Action.msg : Action → Option Bytes
  | .append msg _ => some msg
  | _ => none

end LogFile
