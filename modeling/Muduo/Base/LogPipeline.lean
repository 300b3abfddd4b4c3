import Muduo.Base.AsyncLogger
import Muduo.Base.LogFile

set_option autoImplicit false

/-! # AsyncLogger and its LogFile (`src/base/AsyncLogger.cpp`, `src/base/LogFile.cpp`)

`StartLog` has a `LogFile` of its own: it is constructed with the other locals, gets the buffers and
the notices, is flushed at the end of every pass and behind the loop, and closes its file when the
thread leaves. A step of the logger is a step here, with what it does to the `LogFile`. -/

/-- What `buf` holds of `"Dropped log messages at %s, %zd larger buffers\n"`. -/
def AsyncLogger.noticeText (localtime : Int → Tm) (now : Timestamp) (buffers : Nat) : Bytes :=
  (bytes "Dropped log messages at " ++ now.toString localtime ++ bytes ", "
    ++ Decimal.ofNat buffers ++ bytes " larger buffers\n").take 255

structure LogPipeline where
  logger : AsyncLogger
  /-- `output`, from its construction on. -/
  output : Option LogFile

namespace LogPipeline

/-- The arguments of the logger, what is on the disk before it, and what `localtime` makes of a
    time. -/
structure Config where
  localtime : Int → Tm
  files : Bytes → Option Bytes
  basename : Bytes
  rollSize : Int

/-- `LogFile output(basename_, RollSize_)` -/
def Config.args (cfg : Config) : LogFile.Args where
  name := cfg.basename
  roll := cfg.rollSize

def new : LogPipeline where
  logger := .new
  output := none

/-- A step of the logger, with what its `LogFile` finds outside. -/
abbrev Action := AsyncLogger.Action × LogFile.Answer

/-- `output.append(msg, len)` -/
def append (cfg : Config) (s : LogPipeline) (msg : Bytes) (answer : LogFile.Answer) :
    Option (Option LogFile) :=
  s.output.bind fun l => (l.append cfg.localtime msg answer).map some

/-- What the next step of `StartLog` does to `output`. -/
def log (cfg : Config) (s : LogPipeline) (now : Timestamp) (answer : LogFile.Answer) :
    Option (Option LogFile) :=
  match s.logger.pc with
  | .countDown => some (some (.new cfg.localtime cfg.files cfg.args answer.now))
  | .notice =>
      s.append cfg (AsyncLogger.noticeText cfg.localtime now (s.logger.buffersWrite.length - 2))
        answer
  | .write k =>
      match s.logger.buffersWrite[k]? with
      | some (some b) => s.append cfg b.data answer
      | _ => some s.output
  | .flush => some (s.output.map LogFile.flush)
  | .lastFlush => some (s.output.map fun l => l.flush.destroy)
  | _ => some s.output

def step (cfg : Config) (s : LogPipeline) (a : Action) : Option LogPipeline :=
  (s.logger.step a.1).bind fun logger =>
    match a.1 with
    | .log now => (s.log cfg now a.2).map fun output => ⟨logger, output⟩
    | _ => some ⟨logger, s.output⟩

/-- Any number of threads append while one starts and stops the logger. -/
def machine (cfg : Config) : Machine LogPipeline Action where
  init s := s = new
  step := step cfg

/-- The clock is past its zero when the `LogFile` is constructed. -/
def ClockSet (s : LogPipeline) (a : Action) : Prop :=
  s.logger.pc = .countDown → 0 < a.2.now

instance (s : LogPipeline) (a : Action) : Decidable (s.ClockSet a) :=
  inferInstanceAs (Decidable (_ → _))

end LogPipeline
