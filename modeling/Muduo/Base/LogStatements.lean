import Muduo.Base.Logger
import Muduo.Base.LogPipeline

set_option autoImplicit false

/-! # Log statements (`include/base/Logger.h`, `src/base/Logger.cpp`)

Any number of threads execute the `LOG_` macros, `SetOutput` having been given a function that calls
`append` of an `AsyncLogger`. A statement tests its level, makes its record, hands it over and, with
`LOG_FATAL`, aborts the process. The record is made in the memory of its thread, so that a thread
meets the others at the test, in `append` and when it aborts. -/

/-- The number behind a level. -/
def LogLevel.toNat : LogLevel → Nat
  | .debug => 0
  | .info => 1
  | .warn => 2
  | .error => 3
  | .fatal => 4

/-- A `LOG_` statement as it is executed: where, and what is streamed into it. -/
structure LogStatement where
  site : LogSite
  level : LogLevel
  items : List LogStream.Item

/-- `LOG_DEBUG` and `LOG_INFO` ask for the level that is set, the others do not. -/
def LogStatement.enabled (st : LogStatement) (loglevel : LogLevel) : Bool :=
  match st.level with
  | .debug => loglevel.toNat ≤ LogLevel.debug.toNat
  | .info => loglevel.toNat ≤ LogLevel.info.toNat
  | .warn => true
  | .error => true
  | .fatal => true

inductive LoggingProcess.Thread
  | outside
  /-- Behind the test of the level. -/
  | logging (st : LogStatement)
  /-- The record of a `LOG_FATAL` is handed over; `g_flush` and `abort` come next. -/
  | aborting

structure LoggingProcess where
  pipeline : LogPipeline
  /-- `g_LogLevel` -/
  logLevel : LogLevel
  threads : Nat → LoggingProcess.Thread
  aborted : Bool
  /-- The statements, in the order in which their records were appended. -/
  logged : List LogStatement
  /-- Those whose records were appended before `stop` stored `running_`. -/
  loggedBeforeStop : List LogStatement

namespace LoggingProcess

/-- `debugOn` is `LOG_DEBUG_ON`. -/
def new (debugOn : Bool) : LoggingProcess where
  pipeline := .new
  logLevel := if debugOn then .debug else .info
  threads _ := .outside
  aborted := false
  logged := []
  loggedBeforeStop := []

inductive Action
  /-- A thread comes to a statement. -/
  | statement (t : Nat) (st : LogStatement)
  /-- It goes on to the end of the statement. -/
  | output (t : Nat)
  | abort (t : Nat)
  | setLogLevel (level : LogLevel)
  /-- A step of the logger other than an `append`. -/
  | pipeline (a : LogPipeline.Action)

def setThread (s : LoggingProcess) (t : Nat) (thread : Thread) : LoggingProcess :=
  { s with threads := Function.update s.threads t thread }

/-- The constructor, the insertions and the destructor of the `Logger`. -/
def output (s : LoggingProcess) (t : Nat) (st : LogStatement) : Option LoggingProcess := do
  let r ← Logger.log st.site st.level st.items
  let logger ← s.pipeline.logger.step (.append r.msg)
  some ({ s with
    pipeline := { s.pipeline with logger }
    logged := s.logged ++ [st] }.setThread t (if r.aborts then .aborting else .outside))

def stepPipeline (cfg : LogPipeline.Config) (s : LoggingProcess) (a : LogPipeline.Action) :
    Option LoggingProcess :=
  match a.1 with
  | .append _ => none
  | .stop => (s.pipeline.step cfg a).map fun pipeline =>
      { s with pipeline, loggedBeforeStop := s.logged }
  | _ => (s.pipeline.step cfg a).map fun pipeline => { s with pipeline }

def step (cfg : LogPipeline.Config) (s : LoggingProcess) (a : Action) : Option LoggingProcess :=
  if s.aborted then none
  else
    match a with
    | .statement t st =>
        match s.threads t with
        | .outside => some (if st.enabled s.logLevel then s.setThread t (.logging st) else s)
        | _ => none
    | .output t =>
        match s.threads t with
        | .logging st => s.output t st
        | _ => none
    | .abort t =>
        match s.threads t with
        | .aborting => some { s with aborted := true }
        | _ => none
    | .setLogLevel level => some { s with logLevel := level }
    | .pipeline a => s.stepPipeline cfg a

def machine (cfg : LogPipeline.Config) : Machine LoggingProcess Action where
  init s := ∃ debugOn, s = new debugOn
  step := step cfg

end LoggingProcess
