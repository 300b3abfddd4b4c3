import Muduo.Base.LogStatements
import Muduo.Base.Proofs.Logger
import Muduo.Base.Proofs.LogPipeline

set_option autoImplicit false

/-! # From a log statement to the files

A statement that streams no line break and no negative integer, and fits into the buffer of its
stream, makes one line (`LogStatement.log_of_oneLine`). The process then is a run of the pipeline
whose messages are these lines (`Mirrors`), and what is read back from the files is what was
streamed. -/

open LogStream (Item kMaxNumericSize written)

namespace LogStream

/-- A negative integer has no digits to write. -/
instance (item : Item) : Decidable item.Defined :=
  match item with
  | .integer v => inferInstanceAs (Decidable (0 ≤ v.value))
  | .bool _ | .char _ | .cString _ | .string _ | .double _ | .append _ => isTrue trivial

theorem Item.need_le (item : Item) : item.need ≤ item.text.length + kMaxNumericSize := by
  cases item with
  | integer v => exact Nat.le_add_left _ _
  | double v => exact Nat.le_trans (Nat.sub_le _ _) (Nat.le_add_left _ _)
  | bool | char | cString | string | append => exact Nat.le_add_right _ _

end LogStream

namespace LogStatement

/-- All that a statement streams, written out. -/
def line (st : LogStatement) : Bytes :=
  (Logger.streamed st.site st.level st.items).flatMap Item.text

/-- What the statement streams is one line, has digits and fits. -/
structure OneLine (st : LogStatement) : Prop where
  items : ∀ item ∈ st.items, (10 : Byte) ∉ item.text ∧ item.Defined
  file : (10 : Byte) ∉ st.site.file
  number : 0 ≤ st.site.line.value
  fits : st.line.length + kMaxNumericSize < kSmallBuffer

instance (st : LogStatement) : Decidable st.OneLine :=
  decidable_of_iff
    ((∀ item ∈ st.items, (10 : Byte) ∉ item.text ∧ item.Defined) ∧ (10 : Byte) ∉ st.site.file ∧
      0 ≤ st.site.line.value ∧ st.line.length + kMaxNumericSize < kSmallBuffer)
    ⟨fun ⟨items, file, number, fits⟩ => ⟨items, file, number, fits⟩,
      fun h => ⟨h.items, h.file, h.number, h.fits⟩⟩

variable {st : LogStatement}

theorem OneLine.length_lt (h : st.OneLine) : st.line.length < kLargeBuffer := by
  have hfits := h.fits
  have hsize : kSmallBuffer ≤ kLargeBuffer := by decide
  omega

/-- The line break of the destructor is the only one. -/
theorem OneLine.terminated (h : st.OneLine) : Terminated (10 : Byte) st.line := by
  have hfront : ∀ item ∈ Logger.head st.site.localtime st.site.tv st.level ++ st.items,
      (10 : Byte) ∉ item.text := by
    intro item hitem
    rcases List.mem_append.1 hitem with hitem | hitem
    · exact Logger.newline_notMem_head _ _ _ item hitem
    · exact (h.items item hitem).1
  have htail : (Logger.tail st.site.file st.site.line).flatMap Item.text
      = ([32, 45, 32] ++ st.site.file ++ [58] ++ Decimal.ofInt st.site.line.value) ++ [10] := by
    have hdash : LogStream.cStr (bytes " - ") = [32, 45, 32] := by decide
    simp [Logger.tail, Item.text, hdash]
  rw [line, Logger.streamed, List.flatMap_append, htail,
    Terminated.append_iff_right, Terminated.append_singleton_iff]
  · have hnumber := Decimal.notMem_ofInt (b := (10 : Byte)) (by decide) (by decide)
      st.site.line.value
    simp only [List.mem_append, not_or]
    exact ⟨⟨⟨by decide, h.file⟩, by decide⟩, hnumber⟩
  · intro hmem
    obtain ⟨item, hitem, hmem⟩ := List.mem_flatMap.1 hmem
    exact hfront item hitem hmem

theorem OneLine.defined (h : st.OneLine) :
    ∀ item ∈ Logger.streamed st.site st.level st.items, item.Defined := by
  intro item hitem
  simp only [Logger.streamed, Logger.head, Logger.tail, List.mem_append, List.mem_cons,
    List.not_mem_nil, or_false] at hitem
  rcases hitem with ((rfl | rfl | rfl) | hitem) | rfl | rfl | rfl | rfl | rfl
  case inl.inr => exact (h.items item hitem).2
  case inr.inr.inr.inr.inl => exact h.number
  all_goals exact trivial

/-- The record is the line. -/
theorem OneLine.log (h : st.OneLine) :
    ∃ r, Logger.log st.site st.level st.items = some r ∧ r.msg = st.line := by
  have hkept : written kSmallBuffer (Logger.streamed st.site st.level st.items)
      = Logger.streamed st.site st.level st.items :=
    Lossy.kept_eq_self Item.need_le h.fits
  have hdefined : ∀ item ∈ written kSmallBuffer (Logger.streamed st.site st.level st.items),
      item.Defined := by
    rw [hkept]
    exact h.defined
  obtain ⟨r, hr, hmsg⟩ := Logger.log_eq_some hdefined
  exact ⟨r, hr, by rw [hmsg, Logger.said, hkept, line]⟩

end LogStatement

namespace AsyncLogger

theorem appended_of_append {s t : AsyncLogger} {msg : Bytes} (h : s.Sound)
    (hstep : s.step (.append msg) = some t) :
    t.appended = s.appended ++ [msg] ∧ t.beforeStop = s.beforeStop := by
  rcases step_cases hstep with ⟨msg', heq, hfree, rfl⟩ | ⟨now, heq, -⟩ | hcall
  · obtain rfl := Action.append.inj heq
    refine ⟨?_, by simp only [s.append_frame msg]⟩
    obtain ⟨current, -, ⟨-, heq⟩ | heq⟩ := append_cases h (h.phase.shared hfree) msg <;> rw [heq]
  · exact absurd heq (by simp)
  · nomatch hcall

/-- What the other steps do to the messages. -/
theorem appended_of_ne_append {s t : AsyncLogger} {a : Action} (hstep : s.step a = some t)
    (hnot : ∀ msg, a ≠ .append msg) :
    t.appended = s.appended ∧
      (a = .stop ∧ t.beforeStop = s.appended ∨ a ≠ .stop ∧ t.beforeStop = s.beforeStop) := by
  rcases step_cases hstep with ⟨msg, heq, -⟩ | ⟨now, rfl, hlog⟩ | hcall
  · exact absurd heq (hnot msg)
  · obtain ⟨-, -, happended, hbefore⟩ := hlog.frame
    exact ⟨happended, Or.inr ⟨by simp, hbefore⟩⟩
  · cases hcall with
    | stop howner => exact ⟨rfl, Or.inl ⟨rfl, rfl⟩⟩
    | start | waitLatch | notify | join => exact ⟨rfl, Or.inr ⟨by simp, rfl⟩⟩

end AsyncLogger

namespace LoggingProcess

variable {cfg : LogPipeline.Config} {s t : LoggingProcess} {a : Action}

/-! ## Steps -/

theorem setThread_cases {i j : Nat} {thread : Thread} {st : LogStatement}
    (h : (s.setThread i thread).threads j = .logging st) :
    j = i ∧ thread = .logging st ∨ s.threads j = .logging st := by
  unfold setThread at h
  dsimp only at h
  by_cases hij : j = i
  · subst hij
    exact Or.inl ⟨rfl, by rwa [Function.update_self] at h⟩
  · exact Or.inr (by rwa [Function.update_of_ne hij] at h)

/-- What a step does to the logger, and which statement it logs. -/
inductive Steps (cfg : LogPipeline.Config) (s : LoggingProcess) : Action → LoggingProcess → Prop
  /-- The logger is left alone. -/
  | outside {a : Action} {t : LoggingProcess} (hpipeline : t.pipeline = s.pipeline)
      (hlogged : t.logged = s.logged) (hbefore : t.loggedBeforeStop = s.loggedBeforeStop)
      (hthreads : ∀ i st, t.threads i = .logging st →
        s.threads i = .logging st ∨ a = .statement i st) : Steps cfg s a t
  | output {i : Nat} {st : LogStatement} {r : Logger.Record} {t : LoggingProcess}
      (hthread : s.threads i = .logging st)
      (hrecord : Logger.log st.site st.level st.items = some r)
      (happend : s.pipeline.logger.step (.append r.msg) = some t.pipeline.logger)
      (houtput : t.pipeline.output = s.pipeline.output)
      (hlogged : t.logged = s.logged ++ [st]) (hbefore : t.loggedBeforeStop = s.loggedBeforeStop)
      (hthreads : ∀ j st, t.threads j = .logging st → s.threads j = .logging st) :
      Steps cfg s (.output i) t
  | pipeline {a : LogPipeline.Action} {t : LoggingProcess}
      (hstep : s.pipeline.step cfg a = some t.pipeline) (hnot : ∀ msg, a.1 ≠ .append msg)
      (hlogged : t.logged = s.logged)
      (hbefore : a.1 = .stop ∧ t.loggedBeforeStop = s.logged ∨
        a.1 ≠ .stop ∧ t.loggedBeforeStop = s.loggedBeforeStop)
      (hthreads : t.threads = s.threads) : Steps cfg s (.pipeline a) t

theorem step_cases (h : s.step cfg a = some t) : Steps cfg s a t := by
  unfold step at h
  split at h
  · exact absurd h (by simp)
  cases a with
  | statement i st =>
      dsimp only at h
      split at h
      · obtain rfl := Option.some.inj h
        split
        · refine .outside rfl rfl rfl ?_
          intro j st' hj
          rcases setThread_cases hj with ⟨rfl, heq⟩ | hbefore
          · obtain rfl := Thread.logging.inj heq
            exact Or.inr rfl
          · exact Or.inl hbefore
        · exact .outside rfl rfl rfl fun _ _ => Or.inl
      · exact absurd h (by simp)
  | output i =>
      dsimp only at h
      split at h
      · next st hthread =>
          obtain ⟨r, hrecord, h⟩ := Option.bind_eq_some_iff.1 h
          obtain ⟨logger, happend, h⟩ := Option.bind_eq_some_iff.1 h
          obtain rfl := Option.some.inj h
          refine .output hthread hrecord happend rfl rfl rfl ?_
          intro j st' hj
          rcases setThread_cases hj with ⟨-, heq⟩ | hbefore
          · split at heq <;> exact absurd heq (by simp)
          · exact hbefore
      · exact absurd h (by simp)
  | abort i =>
      dsimp only at h
      split at h
      · obtain rfl := Option.some.inj h
        exact .outside rfl rfl rfl fun _ _ => Or.inl
      · exact absurd h (by simp)
  | setLogLevel level =>
      obtain rfl := Option.some.inj h
      exact .outside rfl rfl rfl fun _ _ => Or.inl
  | pipeline a =>
      dsimp only at h
      unfold stepPipeline at h
      split at h
      · exact absurd h (by simp)
      · next hstop =>
          obtain ⟨pipeline, hstep, rfl⟩ := Option.map_eq_some_iff.1 h
          exact .pipeline hstep (by simp [hstop]) rfl (Or.inl ⟨hstop, rfl⟩) rfl
      · next happend hstop =>
          obtain ⟨pipeline, hstep, rfl⟩ := Option.map_eq_some_iff.1 h
          exact .pipeline hstep happend rfl (Or.inr ⟨hstop, rfl⟩) rfl

/-! ## The pipeline of a process -/

/-- The messages of the logger are the lines of the statements. -/
structure Mirrors (s : LoggingProcess) : Prop where
  threads : ∀ i st, s.threads i = .logging st → st.OneLine
  logged : ∀ st ∈ s.logged, st.OneLine
  appended : s.pipeline.logger.appended = s.logged.map LogStatement.line
  beforeStop : s.pipeline.logger.beforeStop = s.loggedBeforeStop.map LogStatement.line
  isPrefix : s.loggedBeforeStop <+: s.logged

/-- Every statement is a line, and `stop` comes in time. -/
def LogsProperly (s : LoggingProcess) : Action → Prop
  | .statement _ st => st.OneLine
  | .pipeline a => s.pipeline.StopsProperly a
  | _ => True

instance (s : LoggingProcess) (a : Action) : Decidable (s.LogsProperly a) := by
  unfold LogsProperly
  split <;> infer_instance

theorem Mirrors.outside (h : s.Mirrors) (hpipeline : t.pipeline = s.pipeline)
    (hlogged : t.logged = s.logged) (hbefore : t.loggedBeforeStop = s.loggedBeforeStop)
    (hthreads : ∀ i st, t.threads i = .logging st → st.OneLine) : t.Mirrors := by
  refine ⟨hthreads, hlogged ▸ h.logged, ?_, ?_, ?_⟩
  · rw [hpipeline, hlogged, h.appended]
  · rw [hpipeline, hbefore, h.beforeStop]
  · rw [hbefore, hlogged]
    exact h.isPrefix

theorem Mirrors.output {st : LogStatement} {r : Logger.Record} (h : s.Mirrors)
    (hsound : s.pipeline.logger.Sound) (hline : st.OneLine) (hmsg : r.msg = st.line)
    (happend : s.pipeline.logger.step (.append r.msg) = some t.pipeline.logger)
    (hlogged : t.logged = s.logged ++ [st]) (hbefore : t.loggedBeforeStop = s.loggedBeforeStop)
    (hthreads : ∀ j st, t.threads j = .logging st → s.threads j = .logging st) : t.Mirrors := by
  obtain ⟨happended, hstop⟩ := AsyncLogger.appended_of_append hsound happend
  refine ⟨fun j st' hj => h.threads j st' (hthreads j st' hj), ?_, ?_, ?_, ?_⟩
  · rw [hlogged, List.forall_mem_append, List.forall_mem_singleton]
    exact ⟨h.logged, hline⟩
  · rw [happended, hlogged, h.appended, hmsg, List.map_append, List.map_singleton]
  · rw [hstop, hbefore, h.beforeStop]
  · rw [hbefore, hlogged]
    exact h.isPrefix.trans (List.prefix_append _ _)

theorem Mirrors.pipeline {a : LogPipeline.Action} (h : s.Mirrors)
    (hstep : s.pipeline.logger.step a.1 = some t.pipeline.logger)
    (hnot : ∀ msg, a.1 ≠ .append msg) (hlogged : t.logged = s.logged)
    (hbefore : a.1 = .stop ∧ t.loggedBeforeStop = s.logged ∨
      a.1 ≠ .stop ∧ t.loggedBeforeStop = s.loggedBeforeStop)
    (hthreads : t.threads = s.threads) : t.Mirrors := by
  obtain ⟨happended, hstop⟩ := AsyncLogger.appended_of_ne_append hstep hnot
  have hbefores : t.pipeline.logger.beforeStop = t.loggedBeforeStop.map LogStatement.line ∧
      t.loggedBeforeStop <+: t.logged := by
    rcases hbefore with ⟨hcall, hbefore⟩ | ⟨hcall, hbefore⟩
    · obtain ⟨-, hstop⟩ | ⟨hne, -⟩ := hstop
      · rw [hstop, hbefore, hlogged]
        exact ⟨h.appended, List.prefix_refl _⟩
      · exact absurd hcall hne
    · obtain ⟨heq, -⟩ | ⟨-, hstop⟩ := hstop
      · exact absurd heq hcall
      · rw [hstop, hbefore, hlogged]
        exact ⟨h.beforeStop, h.isPrefix⟩
  refine ⟨hthreads ▸ h.threads, hlogged ▸ h.logged, ?_, hbefores.1, hbefores.2⟩
  rw [happended, hlogged, h.appended]

/-- A process whose statements are lines is a run of the pipeline with these lines. -/
theorem pipeline_of_reaches {as : List Action} (run : (machine cfg).Reaches LogsProperly as s) :
    s.Mirrors ∧
      ∃ bs, (LogPipeline.machine cfg).Reaches LogPipeline.StopsProperly bs s.pipeline := by
  induction run with
  | init hinit =>
      obtain ⟨debugOn, rfl⟩ := hinit
      refine ⟨⟨?_, ?_, rfl, rfl, List.prefix_refl _⟩, [], .init rfl⟩
      · exact fun _ _ hthread => absurd hthread (by simp [new])
      · exact fun _ hst => absurd hst List.not_mem_nil
  | @step as s t a run guard hstep ih =>
      obtain ⟨h, bs, hrun⟩ := ih
      have hlogger : AsyncLogger.machine.Reaches Machine.anyStep (bs.map (·.1)) s.pipeline.logger :=
        LogPipeline.logger_of_reaches hrun fun _ _ _ => trivial
      cases step_cases hstep with
      | outside hpipeline hlogged hbefore hthreads =>
          refine ⟨h.outside hpipeline hlogged hbefore ?_, bs, hpipeline ▸ hrun⟩
          intro i st hi
          rcases hthreads i st hi with hi | rfl
          · exact h.threads i st hi
          · exact guard
      | @output i st r t hthread hrecord happend houtput hlogged hbefore hthreads =>
          have hline := h.threads i st hthread
          obtain ⟨r', hr', hmsg⟩ := hline.log
          obtain rfl : r = r' := Option.some.inj (hrecord.symm.trans hr')
          refine ⟨h.output (AsyncLogger.sound_of_reaches hlogger).2 hline hmsg happend hlogged
            hbefore hthreads, bs ++ [(.append r.msg, ⟨1, 1, 0⟩)], hrun.step ⟨?_, ?_⟩ ?_⟩
          · show r.msg.length < kLargeBuffer
            exact hmsg ▸ hline.length_lt
          · exact fun _ => Int.one_pos
          · show s.pipeline.step cfg _ = _
            rw [LogPipeline.step, happend, Option.bind_some, ← houtput]
      | @pipeline a t hpipeline hnot hlogged hbefore hthreads =>
          exact ⟨h.pipeline (LogPipeline.step_cases hpipeline).1 hnot hlogged hbefore hthreads,
            bs ++ [a], hrun.step guard hpipeline⟩

/-- What the threads of a process have logged when `stop` has returned, called in time and without
    overflow: line by line, in the files that were not there before, stands what was streamed, for
    all statements whose records were appended before `stop` and for some of the later ones, in the
    order in which they were appended. -/
theorem statements_read_back {as : List Action}
    (run : (machine cfg).Reaches LogsProperly as s) (hstopped : s.pipeline.logger.owner = .stopped)
    (hquiet : ∀ now buffers, .notice now buffers ∉ s.pipeline.logger.output) :
    ∃ (l : LogFile) (placed : List (Bytes × LogStatement)),
      s.pipeline.output = some l ∧
      s.loggedBeforeStop <+: placed.map (·.2) ∧ placed.map (·.2) <+: s.logged ∧
      ∀ file, cfg.files file = none →
        Terminated.records 10 ((l.file.files file).getD [])
          = (Ledger.placedIn file placed).map LogStatement.line := by
  obtain ⟨h, bs, hrun⟩ := pipeline_of_reaches run
  obtain ⟨l, texts, silent, hl, hpast, hsilent, hcovers, hfiles⟩ :=
    LogPipeline.placed_of_stopped hrun hstopped hquiet
  rw [h.appended] at hpast
  obtain ⟨placed, hplaced, rfl⟩ := Ledger.exists_entries LogStatement.line hpast
  have hlines : ∀ st ∈ s.logged, Terminated (10 : Byte) st.line := fun st hst =>
    (h.logged st hst).terminated
  refine ⟨l, placed, hl, ?_, hplaced, ?_⟩
  · rw [h.beforeStop, List.map_map] at hcovers
    have htaken := LogPipeline.prefix_of_prefix_append hcovers (by
      intro line hline
      obtain ⟨st, hst, rfl⟩ := List.mem_map.1 hline
      exact List.ne_nil_of_mem (hlines st (h.isPrefix.subset hst)).mem) hsilent
    have hlength := htaken.length_le
    rw [List.length_map, List.length_map] at hlength
    exact List.prefix_of_prefix_length_le h.isPrefix hplaced (by rwa [List.length_map])
  · intro file hnew
    rw [hfiles file hnew, Ledger.placedIn_map]
    refine Terminated.records_flatten ?_
    intro line hline
    obtain ⟨st, hst, rfl⟩ := List.mem_map.1 hline
    exact hlines st (hplaced.subset (Ledger.mem_of_mem_placedIn hst))

/-- A statement that says `ok`. -/
def okStatement (level : LogLevel) : LogStatement :=
  ⟨Logger.lineSeven, level, [.string (bytes "ok")]⟩

/-- Steps of the logger, with a clock that stands still. -/
def loggerSteps (as : List AsyncLogger.Action) : List Action :=
  (LogPipeline.standing as).map .pipeline

/-- Before `stop` one thread comes to a `LOG_DEBUG` and to a `LOG_WARN`; behind it another comes to
    a `LOG_FATAL` and aborts. -/
def okRun : List Action :=
  List.flatten [
    loggerSteps AsyncLogger.started, loggerSteps (List.replicate 3 (.log .zero)),
    [.statement 0 (okStatement .debug), .statement 0 (okStatement .warn), .output 0],
    loggerSteps [.stop, .notify], loggerSteps (List.replicate 16 (.log .zero)),
    loggerSteps [.join],
    [.statement 1 (okStatement .fatal), .output 1, .abort 1]]

theorem statements_read_back_okRun :
    ∃ s, (machine LogPipeline.newFiles).Reaches LogsProperly okRun s ∧ s.aborted = true ∧
      ∃ (l : LogFile) (placed : List (Bytes × LogStatement)), s.pipeline.output = some l ∧
        [(okStatement .warn).line] <+: placed.map (·.2.line) ∧
        ∀ file, Terminated.records 10 ((l.file.files file).getD [])
          = (Ledger.placedIn file placed).map LogStatement.line := by
  obtain ⟨s, run, hstopped, haborted, houtput, hbefore⟩ := Machine.exists_reaches_of_exec
    (machine LogPipeline.newFiles) LogsProperly (new false) okRun
    (fun s => s.pipeline.logger.owner = .stopped ∧ s.aborted = true ∧
      s.pipeline.logger.output = [.buffer (okStatement .warn).line] ∧
      s.loggedBeforeStop.map LogStatement.line = [(okStatement .warn).line])
    ⟨false, rfl⟩ (by decide +kernel)
  obtain ⟨l, placed, hl, hcovers, -, hlines⟩ := statements_read_back run hstopped
    (by simp [houtput])
  have hprefix := hcovers.map LogStatement.line
  rw [hbefore, List.map_map, Function.comp_def] at hprefix
  exact ⟨s, run, haborted, l, placed, hl, hprefix, fun file => hlines file rfl⟩

end LoggingProcess
