import Muduo.Base.LogPipeline
import Muduo.Base.Proofs.AsyncLoggerStop
import Muduo.Base.Proofs.LogFile
import Muduo.Lib.Terminated

set_option autoImplicit false

/-! # From append to the files

`Piped` says that the `LogFile` was given the records of the logger, one for one, and that it has
passed everything on when the thread is at its test or gone. Together with where the logger's
messages are (`AsyncLogger.Conserved`) and where the messages of a `LogFile` are (`LogFile.Kept`)
this gives where a message ends up that a thread has appended: whole in one of the files. -/

namespace AsyncLogger

/-- What `output.append` is called with. -/
def Record.text (localtime : Int → Tm) : Record → Bytes
  | .notice now buffers => noticeText localtime now buffers
  | .buffer data => data

/-- Between two passes, or behind the last one. -/
def Pc.settled : Pc → Bool
  | .testRunning => true
  | .lastFlush => true
  | .done => true
  | _ => false

/-- There is no `LogFile` yet. -/
def Pc.early : Pc → Bool
  | .idle => true
  | .countDown => true
  | _ => false

/-- `StartLog` calls a function of `output` there, its constructor included. -/
def Pc.usesOutput : Pc → Bool
  | .countDown => true
  | .notice => true
  | .write _ => true
  | .flush => true
  | .lastFlush => true
  | _ => false

theorem Logs.quiet {s t : AsyncLogger} (h : Logs s t) (hpc : s.pc.usesOutput = false) :
    t.output = s.output ∧ t.pc.early = false ∧ t.pc ≠ .done ∧
      (t.pc.settled = true → s.pc.settled = true) := by
  cases h <;> simp_all [Pc.usesOutput, Pc.early, Pc.settled]

/-- The steps of the other threads. -/
theorem frame_of_ne_log {s t : AsyncLogger} {a : Action} (hstarted : s.Started)
    (hstep : s.step a = some t) (hnot : ∀ now, a ≠ .log now) :
    t.output = s.output ∧ (t.pc = s.pc ∨ s.pc = .idle ∧ t.pc = .countDown) := by
  rcases step_cases hstep with ⟨msg, -, -, rfl⟩ | ⟨now, rfl, -⟩ | hcall
  · obtain ⟨-, hpc, -, -, -, -, houtput, -⟩ := s.append_frame msg
    exact ⟨houtput, Or.inl hpc⟩
  · exact absurd rfl (hnot now)
  · cases hcall with
    | start howner => exact ⟨rfl, Or.inr ⟨hstarted howner, rfl⟩⟩
    | _ => exact ⟨rfl, Or.inl rfl⟩

end AsyncLogger

namespace LogPipeline

open AsyncLogger (Record StopsInTime ShortMessages)

variable {cfg : Config} {s t : LogPipeline} {a : Action} {now : Timestamp} {answer : LogFile.Answer}

/-! ## Steps -/

theorem step_cases (h : s.step cfg a = some t) :
    s.logger.step a.1 = some t.logger ∧
      ((∃ now, a.1 = .log now ∧ s.log cfg now a.2 = some t.output) ∨
        (∀ now, a.1 ≠ .log now) ∧ t.output = s.output) := by
  obtain ⟨logger, hlogger, hrest⟩ := Option.bind_eq_some_iff.1 h
  split at hrest
  · next now heq =>
      obtain ⟨output, houtput, rfl⟩ := Option.map_eq_some_iff.1 hrest
      exact ⟨hlogger, Or.inl ⟨now, heq, houtput⟩⟩
  · next hnot =>
      obtain rfl := Option.some.inj hrest
      exact ⟨hlogger, Or.inr ⟨hnot, rfl⟩⟩

/-- What a step of `StartLog` does to `output`. -/
inductive Logs (cfg : Config) (s : LogPipeline) (answer : LogFile.Answer) : LogPipeline → Prop
  | construct {t : LogPipeline} (hpc : s.logger.pc = .countDown)
      (houtput : t.output = some (.new cfg.localtime cfg.files cfg.args answer.now))
      (hrecords : t.logger.output = s.logger.output) (hnext : t.logger.pc = .testRunning) :
      Logs cfg s answer t
  | record {t : LogPipeline} {l l' : LogFile} (r : Record) (hthere : s.output = some l)
      (happend : l.append cfg.localtime (r.text cfg.localtime) answer = some l')
      (houtput : t.output = some l') (hrecords : t.logger.output = s.logger.output ++ [r])
      (hpc : s.logger.pc ≠ .done) (hearly : t.logger.pc.early = false)
      (hnext : t.logger.pc.settled = false) : Logs cfg s answer t
  | flush {t : LogPipeline} (hpc : s.logger.pc = .flush)
      (houtput : t.output = s.output.map LogFile.flush)
      (hrecords : t.logger.output = s.logger.output) (hnext : t.logger.pc = .testRunning) :
      Logs cfg s answer t
  | destroy {t : LogPipeline} (hpc : s.logger.pc = .lastFlush)
      (houtput : t.output = s.output.map fun l => l.flush.destroy)
      (hrecords : t.logger.output = s.logger.output) (hnext : t.logger.pc = .done) :
      Logs cfg s answer t
  | quiet {t : LogPipeline} (houtput : t.output = s.output)
      (hrecords : t.logger.output = s.logger.output) (hearly : s.logger.pc.early = false)
      (hnext : t.logger.pc.early = false) (hdone : s.logger.pc ≠ .done ∧ t.logger.pc ≠ .done)
      (hsettled : t.logger.pc.settled = true → s.logger.pc.settled = true) : Logs cfg s answer t

theorem append_cases {msg : Bytes} {output : Option LogFile}
    (h : s.append cfg msg answer = some output) :
    ∃ l l', s.output = some l ∧ l.append cfg.localtime msg answer = some l' ∧
      output = some l' := by
  obtain ⟨l, hl, hrest⟩ := Option.bind_eq_some_iff.1 h
  obtain ⟨l', hl', rfl⟩ := Option.map_eq_some_iff.1 hrest
  exact ⟨l, l', hl, hl', rfl⟩

theorem log_cases (hlogger : s.logger.log now = some t.logger)
    (houtput : s.log cfg now answer = some t.output) : Logs cfg s answer t := by
  have hlogs := AsyncLogger.log_cases hlogger
  cases hpc : s.logger.pc with
  | idle => exact absurd hpc hlogs.pc_started.1
  | done => exact absurd hpc hlogs.pc_started.2
  | countDown =>
      simp only [AsyncLogger.log, hpc, Option.some.injEq] at hlogger
      simp only [log, hpc, Option.some.injEq] at houtput
      exact .construct hpc houtput.symm (by rw [← hlogger]) (by rw [← hlogger])
  | notice =>
      simp only [AsyncLogger.log, hpc, Option.some.injEq] at hlogger
      simp only [log, hpc] at houtput
      obtain ⟨l, l', hl, hl', heq⟩ := append_cases houtput
      exact .record (.notice now (s.logger.buffersWrite.length - 2)) hl hl' heq (by rw [← hlogger])
        (by simp [hpc]) (by rw [← hlogger]; rfl) (by rw [← hlogger]; rfl)
  | write k =>
      simp only [AsyncLogger.log, hpc] at hlogger
      simp only [log, hpc] at houtput
      cases hget : s.logger.buffersWrite[k]? with
      | none =>
          simp only [hget, Option.some.injEq] at hlogger houtput
          exact .quiet houtput.symm (by rw [← hlogger]) (by rw [hpc]; rfl) (by rw [← hlogger]; rfl)
            ⟨by simp [hpc], by simp [← hlogger]⟩ (by simp [← hlogger, AsyncLogger.Pc.settled])
      | some b =>
          cases b with
          | none =>
              simp only [hget, Option.some.injEq] at hlogger houtput
              exact .quiet houtput.symm (by rw [← hlogger]) (by rw [hpc]; rfl)
                (by rw [← hlogger]; rfl) ⟨by simp [hpc], by simp [← hlogger]⟩
                (by simp [← hlogger, AsyncLogger.Pc.settled])
          | some b =>
              simp only [hget, Option.some.injEq] at hlogger
              simp only [hget] at houtput
              obtain ⟨l, l', hl, hl', heq⟩ := append_cases houtput
              exact .record (.buffer b.data) hl hl' heq (by rw [← hlogger]) (by simp [hpc])
                (by rw [← hlogger]; rfl) (by rw [← hlogger]; rfl)
  | flush =>
      simp only [AsyncLogger.log, hpc, Option.some.injEq] at hlogger
      simp only [log, hpc, Option.some.injEq] at houtput
      exact .flush hpc houtput.symm (by rw [← hlogger]) (by rw [← hlogger])
  | lastFlush =>
      simp only [AsyncLogger.log, hpc, Option.some.injEq] at hlogger
      simp only [log, hpc, Option.some.injEq] at houtput
      exact .destroy hpc houtput.symm (by rw [← hlogger]) (by rw [← hlogger])
  | _ =>
      obtain ⟨hrecords, hearly, hdone, hsettled⟩ := hlogs.quiet (by rw [hpc]; rfl)
      simp only [log, hpc, Option.some.injEq] at houtput
      exact .quiet houtput.symm hrecords (by rw [hpc]; rfl) hearly ⟨by simp [hpc], hdone⟩ hsettled

/-! ## What the LogFile was given -/

structure Piped (cfg : Config) (s : LogPipeline) : Prop where
  early : s.logger.pc.early = true → s.output = none ∧ s.logger.output = []
  there : s.logger.pc.early = false → s.output.isSome
  messages : ∀ l ∈ s.output,
    l.routed.map (·.msg) = s.logger.output.map (Record.text cfg.localtime)
  kept : ∀ l ∈ s.output, s.logger.pc ≠ .done → l.Kept cfg.localtime cfg.files cfg.basename
  held : ∀ l ∈ s.output, l.Held cfg.files
  flushed : s.logger.pc.settled = true → ∀ l ∈ s.output, l.file.buffered = []

theorem piped_new : new.Piped cfg where
  early _ := ⟨rfl, rfl⟩
  there h := absurd h (by simp [new, AsyncLogger.new, AsyncLogger.Pc.early])
  messages l h := absurd h (by simp [new])
  kept l h := absurd h (by simp [new])
  held l h := absurd h (by simp [new])
  flushed h := absurd h (by simp [new, AsyncLogger.new, AsyncLogger.Pc.settled])

/-- What there is to show when there is a `LogFile`. -/
theorem Piped.of_output {l : LogFile} (houtput : t.output = some l)
    (hearly : t.logger.pc.early = false)
    (hmessages : l.routed.map (·.msg) = t.logger.output.map (Record.text cfg.localtime))
    (hkept : t.logger.pc ≠ .done → l.Kept cfg.localtime cfg.files cfg.basename)
    (hheld : l.Held cfg.files) (hflushed : t.logger.pc.settled = true → l.file.buffered = []) :
    t.Piped cfg := by
  refine ⟨by simp [hearly], by simp [houtput], ?_, ?_, ?_, fun hsettled => ?_⟩ <;> rw [houtput] <;>
    rintro l' ⟨⟩
  · exact hmessages
  · exact hkept
  · exact hheld
  · exact hflushed hsettled

theorem Piped.log (h : s.Piped cfg) (hclock : s.logger.pc = .countDown → 0 < answer.now)
    (hstep : Logs cfg s answer t) : t.Piped cfg := by
  cases hstep with
  | construct hpc houtput hrecords hnext =>
      have hkept := @LogFile.kept_new cfg.localtime cfg.files answer.now cfg.args (hclock hpc)
      have hnone : s.logger.output = [] := (h.early (by rw [hpc]; rfl)).2
      refine .of_output houtput (by rw [hnext]; rfl) ?_ (fun _ => hkept) hkept.held fun _ => ?_
      · rw [hrecords, hnone, LogFile.new, LogFile.routed_rollFile]
        rfl
      · rw [LogFile.new, LogFile.rollFile, if_pos (hclock hpc)]
        rfl
  | record r hthere happend houtput hrecords hpc hearly hnext =>
      have hkept := (h.kept _ (by rw [hthere]; rfl) hpc).append happend
      refine .of_output houtput hearly ?_ (fun _ => hkept) hkept.held (by simp [hnext])
      rw [hrecords, LogFile.routed_append happend, List.map_append,
        ← h.messages _ (by rw [hthere]; rfl)]
      simp [LogFile.write]
  | flush hpc houtput hrecords hnext =>
      obtain ⟨l, hl⟩ := Option.isSome_iff_exists.1 (h.there (by rw [hpc]; rfl))
      have hkept := (h.kept l hl (by simp [hpc])).flush
      rw [hl, Option.map_some] at houtput
      refine .of_output houtput (by rw [hnext]; rfl) ?_ (fun _ => hkept) hkept.held
        fun _ => l.file.buffered_flush
      rw [hrecords]
      exact h.messages l hl
  | destroy hpc houtput hrecords hnext =>
      obtain ⟨l, hl⟩ := Option.isSome_iff_exists.1 (h.there (by rw [hpc]; rfl))
      have hkept := (h.kept l hl (by simp [hpc])).flush
      rw [hl, Option.map_some] at houtput
      refine .of_output houtput (by rw [hnext]; rfl) ?_ (fun hdone => absurd hnext hdone)
        hkept.held.destroy fun _ => rfl
      rw [hrecords]
      exact h.messages l hl
  | quiet houtput hrecords hearly hnext hdone hsettled =>
      refine ⟨by simp [hnext], ?_, ?_, ?_, ?_, ?_⟩ <;> rw [houtput]
      · exact fun _ => h.there hearly
      · rw [hrecords]
        exact h.messages
      · exact fun l hl _ => h.kept l hl hdone.1
      · exact h.held
      · exact fun hpc => h.flushed (hsettled hpc)

theorem Piped.call (h : s.Piped cfg) (hrecords : t.logger.output = s.logger.output)
    (hpc : t.logger.pc = s.logger.pc ∨ s.logger.pc = .idle ∧ t.logger.pc = .countDown)
    (houtput : t.output = s.output) : t.Piped cfg := by
  rcases hpc with hpc | ⟨hidle, hpc⟩
  · refine ⟨?_, ?_, ?_, ?_, ?_, ?_⟩ <;> rw [houtput]
    · rw [hpc, hrecords]
      exact h.early
    · rw [hpc]
      exact h.there
    · rw [hrecords]
      exact h.messages
    · rw [hpc]
      exact h.kept
    · exact h.held
    · rw [hpc]
      exact h.flushed
  · obtain ⟨hnone, hempty⟩ := h.early (by rw [hidle]; rfl)
    have hno : ∀ l ∈ t.output, False := by simp [houtput, hnone]
    refine ⟨fun _ => ⟨houtput.trans hnone, hrecords.trans hempty⟩, ?_, ?_, ?_, ?_, ?_⟩
    · simp [hpc, AsyncLogger.Pc.early]
    · exact fun l hl => (hno l hl).elim
    · exact fun l hl => (hno l hl).elim
    · exact fun l hl => (hno l hl).elim
    · exact fun _ l hl => (hno l hl).elim

theorem Piped.step (h : s.Piped cfg) (hstarted : s.logger.Started) (hclock : s.ClockSet a)
    (hstep : s.step cfg a = some t) : t.Piped cfg := by
  obtain ⟨hlogger, ⟨now, hlog, houtput⟩ | ⟨hnot, houtput⟩⟩ := step_cases hstep
  · rw [hlog] at hlogger
    exact h.log hclock (log_cases hlogger houtput)
  · obtain ⟨hrecords, hpc⟩ := AsyncLogger.frame_of_ne_log hstarted hlogger hnot
    exact h.call hrecords hpc houtput

/-- The logger does what it does by itself. -/
theorem logger_of_reaches {ok : LogPipeline → Action → Prop}
    {ok' : AsyncLogger → AsyncLogger.Action → Prop} {as : List Action}
    (run : (machine cfg).Reaches ok as s) (hok : ∀ s a, ok s a → ok' s.logger a.1) :
    AsyncLogger.machine.Reaches ok' (as.map (·.1)) s.logger := by
  induction run with
  | init hinit =>
      obtain rfl := hinit
      exact .init rfl
  | step _ guard hstep ih =>
      rw [List.map_append]
      exact ih.step (hok _ _ guard) (step_cases hstep).1

theorem piped_of_reaches {ok : LogPipeline → Action → Prop} {as : List Action}
    (run : (machine cfg).Reaches ok as s) (hclock : ∀ s a, ok s a → s.ClockSet a) :
    s.Piped cfg := by
  induction run with
  | init hinit =>
      obtain rfl := hinit
      exact piped_new
  | @step as s t a run guard hstep ih =>
      have hlogger : AsyncLogger.machine.Reaches Machine.anyStep (as.map (·.1)) s.logger :=
        logger_of_reaches run fun _ _ _ => trivial
      exact ih.step (AsyncLogger.sound_of_reaches hlogger).1 (hclock _ _ guard) hstep

theorem Piped.append_isSome (h : s.Piped cfg) (hearly : s.logger.pc.early = false)
    (hdone : s.logger.pc ≠ .done) (msg : Bytes) (answer : LogFile.Answer) :
    (s.append cfg msg answer).isSome := by
  obtain ⟨l, hl⟩ := Option.isSome_iff_exists.1 (h.there hearly)
  rw [LogPipeline.append, hl, Option.bind_some, Option.isSome_map]
  exact (h.kept l hl hdone).append_isSome msg answer

/-- The `LogFile` never gets in the way of the logger. -/
theorem Piped.step_isSome (h : s.Piped cfg) (hlogger : (s.logger.step a.1).isSome) :
    (s.step cfg a).isSome := by
  obtain ⟨logger, hlogger⟩ := Option.isSome_iff_exists.1 hlogger
  rw [LogPipeline.step, hlogger, Option.bind_some]
  split
  · next now hlog =>
      rw [Option.isSome_map, LogPipeline.log]
      split
      · rfl
      · next hpc => exact h.append_isSome (by rw [hpc]; rfl) (by simp [hpc]) _ _
      · next k hpc =>
          split
          · exact h.append_isSome (by rw [hpc]; rfl) (by simp [hpc]) _ _
          · rfl
      · rfl
      · rfl
      · rfl
  · rfl

/-! ## Where the messages end up -/

/-- A message, or the text of a notice. -/
abbrev Entry := Bytes ⊕ Bytes

def Entry.text : Entry → Bytes
  | .inl msg => msg
  | .inr notice => notice

/-- The entries of a block of messages have its text. -/
theorem flatMap_text_inl (block : List Bytes) :
    (block.map Sum.inl).flatMap Entry.text = block.flatten := by
  rw [List.flatMap_map]
  exact List.flatMap_id

/-- The records of the logger as blocks of entries. -/
theorem exists_entries (localtime : Int → Tm) {records : List Record} {kept : List (List Bytes)}
    (h : kept.map List.flatten = records.filterMap fun r =>
      match r with
      | .buffer data => some data
      | .notice _ _ => none) :
    ∃ blocks : List (List Entry),
      blocks.map (·.flatMap Entry.text) = records.map (Record.text localtime) ∧
        blocks.flatten.filterMap Sum.getLeft? = kept.flatten := by
  induction records generalizing kept with
  | nil =>
      obtain rfl : kept = [] := by simpa using h
      exact ⟨[], rfl, rfl⟩
  | cons r records ih =>
      cases r with
      | notice now buffers =>
          obtain ⟨blocks, htext, hleft⟩ := ih h
          refine ⟨[.inr (Record.text localtime (.notice now buffers))] :: blocks, ?_, ?_⟩
          · simp [← htext, Entry.text]
          · rw [List.flatten_cons, List.filterMap_append, hleft]
            rfl
      | buffer data =>
          obtain ⟨block, kept, rfl⟩ : ∃ block rest, kept = block :: rest :=
            List.exists_cons_of_ne_nil fun hnil => by simp [hnil] at h
          obtain ⟨hblock, hkept⟩ := List.cons.inj h
          obtain ⟨blocks, htext, hleft⟩ := ih hkept
          refine ⟨block.map .inl :: blocks, ?_, ?_⟩
          · rw [List.map_cons, List.map_cons, htext, flatMap_text_inl, hblock]
            rfl
          · rw [List.flatten_cons, List.filterMap_append, hleft, List.filterMap_map]
            simp [Function.comp_def]

/-- Between two passes the batch is empty. -/
theorem of_settled {s : AsyncLogger} {past : Ledger Bytes} {batch full : List (List Bytes)}
    {cur : List Bytes} (h : s.Conserved past batch full cur) (hs : s.Sound)
    (hpc : s.pc.settled = true) : batch = [] ∧ past.kept.map List.flatten = s.logged := by
  have hphase := hs.phase
  have hbatch := h.batch
  have hkept := h.kept
  cases hcase : s.pc <;> rw [hcase] at hpc
  case testRunning | lastFlush | done =>
    simp only [AsyncLogger.Phase, hcase] at hphase
    simp only [AsyncLogger.queued, hcase, hphase.2.2.2] at hbatch
    simp only [AsyncLogger.settled, hcase] at hkept
    exact ⟨by simpa using hbatch, by simpa using hkept⟩
  all_goals exact absurd hpc Bool.false_ne_true

/-- Blocks that make up the records of the logger are in the files, element by element. -/
theorem Piped.exists_placed (h : s.Piped cfg) (hpc : s.logger.pc.settled = true) {β : Type}
    (text : β → Bytes) {blocks : List (List β)}
    (hblocks : blocks.map (·.flatMap text) = s.logger.output.map (Record.text cfg.localtime)) :
    ∃ (l : LogFile) (placed : List (Bytes × β)), s.output = some l ∧
      placed.map (·.2) = blocks.flatten ∧
      ∀ file, (l.file.files file).getD [] =
        (cfg.files file).getD [] ++ (Ledger.placedIn file placed).flatMap text := by
  have hearly : s.logger.pc.early = false := by
    cases hcase : s.logger.pc <;> simp_all [AsyncLogger.Pc.settled, AsyncLogger.Pc.early]
  obtain ⟨l, hl⟩ := Option.isSome_iff_exists.1 (h.there hearly)
  have htexts : blocks.map (·.flatMap text) = l.texts.map (·.2) := by
    rw [hblocks, ← h.messages l hl]
    simp [LogFile.texts]
  obtain ⟨placed, hall, hplaces⟩ := Ledger.exists_placed text htexts
  refine ⟨l, placed, hl, hall, ?_⟩
  intro file
  rw [← Appending.delivered_of_flushed (h.flushed hpc l hl), (h.held l hl).delivered,
    ← (h.held l hl).placedIn_texts, hplaces]

/-- Short messages, and a clock that is set. -/
def Proper (s : LogPipeline) (a : Action) : Prop := ShortMessages s.logger a.1 ∧ s.ClockSet a

instance (s : LogPipeline) (a : Action) : Decidable (s.Proper a) :=
  inferInstanceAs (Decidable (_ ∧ _))

/-- A logger whose files are new. -/
def newFiles : Config where
  localtime := LogFile.sameMinute
  files _ := none
  basename := bytes "log"
  rollSize := 100

/-- The steps with a clock that stands still and a stream that passes nothing on by itself. -/
def standing (as : List AsyncLogger.Action) : List Action := as.map fun a => (a, ⟨1, 1, 0⟩)

/-- The messages of before `stop` have been appended. -/
theorem beforeStop_isPrefix {ok : AsyncLogger → AsyncLogger.Action → Prop}
    {as : List AsyncLogger.Action} {s : AsyncLogger} (run : AsyncLogger.machine.Reaches ok as s) :
    s.beforeStop <+: s.appended := by
  refine run.invariant (I := fun s => s.beforeStop <+: s.appended) ?_ ?_
  · rintro s rfl
    exact List.prefix_refl _
  · intro s a t h _ hstep
    rcases AsyncLogger.step_cases hstep with ⟨msg, -, -, rfl⟩ | ⟨now, -, hlog⟩ | hcall
    · obtain ⟨-, -, -, -, -, -, -, -, hbefore⟩ := s.append_frame msg
      rw [hbefore]
      exact h.trans (s.appended_append msg)
    · obtain ⟨-, -, happended, hbefore⟩ := hlog.frame
      rwa [happended, hbefore]
    · cases hcall with
      | stop howner => exact List.prefix_refl _
      | _ => exact h

/-- What has no empty element does not reach into a tail of empty elements. -/
theorem prefix_of_prefix_append {l m silent : List Bytes} (h : l <+: m ++ silent)
    (hl : ∀ x ∈ l, x ≠ []) (hsilent : ∀ x ∈ silent, x = []) : l <+: m := by
  rcases List.prefix_or_prefix_of_prefix h (List.prefix_append m silent) with hle | ⟨x, rfl⟩
  · exact hle
  · cases x with
    | nil => simp
    | cons y x =>
        have hy : y ∈ silent := (List.prefix_append_right_inj m).1 h |>.subset List.mem_cons_self
        exact absurd (hsilent y hy) (hl y (by simp))

/-- The records of a run without overflow are the buffers. -/
theorem logged_of_quiet (localtime : Int → Tm) {s : AsyncLogger}
    (h : ∀ now buffers, .notice now buffers ∉ s.output) :
    s.logged = s.output.map (Record.text localtime) := by
  unfold AsyncLogger.logged
  rw [← List.filterMap_eq_map']
  refine List.filterMap_congr ?_
  intro r hr
  cases r with
  | notice now buffers => exact absurd hr (h now buffers)
  | buffer data => rfl

/-- Short messages, a clock that is set, and a `stop` that the logging thread will notice before it
    leaves messages behind. -/
def StopsProperly (s : LogPipeline) (a : Action) : Prop :=
  StopsInTime s.logger a.1 ∧ s.ClockSet a

instance (s : LogPipeline) (a : Action) : Decidable (s.StopsProperly a) :=
  inferInstanceAs (Decidable (_ ∧ _))

/-- When `stop` has returned in a run without overflow, the first messages are in the files, and all
    those that were appended before it except for empty ones. -/
theorem placed_of_stopped {as : List Action}
    (run : (machine cfg).Reaches StopsProperly as s) (hstopped : s.logger.owner = .stopped)
    (hquiet : ∀ now buffers, .notice now buffers ∉ s.logger.output) :
    ∃ (l : LogFile) (placed : List (Bytes × Bytes)) (silent : List Bytes),
      s.output = some l ∧ placed.map (·.2) <+: s.logger.appended ∧ (∀ msg ∈ silent, msg = []) ∧
      s.logger.beforeStop <+: placed.map (·.2) ++ silent ∧
      ∀ file, cfg.files file = none →
        (l.file.files file).getD [] = (Ledger.placedIn file placed).flatten := by
  have hlogger : AsyncLogger.machine.Reaches StopsInTime (as.map (·.1)) s.logger :=
    logger_of_reaches run fun _ _ hok => hok.1
  have hshort := hlogger.mono fun _ _ h => AsyncLogger.shortMessages_of_stopsInTime h
  have hdone : s.logger.pc = .done := AsyncLogger.done_of_stopped hlogger hstopped
  have hsettled : s.logger.pc.settled = true := by rw [hdone]; rfl
  obtain ⟨past, batch, full, cur, h, hin⟩ := AsyncLogger.inTime_of_reaches hlogger
  obtain ⟨rfl, hkept⟩ := of_settled h (AsyncLogger.sound_of_reaches hlogger).2 hsettled
  -- nothing was erased, so what was collected is what is in the files
  have herased : s.logger.erased = [] := by
    by_contra hne
    obtain ⟨now, buffers, hnotice⟩ := AsyncLogger.reported_of_reaches hshort (Or.inl hne)
    exact hquiet now buffers hnotice
  have hall : past.kept.flatten = past.all :=
    Ledger.flatten_kept (List.map_eq_nil_iff.1 (h.dropped.trans herased))
  have hrecords : past.kept.map (·.flatMap id) =
      s.logger.output.map (Record.text cfg.localtime) := by
    simp only [List.flatMap_id, hkept]
    exact logged_of_quiet cfg.localtime hquiet
  obtain ⟨l, placed, hl, hplaced, hfiles⟩ :=
    (piped_of_reaches run fun _ _ hok => hok.2).exists_placed hsettled id hrecords
  rw [hall] at hplaced
  obtain ⟨-, -, htaken⟩ := hin (Or.inr (Or.inr hstopped))
  obtain ⟨silent, hsilent, hcovers⟩ := htaken (by rw [hdone]; rfl)
  rw [List.flatten_nil, List.append_nil, ← hplaced] at hcovers
  refine ⟨l, placed, silent, hl, ?_, hsilent, hcovers, ?_⟩
  · exact ⟨full.flatten ++ cur, by rw [← h.appended, hplaced]; simp⟩
  · intro file hnew
    rw [hfiles, hnew, Option.getD_none, List.nil_append, List.flatMap_id]

/-- Lines that were appended before a `stop` in time, in a run without overflow, are read back from
    the files when `stop` has returned: every file that was not there before is, line by line, the
    lines that were put in it, in the order in which they were appended. -/
theorem stopped_log_reads_back {as : List Action}
    (run : (machine cfg).Reaches StopsProperly as s) (hstopped : s.logger.owner = .stopped)
    (hquiet : ∀ now buffers, .notice now buffers ∉ s.logger.output)
    (hlines : ∀ msg ∈ s.logger.appended, Terminated (10 : Byte) msg) :
    ∃ (l : LogFile) (placed : List (Bytes × Bytes)),
      s.output = some l ∧
      s.logger.beforeStop <+: placed.map (·.2) ∧ placed.map (·.2) <+: s.logger.appended ∧
      ∀ file, cfg.files file = none →
        Terminated.records 10 ((l.file.files file).getD []) = Ledger.placedIn file placed := by
  obtain ⟨l, placed, silent, hl, hpast, hsilent, hcovers, hfiles⟩ :=
    placed_of_stopped run hstopped hquiet
  have hbefore := beforeStop_isPrefix (logger_of_reaches run fun _ _ hok => hok.1)
  refine ⟨l, placed, hl, ?_, hpast, ?_⟩
  · refine prefix_of_prefix_append hcovers ?_ hsilent
    intro msg hmsg
    exact List.ne_nil_of_mem (hlines msg (hbefore.subset hmsg)).mem
  · intro file hnew
    rw [hfiles file hnew]
    refine Terminated.records_flatten ?_
    intro msg hmsg
    exact hlines msg (hpast.subset (Ledger.mem_of_mem_placedIn hmsg))

/-- The thread waits when `stop` is called, and a second line comes in behind it. -/
def stopWaiting : List AsyncLogger.Action :=
  AsyncLogger.started ++ List.replicate 3 (.log .zero) ++
    [.append (bytes "x\n"), .stop, .append (bytes "y\n"), .notify] ++
    List.replicate 16 (.log .zero) ++ [.join]

theorem stopped_log_reads_back_stopWaiting :
    ∃ s, (machine newFiles).Reaches StopsProperly (standing stopWaiting) s ∧
      ∃ (l : LogFile) (placed : List (Bytes × Bytes)), s.output = some l ∧
        [bytes "x\n"] <+: placed.map (·.2) ∧
        ∀ file, Terminated.records 10 ((l.file.files file).getD []) =
          Ledger.placedIn file placed := by
  obtain ⟨s, run, hstopped, houtput, hbefore, happended⟩ := Machine.exists_reaches_of_exec
    (machine newFiles) StopsProperly new (standing stopWaiting)
    (fun s => s.logger.owner = .stopped ∧ s.logger.output = [.buffer (bytes "x\ny\n")] ∧
      s.logger.beforeStop = [bytes "x\n"] ∧ s.logger.appended = [bytes "x\n", bytes "y\n"])
    rfl (by decide)
  obtain ⟨l, placed, hl, hcovers, -, hlines⟩ := stopped_log_reads_back run hstopped
    (by simp [houtput]) (by
      rw [happended]
      intro msg hmsg
      rcases List.mem_pair.1 hmsg with rfl | rfl
      · exact ⟨[120], rfl, by decide⟩
      · exact ⟨[121], rfl, by decide⟩)
  exact ⟨s, run, l, placed, hl, hbefore ▸ hcovers, fun file => hlines file rfl⟩

end LogPipeline
