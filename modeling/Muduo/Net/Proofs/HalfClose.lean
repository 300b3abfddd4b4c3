import Muduo.Net.Proofs.ConnectionThreads

set_option autoImplicit false

/-! # What is sent before a half-close

`shutdown` half-closes behind the bytes that were accepted before it when no `send` is pending at
the half-close. A `send` off the loop thread is still on its way when a `shutdown` in the loop
thread overtakes it. -/

namespace ConnectionThreads

open TcpConnection (Effect written)

variable {s t : ConnectionThreads} {a : Action}

/-- Behind a half-close nothing is written, and before it everything accepted has been. -/
def ClosesGracefully (s : ConnectionThreads) : Prop :=
  ∀ pre post, s.trace = pre ++ .shutdownWrite :: post →
    (∃ sent, s.accepted.Perm sent ∧ written pre = sent.flatten) ∧ ∀ e ∈ post, e.isWrite = false

/-- No close, no change of the bytes behind a pending `send`, no error that makes `SendInLoop` drop
    its data, and no `send` pending when a step half-closes. -/
def ClosesBehindSends (s : ConnectionThreads) : Action → Prop
  | .handleClose => False
  | .storeDisconnected => False
  | .loopSend _ _ _ w => w.Benign
  | .loopStoreShutdown => s.conn.channel.isWriting = false → s.pending = []
  | .runFunctor w =>
      w.Benign ∧ (s.functors.head? = some .shutdownInLoop → s.conn.channel.isWriting = false →
        s.pending = [])
  | .handleWrite w =>
      s.conn.state = .disconnecting → w.TakesAll s.conn.outputBuffer → s.pending = []
  | .store a b => s.Untouched a b
  | _ => True

instance (s : ConnectionThreads) : (a : Action) → Decidable (ClosesBehindSends s a)
  | .handleClose | .storeDisconnected => isFalse id
  | .loopSend _ _ _ w => inferInstanceAs (Decidable w.Benign)
  | .loopStoreShutdown =>
      inferInstanceAs (Decidable (s.conn.channel.isWriting = false → s.pending = []))
  | .runFunctor w =>
      inferInstanceAs (Decidable (w.Benign ∧ (s.functors.head? = some .shutdownInLoop →
        s.conn.channel.isWriting = false → s.pending = [])))
  | .handleWrite w =>
      inferInstanceAs (Decidable (s.conn.state = .disconnecting →
        w.TakesAll s.conn.outputBuffer → s.pending = []))
  | .store a b => inferInstanceAs (Decidable (s.Untouched a b))
  | .send .. | .shutdown | .goOn _ | .loopShutdown | .connectEstablished | .connectDestoryed =>
      isTrue trivial

/-- A `ShutdownInLoop` is queued, or about to be. -/
def Asks (s : ConnectionThreads) : Prop :=
  .shutdownInLoop ∈ s.functors ∨ .shutdownStored ∈ s.callers

theorem Asks.of_queued {es : List Effect} (h : t.Asks)
    (hfunctors : t.functors = s.functors ++ es.filterMap queuedBy)
    (hcallers : t.callers = s.callers) : s.Asks := by
  refine h.imp (fun hmem => ?_) fun hmem => hcallers ▸ hmem
  rw [hfunctors] at hmem
  refine (List.mem_append.1 hmem).resolve_right ?_
  intro hmem
  obtain ⟨e, -, he⟩ := List.mem_filterMap.1 hmem
  cases e <;> exact absurd he (by simp [queuedBy])

theorem Asks.of_tail {f : Functor} {functors : List Functor} (h : t.Asks)
    (hqueue : s.functors = f :: functors) (hfunctors : t.functors = functors)
    (hcallers : t.callers = s.callers) : s.Asks := by
  refine h.imp (fun hmem => ?_) fun hmem => hcallers ▸ hmem
  rw [hqueue]
  exact List.mem_cons_of_mem f (hfunctors ▸ hmem)

/-- Whoever asks for a half-close has stored `kDisconnecting` before. -/
theorem Step.asks (h : Step s a t) (hasks : t.Asks) : s.Asks ∨ t.conn.state = .disconnecting := by
  cases h with
  | send hstate hload =>
      exact Or.inl (hasks.imp id fun hmem => (List.mem_cons.1 hmem).resolve_left (by simp))
  | shutdown hstate =>
      exact Or.inl (hasks.imp id fun hmem => (List.mem_cons.1 hmem).resolve_left (by simp))
  | goOn hmem =>
      rename_i caller
      cases caller with
      | sendTested send =>
          left
          rcases hasks with hmem | hmem
          · rcases List.mem_append.1 hmem with hmem | hmem
            · exact Or.inl hmem
            · exact absurd (List.mem_singleton.1 hmem) (by simp)
          · exact Or.inr (List.mem_of_mem_erase hmem)
      | shutdownTested => exact Or.inr rfl
      -- the caller that has stored is the one whose functor is queued
      | shutdownStored => exact Or.inl (Or.inr hmem)
  | runSend hqueue hload =>
      have hbefore := hasks.of_queued (s := { s with functors := _ }) rfl rfl
      exact Or.inl (hbefore.of_tail hqueue rfl rfl)
  | runReleased hqueue hload => exact Or.inl (hasks.of_tail hqueue rfl rfl)
  | runShutdown hqueue =>
      have hbefore := hasks.of_queued (s := { s with functors := _ }) rfl rfl
      exact Or.inl (hbefore.of_tail hqueue rfl rfl)
  | runCallback hqueue hf => exact Or.inl (hasks.of_tail hqueue rfl rfl)
  | loopSend hstate hload => exact Or.inl (hasks.of_queued rfl rfl)
  | loopStoreShutdown hcall => exact Or.inr rfl
  | handleWrite => exact Or.inl (hasks.of_queued rfl rfl)
  | handleClose hcall hstate => exact Or.inl (hasks.of_queued rfl rfl)
  | connectEstablished hstate => exact Or.inl (hasks.of_queued rfl rfl)
  | remove => exact Or.inl (hasks.of_queued rfl rfl)
  | storeDisconnected hcall =>
      exact Or.inl (Asks.of_queued (Asks.of_queued (s := s.perform s.conn.disconnect) hasks rfl rfl)
        rfl rfl)
  | _ => exact Or.inl hasks

theorem Step.state_disconnecting (h : Step s a t) (hok : ClosesBehindSends s a)
    (hstate : s.conn.state = .disconnecting) : t.conn.state = .disconnecting := by
  cases h with
  | goOn hmem => rename_i caller; cases caller <;> first | exact hstate | rfl
  | loopSend => exact TcpConnection.sendInLoop_state.trans hstate
  | runSend => exact TcpConnection.sendInLoop_state.trans hstate
  | loopStoreShutdown hcall => rfl
  | handleWrite => exact TcpConnection.handleWrite_state.trans hstate
  -- a connection is established once
  | connectEstablished hconnecting => exact absurd (hstate.symm.trans hconnecting) (by simp)
  | handleClose => exact absurd hok id
  | storeDisconnected hcall => exact absurd hok id
  | _ => exact hstate

/-- What has been written and what is kept are the data of the `send`s that have run. -/
structure Streams (s : ConnectionThreads) : Prop where
  balanced : TcpConnection.Balanced s.conn
  stream : written s.trace ++ s.conn.outputBuffer = (s.deliveries.map (·.payload)).flatten

/-- A function of the connection that passes on `more` without loss. -/
theorem Streams.perform {r : TcpConnection × List Effect} (h : s.Streams) (more : Bytes)
    (hconn : t.conn = r.1) (htrace : t.trace = s.trace ++ r.2)
    (hdeliveries : (t.deliveries.map (·.payload)).flatten
      = (s.deliveries.map (·.payload)).flatten ++ more)
    (hbalanced : TcpConnection.Balanced r.1)
    (hstream : written r.2 ++ r.1.outputBuffer = s.conn.outputBuffer ++ more) : t.Streams where
  balanced := hconn ▸ hbalanced
  stream := by
    rw [hconn, htrace, hdeliveries, ← h.stream, TcpConnection.written_append, List.append_assoc,
      hstream, List.append_assoc]

theorem Streams.deliver {payload : Bytes} {w : WriteResult} (h : s.Streams) (hw : w.Benign) :
    (s.deliver payload payload w).Streams :=
  h.perform payload rfl rfl (by simp [ConnectionThreads.deliver])
    (TcpConnection.sendInLoop_balanced h.balanced) (TcpConnection.sendInLoop_stream h.balanced hw)

/-- Neither half-closing nor an update of the poller moves any bytes. -/
theorem Streams.of_still {r : TcpConnection × List Effect} (h : s.Streams) (hconn : t.conn = r.1)
    (htrace : t.trace = s.trace ++ r.2) (hdeliveries : t.deliveries = s.deliveries)
    (hbalanced : TcpConnection.Balanced r.1) (hbuffer : r.1.outputBuffer = s.conn.outputBuffer)
    (hstill : ∀ e ∈ r.2, e.isWrite = false) : t.Streams :=
  h.perform [] hconn htrace (by rw [hdeliveries, List.append_nil]) hbalanced
    (by rw [TcpConnection.written_of_no_write hstill, hbuffer, List.nil_append, List.append_nil])

theorem Streams.step (h : s.Streams) (hreadable : s.Readable) (hok : ClosesBehindSends s a)
    (hstep : Step s a t) : t.Streams := by
  cases hstep with
  | goOn hmem => rename_i caller; cases caller <;> exact ⟨h.balanced, h.stream⟩
  | @loopSend _ _ _ _ payload hstate hload =>
      have hdelivered : (s.deliver payload payload _).Streams := h.deliver hok
      exact ⟨hdelivered.balanced, hdelivered.stream⟩
  | runSend hqueue hload =>
      have hpayload := (hreadable _ (mem_pending_of_queued hqueue)).symm.trans hload
      rw [← Option.some.inj hpayload]
      exact Streams.deliver (s := { s with functors := _ }) ⟨h.balanced, h.stream⟩ hok.1
  | runReleased hqueue hload =>
      exact absurd ((hreadable _ (mem_pending_of_queued hqueue)).symm.trans hload) (by simp)
  | runShutdown hqueue =>
      exact h.of_still (r := (s.conn, _)) rfl rfl rfl h.balanced rfl
        (TcpConnection.isWrite_shutdownInLoop _)
  | loopStoreShutdown hcall =>
      exact h.of_still (r := ({ s.conn with state := .disconnecting }, _)) rfl rfl rfl h.balanced
        rfl (TcpConnection.isWrite_shutdownInLoop _)
  | handleWrite =>
      refine h.perform [] rfl rfl (List.append_nil _).symm
        (TcpConnection.handleWrite_balanced h.balanced) ?_
      rw [TcpConnection.handleWrite_stream, List.append_nil]
  | connectEstablished hstate =>
      exact h.of_still rfl rfl rfl (TcpConnection.connectEstablished_balanced h.balanced) rfl
        (TcpConnection.isWrite_connectEstablished _)
  | remove => exact h.of_still rfl rfl rfl h.balanced rfl (TcpConnection.isWrite_onChannel _ _)
  | handleClose hcall hstate => exact absurd hok id
  | storeDisconnected hcall => exact absurd hok id
  | _ => exact ⟨h.balanced, h.stream⟩

/-- What the runs keep. -/
structure Sound (s : ConnectionThreads) : Prop where
  readable : s.Readable
  accounted : s.Accounted
  streams : s.Streams
  asked : s.Asks → s.conn.state = .disconnecting

theorem Sound.step (h : s.Sound) (hok : ClosesBehindSends s a) (hstep : Step s a t) :
    t.Sound where
  readable := h.readable.step hstep fun x b heq => by
    subst heq
    exact hok
  accounted := h.accounted.step hstep
  streams := h.streams.step h.readable hok hstep
  asked hasks := by
    rcases hstep.asks hasks with hasks | hstate
    · exact hstep.state_disconnecting hok (h.asked hasks)
    · exact hstate

theorem Sound.of_init (h : machine.init s) : s.Sound := by
  have hreadable := Readable.of_init h
  have haccounted := Accounted.of_init h
  obtain ⟨⟨fd, connection, writeComplete, close, highWaterMark, hconn⟩, -, hfunctors, hcallers,
    htrace, -, hdeliveries, -⟩ := h
  refine ⟨hreadable, haccounted, ⟨?_, ?_⟩, ?_⟩
  · rw [hconn]
    exact TcpConnection.balanced_new ..
  · simp [htrace, hdeliveries, hconn, TcpConnection.new]
  · simp [Asks, hfunctors, hcallers]

/-- A half-closed connection on which nobody sends any more. -/
structure HalfClosed (s : ConnectionThreads) : Prop where
  state_eq : s.conn.state = .disconnecting
  outputBuffer_eq : s.conn.outputBuffer = []
  pending_eq : s.pending = []

theorem isWriting_of_empty (h : s.Streams) (hempty : s.conn.outputBuffer = []) :
    s.conn.channel.isWriting = false := by
  rcases h.balanced.cases with ⟨hidle, -⟩ | ⟨-, hpending⟩
  · exact hidle
  · exact absurd hempty hpending

theorem outputBuffer_of_idle (h : s.Streams) (hidle : s.conn.channel.isWriting = false) :
    s.conn.outputBuffer = [] := by
  rcases h.balanced.cases with ⟨-, hempty⟩ | ⟨hwriting, -⟩
  · exact hempty
  · exact absurd (hidle.symm.trans hwriting) (by simp)

/-- A half-closed connection stays half-closed, and nothing is written. -/
theorem HalfClosed.step (h : s.HalfClosed) (hsound : s.Sound) (hok : ClosesBehindSends s a)
    (hstep : Step s a t) :
    t.HalfClosed ∧ ∃ es, t.trace = s.trace ++ es ∧ ∀ e ∈ es, ¬ e.isWrite = true := by
  have hstate : s.conn.state ≠ .connected := by simp [h.state_eq]
  have hkeep (hbuffer : t.conn.outputBuffer = []) : t.HalfClosed :=
    ⟨hstep.state_disconnecting hok h.state_eq, hbuffer, hstep.pending_eq_nil hstate h.pending_eq⟩
  have hquiet {es : List Effect} (hes : ∀ e ∈ es, e.isWrite = false) :
      ∀ e ∈ es, ¬ e.isWrite = true := fun e he => by simp [hes e he]
  have hnone : ∃ es, s.trace = s.trace ++ es ∧ ∀ e ∈ es, ¬ e.isWrite = true :=
    ⟨[], (List.append_nil _).symm, by simp⟩
  cases hstep with
  | send hconnected => exact absurd hconnected hstate
  | shutdown hconnected => exact absurd hconnected hstate
  | loopSend hconnected => exact absurd hconnected hstate
  | loopShutdown hconnected => exact absurd hconnected hstate
  | goOn hmem =>
      rename_i caller
      cases caller <;> exact ⟨hkeep h.outputBuffer_eq, hnone⟩
  | loopStoreShutdown hcall =>
      exact ⟨hkeep h.outputBuffer_eq, _, rfl, hquiet (TcpConnection.isWrite_shutdownInLoop _)⟩
  | runSend hqueue hload => exact absurd hqueue (not_queued_of_quiet h.pending_eq)
  | runReleased hqueue hload => exact absurd hqueue (not_queued_of_quiet h.pending_eq)
  | runShutdown hqueue =>
      exact ⟨hkeep h.outputBuffer_eq, _, rfl, hquiet (TcpConnection.isWrite_shutdownInLoop _)⟩
  | handleWrite =>
      rename_i w
      have hidle : s.conn.handleWrite w = (s.conn, []) :=
        TcpConnection.handleWrite_of_idle (isWriting_of_empty hsound.streams h.outputBuffer_eq)
      refine ⟨hkeep ?_, _, rfl, ?_⟩
      · simp [perform, hidle, h.outputBuffer_eq]
      · simp [hidle]
  | connectEstablished hconnecting => exact absurd (h.state_eq.symm.trans hconnecting) (by simp)
  | remove => exact ⟨hkeep h.outputBuffer_eq, _, rfl, hquiet (TcpConnection.isWrite_onChannel _ _)⟩
  | handleClose hcall hstate => exact absurd hok id
  | storeDisconnected hcall => exact absurd hok id
  | _ => exact ⟨hkeep h.outputBuffer_eq, hnone⟩

/-- `ShutdownInLoop` half-closes a connection on which nobody sends. -/
theorem halfClosed_shutdownInLoop {c : TcpConnection} (hstate : t.conn.state = .disconnecting)
    (hstreams : t.Streams) (hchannel : t.conn.channel = c.channel)
    (hquiet : c.channel.isWriting = false → t.pending = []) :
    ∀ e ∈ c.shutdownInLoop, e = .shutdownWrite → t.HalfClosed := by
  intro e he _
  rw [TcpConnection.shutdownInLoop_eq] at he
  split at he
  · rename_i hidle
    exact ⟨hstate, outputBuffer_of_idle hstreams (hchannel ▸ hidle), hquiet hidle⟩
  · exact absurd he (by simp)

theorem neverAfter_shutdownInLoop (c : TcpConnection) :
    Trace.NeverAfter (· = .shutdownWrite) (fun e => e.isWrite = true) c.shutdownInLoop :=
  Trace.neverAfter_of_quiet fun e he => by simp [TcpConnection.isWrite_shutdownInLoop c e he]

/-- A step that half-closes leaves a half-closed connection. -/
theorem Sound.step_halfClosed (h : s.Sound) (hok : ClosesBehindSends s a) (hstep : Step s a t) :
    ∃ es, t.trace = s.trace ++ es ∧
      Trace.NeverAfter (· = .shutdownWrite) (fun e => e.isWrite = true) es ∧
      ∀ e ∈ es, e = .shutdownWrite → t.HalfClosed := by
  have hstreams : t.Streams := h.streams.step h.readable hok hstep
  have habsent {es : List Effect} (htrace : t.trace = s.trace ++ es)
      (hes : ∀ e ∈ es, e ≠ .shutdownWrite) : ∃ es, t.trace = s.trace ++ es ∧
        Trace.NeverAfter (· = .shutdownWrite) (fun e => e.isWrite = true) es ∧
        ∀ e ∈ es, e = .shutdownWrite → t.HalfClosed :=
    ⟨es, htrace, Trace.neverAfter_of_absent hes, fun e he heq => absurd heq (hes e he)⟩
  cases hstep with
  | goOn hmem =>
      rename_i caller
      cases caller <;> exact habsent (List.append_nil _).symm (by simp)
  | loopSend hstate hload =>
      exact habsent rfl fun e he heq => TcpConnection.shutdownWrite_notMem_sendInLoop (heq ▸ he)
  | runSend hqueue hload =>
      exact habsent rfl fun e he heq => TcpConnection.shutdownWrite_notMem_sendInLoop (heq ▸ he)
  | runShutdown hqueue =>
      have hstate : s.conn.state = .disconnecting := h.asked (Or.inl (by simp [hqueue]))
      refine ⟨_, rfl, neverAfter_shutdownInLoop _,
        halfClosed_shutdownInLoop hstate hstreams rfl ?_⟩
      intro hidle
      -- the functor itself is no `send`, so nothing is pending behind it either
      have hquiet := hok.2 (by simp [hqueue]) hidle
      rw [pending_of_queue hqueue] at hquiet
      rw [pending_perform]
      exact hquiet
  | loopStoreShutdown hcall =>
      refine ⟨_, rfl, neverAfter_shutdownInLoop _,
        halfClosed_shutdownInLoop rfl hstreams rfl ?_⟩
      intro hidle
      exact (pending_perform s ({ s.conn with state := .disconnecting }, _)).trans (hok hidle)
  | handleWrite =>
      refine ⟨_, rfl, (TcpConnection.handleWrite_halfClosedOnce _ _).mono (fun _ => id)
        fun _ => Or.inr, ?_⟩
      intro e he heq
      obtain ⟨hstate, hall, hempty⟩ := TcpConnection.handleWrite_half (heq ▸ he)
      exact ⟨TcpConnection.handleWrite_state.trans hstate, hempty,
        (pending_perform s _).trans (hok hstate hall)⟩
  | connectEstablished hstate =>
      refine habsent rfl ?_
      intro e he heq
      rcases TcpConnection.connectEstablished_effects _ e he with ⟨p, rfl⟩ | rfl <;>
        exact absurd heq (by simp)
  | remove =>
      refine habsent rfl ?_
      intro e he heq
      exact absurd (TcpConnection.isSending_onChannel e he) (by simp [heq, Effect.isSending])
  | handleClose hcall hstate => exact absurd hok id
  | storeDisconnected hcall => exact absurd hok id
  | _ => exact habsent (List.append_nil _).symm (by simp)

/-- A half-close with no `send` pending comes behind everything that was accepted, and nothing is
    written any more. -/
theorem closes_gracefully {as : List Action} (run : machine.Reaches ClosesBehindSends as s) :
    s.ClosesGracefully := by
  have hsound (as : List Action) (s : ConnectionThreads)
      (run : machine.Reaches ClosesBehindSends as s) : s.Sound :=
    run.invariant (fun _ => Sound.of_init) fun s a t h hok hstep => h.step hok (step_cases hstep)
  obtain ⟨hnever, hclosed⟩ := run.neverAfter trace (fun _ h => h.2.2.2.2.1) hsound
    (fun _ _ _ hs hclosed hok h => HalfClosed.step hclosed hs hok (step_cases h))
    fun _ _ _ hs hok h => hs.step_halfClosed hok (step_cases h)
  intro pre post hsplit
  have hdown : s.HalfClosed := hclosed .shutdownWrite (by simp [hsplit]) rfl
  have hquiet : ∀ e ∈ post, e.isWrite = false := by
    intro e he
    rw [hsplit] at hnever
    simpa using hnever.not_of_split rfl e he
  -- nothing pending and nothing kept: all that was accepted has been written
  obtain ⟨-, haccounted, ⟨-, hstream⟩, -⟩ := hsound as s run
  refine ⟨⟨s.deliveries.map (·.payload), ?_, ?_⟩, hquiet⟩
  · simpa [Accounted, hdown.pending_eq] using haccounted
  · rw [← hstream, hsplit, hdown.outputBuffer_eq]
    simp [TcpConnection.written_of_no_write hquiet, Effect.accepted]

/-- Two threads send, and one of them shuts down when its data is still on the way. -/
def sendThenShutdown : List Action :=
  [.connectEstablished] ++ sendCalls false ++
    [.loopSend 0 2 false (.room 1), .shutdown, .runFunctor (.room 0), .goOn .shutdownTested,
      .goOn .shutdownStored, .runFunctor (.room 0), .handleWrite (.room 2), .handleWrite (.room 9)]

theorem closes_gracefully_sendThenShutdown :
    ∃ t, machine.Reaches ClosesBehindSends sendThenShutdown t ∧ .shutdownWrite ∈ t.trace ∧
      t.ClosesGracefully := by
  obtain ⟨t, run, hhalf⟩ := machine.exists_reaches_of_exec ClosesBehindSends start sendThenShutdown
    (fun t => .shutdownWrite ∈ t.trace) init_start (by decide)
  exact ⟨t, run, hhalf, closes_gracefully run⟩

/-- A `send` off the loop thread returns, and then the loop thread shuts down. -/
def sendThenLoopShutdown : List Action :=
  [.connectEstablished] ++ sendCalls false ++
    [.loopShutdown, .loopStoreShutdown, .runFunctor (.room 5)]

/-- The half-close overtakes the data, which is written behind it. -/
theorem half_close_overtakes_send :
    ∃ t, machine.Reaches Machine.anyStep sendThenLoopShutdown t ∧ ¬ t.ClosesGracefully := by
  obtain ⟨t, run, haccepted, htrace⟩ := machine.exists_reaches_of_exec Machine.anyStep start
    sendThenLoopShutdown
    (fun t => t.accepted = [[104, 105]] ∧ t.trace =
      [.poller (.setChannel 7), .poller (.epollCtl .add 7 ⟨true, true, false⟩),
        .connectionCallback] ++
        .shutdownWrite :: [.write [104, 105], .queueWriteComplete]) init_start (by decide)
  refine ⟨t, run, ?_⟩
  intro hgraceful
  obtain ⟨-, hquiet⟩ := hgraceful _ _ htrace
  exact absurd (hquiet (.write [104, 105]) (by simp)) (by simp [Effect.isWrite])

end ConnectionThreads
