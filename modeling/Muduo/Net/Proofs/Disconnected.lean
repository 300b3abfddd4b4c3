import Muduo.Net.Proofs.ConnectionThreads

set_option autoImplicit false

/-! # After the connection is down

A connection that goes down when no `send` is pending does nothing any more. The functor of a
pending `send` finds it closed, writes all the same and brings the channel back. -/

namespace ConnectionThreads

open TcpConnection (Effect)

variable {s t : ConnectionThreads} {a : Action}

/-- A connection is closed once, and with no `send` pending. -/
def ClosesUnused (s : ConnectionThreads) : Action → Prop
  | .handleClose => s.pending = [] ∧ .disconnected ∉ s.trace
  | .storeDisconnected => s.pending = []
  | _ => True

instance (s : ConnectionThreads) : (a : Action) → Decidable (ClosesUnused s a)
  | .handleClose => inferInstanceAs (Decidable (s.pending = [] ∧ .disconnected ∉ s.trace))
  | .storeDisconnected => inferInstanceAs (Decidable (s.pending = []))
  | .send .. | .shutdown | .goOn _ | .loopSend .. | .loopShutdown | .loopStoreShutdown
  | .runFunctor _ | .handleWrite _ | .connectEstablished | .connectDestoryed | .store .. =>
      isTrue trivial

/-- A connection that is down and that nobody uses. -/
structure Down (s : ConnectionThreads) : Prop where
  mem_trace : .disconnected ∈ s.trace
  not_connected : s.conn.state ≠ .connected
  not_connecting : s.conn.state ≠ .connecting
  events_eq : s.conn.channel.events = .none
  loopCall_eq : s.loopCall = .none
  pending_eq : s.pending = []

/-- What is down stays down. -/
theorem Down.step (h : s.Down) (hok : ClosesUnused s a) (hstep : Step s a t) :
    t.Down ∧ ∃ es, t.trace = s.trace ++ es ∧ ∀ e ∈ es, ¬ e.revives = true := by
  have hkeep {es : List Effect} (htrace : t.trace = s.trace ++ es)
      (hstate : t.conn.state = s.conn.state ∨ t.conn.state = .disconnecting)
      (hevents : t.conn.channel.events = s.conn.channel.events) (hcall : t.loopCall = s.loopCall)
      (hes : ∀ e ∈ es, ¬ e.revives = true) :
      t.Down ∧ ∃ es, t.trace = s.trace ++ es ∧ ∀ e ∈ es, ¬ e.revives = true := by
    refine ⟨⟨?_, ?_, ?_, hevents.trans h.events_eq, hcall.trans h.loopCall_eq,
      hstep.pending_eq_nil h.not_connected h.pending_eq⟩, es, htrace, hes⟩
    · rw [htrace]
      exact List.mem_append_left _ h.mem_trace
    · rcases hstate with hstate | hstate <;> simp [hstate, h.not_connected]
    · rcases hstate with hstate | hstate <;> simp [hstate, h.not_connecting]
  cases hstep with
  | send hconnected => exact absurd hconnected h.not_connected
  | shutdown hconnected => exact absurd hconnected h.not_connected
  | loopSend hconnected => exact absurd hconnected h.not_connected
  | loopShutdown hconnected => exact absurd hconnected h.not_connected
  | connectDestoryed hconnected => exact absurd hconnected h.not_connected
  | connectEstablished hconnecting => exact absurd hconnecting h.not_connecting
  | goOn hmem =>
      rename_i caller
      cases caller with
      | sendTested send => exact hkeep (List.append_nil _).symm (Or.inl rfl) rfl rfl (by simp)
      | shutdownTested => exact hkeep (List.append_nil _).symm (Or.inr rfl) rfl rfl (by simp)
      | shutdownStored => exact hkeep (List.append_nil _).symm (Or.inl rfl) rfl rfl (by simp)
  | loopStoreShutdown hcall => exact absurd (h.loopCall_eq.symm.trans hcall) (by simp)
  | storeDisconnected hcall => exact absurd (h.loopCall_eq.symm.trans hcall) (by simp)
  | runSend hqueue hload => exact absurd hqueue (not_queued_of_quiet h.pending_eq)
  | runReleased hqueue hload => exact absurd hqueue (not_queued_of_quiet h.pending_eq)
  | runShutdown hqueue =>
      exact hkeep rfl (Or.inl rfl) rfl rfl (TcpConnection.revives_shutdownInLoop _)
  | handleWrite =>
      rename_i w
      have hidle : s.conn.handleWrite w = (s.conn, []) :=
        TcpConnection.handleWrite_of_idle (by simp [Channel.isWriting, h.events_eq, Events.none])
      rw [hidle] at hkeep ⊢
      exact hkeep rfl (Or.inl rfl) rfl rfl (by simp)
  -- closing a second time would bring the channel back
  | handleClose hcall hstate => exact absurd h.mem_trace hok.2
  | remove =>
      exact hkeep rfl (Or.inl rfl) rfl rfl fun e he => by
        simp [TcpConnection.revives_remove _ e he]
  | _ => exact hkeep (List.append_nil _).symm (Or.inl rfl) rfl rfl (by simp)

/-- A step that closes the connection leaves it down. -/
theorem Step.down (hstep : Step s a t) (hok : ClosesUnused s a) :
    ∃ es, t.trace = s.trace ++ es ∧ TcpConnection.Inert es ∧
      ∀ e ∈ es, e = .disconnected → t.Down := by
  have habsent {es : List Effect} (htrace : t.trace = s.trace ++ es)
      (hes : ∀ e ∈ es, e ≠ .disconnected) : ∃ es, t.trace = s.trace ++ es ∧
        TcpConnection.Inert es ∧ ∀ e ∈ es, e = .disconnected → t.Down :=
    ⟨es, htrace, Trace.neverAfter_of_absent hes, fun e he heq => absurd heq (hes e he)⟩
  have hsending {e : Effect} (he : e.isSending = true) : e ≠ .disconnected := by
    rintro rfl
    exact absurd he (by simp [Effect.isSending])
  have hhalf (c : TcpConnection) : ∀ e ∈ c.shutdownInLoop, e ≠ .disconnected := by
    intro e he
    rw [TcpConnection.eq_of_mem_shutdownInLoop he]
    simp
  cases hstep with
  | goOn hmem =>
      rename_i caller
      cases caller <;> exact habsent (List.append_nil _).symm (by simp)
  | loopSend hstate hload =>
      exact habsent rfl fun e he => hsending (TcpConnection.isSending_sendInLoop e he)
  | runSend hqueue hload =>
      exact habsent rfl fun e he => hsending (TcpConnection.isSending_sendInLoop e he)
  | runShutdown hqueue => exact habsent rfl (hhalf s.conn)
  | loopStoreShutdown hcall => exact habsent rfl (hhalf { s.conn with state := .disconnecting })
  | handleWrite =>
      refine habsent rfl ?_
      intro e he
      rcases TcpConnection.isSending_handleWrite e he with he | rfl
      · exact hsending he
      · simp
  | connectEstablished hstate =>
      refine habsent rfl ?_
      intro e he
      rcases TcpConnection.connectEstablished_effects _ e he with ⟨p, rfl⟩ | rfl <;> simp
  | remove =>
      exact habsent rfl fun e he => hsending (TcpConnection.isSending_onChannel e he)
  | handleClose hcall hstate =>
      refine ⟨_, rfl, TcpConnection.inert_handleClose _, ?_⟩
      intro e he heq
      constructor
      · exact List.mem_append_right _ (heq ▸ he)
      · simp [perform]
      · simp [perform]
      · simp [perform]
      · exact hcall
      · rw [pending_perform]
        exact hok.1
  | storeDisconnected hcall =>
      have hmem : .disconnected ∈ s.conn.disconnect.2 := by simp [TcpConnection.disconnect]
      refine ⟨_, List.append_assoc _ _ _, (TcpConnection.inert_disconnect _).append_of_quiet
        fun e he => by simp [TcpConnection.revives_remove _ e he], fun _ _ _ => ?_⟩
      constructor
      · exact List.mem_append_left _ (List.mem_append_right _ hmem)
      · simp [perform]
      · simp [perform]
      · simp [perform]
      · rfl
      · exact (pending_perform _ _).trans ((pending_perform _ _).trans hok)
  | _ => exact habsent (List.append_nil _).symm (by simp)

/-- A connection that goes down when no `send` is pending does nothing any more. -/
theorem disconnected_inert {as : List Action} (run : machine.Reaches ClosesUnused as s) :
    TcpConnection.Inert s.trace :=
  (run.neverAfter (I := fun _ => True) trace (fun _ h => h.2.2.2.2.1) (fun _ _ _ => trivial)
    (fun _ _ _ _ hdown hok h => hdown.step hok (step_cases h))
    fun _ _ _ _ hok h => (step_cases h).down hok).1

/-- The peer closes when the data is out, and the connection is removed; other threads still try to
    send. -/
def sendThenClose : List Action :=
  [.connectEstablished] ++ sendCalls false ++
    [.runFunctor (.room 5), .shutdown, .handleClose, .goOn .shutdownTested, .send 0 2 false,
      .connectDestoryed, .goOn .shutdownStored, .runFunctor (.room 5), .runFunctor (.room 5),
      .handleWrite (.room 5)]

theorem disconnected_inert_sendThenClose :
    ∃ t, machine.Reaches ClosesUnused sendThenClose t ∧ .disconnected ∈ t.trace ∧
      TcpConnection.Inert t.trace := by
  obtain ⟨t, run, hdown⟩ := machine.exists_reaches_of_exec ClosesUnused start sendThenClose
    (fun t => .disconnected ∈ t.trace) init_start (by decide)
  exact ⟨t, run, hdown, disconnected_inert run⟩

/-- The peer closes between a `send` off the loop thread and its functor, which finds the socket
    full. -/
def closeThenRun : List Action :=
  [.connectEstablished] ++ sendCalls false ++ [.handleClose, .runFunctor (.error .eagain)]

/-- The functor writes, keeps the data and brings the channel back to the poller. -/
theorem disconnected_revived :
    ∃ t, machine.Reaches Machine.anyStep closeThenRun t ∧ ¬ TcpConnection.Inert t.trace := by
  obtain ⟨t, run, htrace⟩ := machine.exists_reaches_of_exec Machine.anyStep start closeThenRun
    (fun t => t.trace =
      [.poller (.setChannel 7), .poller (.epollCtl .add 7 ⟨true, true, false⟩),
        .connectionCallback, .poller (.epollCtl .del 7 .none)] ++
        .disconnected :: [.connectionCallback, .closeCallback, .writeError .eagain,
          .append [104, 105], .poller (.epollCtl .add 7 ⟨false, false, true⟩)])
    init_start (by decide)
  refine ⟨t, run, ?_⟩
  intro hinert
  rw [htrace] at hinert
  exact absurd rfl (hinert.not_of_split rfl (.append [104, 105]) (by simp))

end ConnectionThreads
