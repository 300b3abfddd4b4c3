import Muduo.Net.Proofs.ConnectionThreads

set_option autoImplicit false

/-! # The same send from every thread

A `send` off the loop thread queues a pointer to the bytes. As long as the callers leave the bytes
of a pending `send` alone, `SendInLoop` takes charge of what `send` was called with. Where they do
not, or where a buffer is sent, it does not. -/

namespace ConnectionThreads

open TcpConnection (handled)

variable {s t : ConnectionThreads} {a : Action}

/-- The bytes that each `SendInLoop` took charge of are those that `send` was called with, and no
    `send(Buffer *)` left bytes in its buffer. -/
def SendsExactly (s : ConnectionThreads) : Prop :=
  (∀ d ∈ s.deliveries, d.effects.map handled = some d.payload) ∧ ∀ n ∈ s.left, n = 0

instance (s : ConnectionThreads) : Decidable s.SendsExactly :=
  inferInstanceAs (Decidable ((∀ d ∈ s.deliveries, _) ∧ _))

/-- The bytes behind a pending `send` are left alone, a buffer that is sent off the loop thread is
    empty, and no error makes `SendInLoop` drop its data. -/
def KeepsArguments (s : ConnectionThreads) : Action → Prop
  | .send _ len buffer => s.conn.state = .connected → buffer = true → len = 0
  | .loopSend _ _ _ w => w.Benign
  | .runFunctor w => w.Benign
  | .store a b => s.Untouched a b
  | _ => True

instance (s : ConnectionThreads) : (a : Action) → Decidable (KeepsArguments s a)
  | .send _ len buffer =>
      inferInstanceAs (Decidable (s.conn.state = .connected → buffer = true → len = 0))
  | .loopSend _ _ _ w => inferInstanceAs (Decidable w.Benign)
  | .runFunctor w => inferInstanceAs (Decidable w.Benign)
  | .store a b => inferInstanceAs (Decidable (s.Untouched a b))
  | .shutdown | .goOn _ | .loopShutdown | .loopStoreShutdown | .handleWrite _ | .handleClose
  | .connectEstablished | .connectDestoryed | .storeDisconnected => isTrue trivial

/-- What the runs keep. -/
structure Exact (s : ConnectionThreads) : Prop where
  readable : s.Readable
  accounted : s.Accounted
  emptied : ∀ send ∈ s.pending, send.buffer = true → send.len = 0
  exactly : s.SendsExactly

theorem SendsExactly.deliver {payload : Bytes} {w : WriteResult} (h : s.SendsExactly)
    (hw : w.Benign) : (s.deliver payload payload w).SendsExactly := by
  refine ⟨fun d hd => ?_, h.2⟩
  rcases List.mem_append.1 hd with hd | hd
  · exact h.1 d hd
  · obtain rfl := List.mem_singleton.1 hd
    exact congrArg some (TcpConnection.handled_sendInLoop hw)

theorem Exact.sendsExactly_step (h : s.Exact) (hok : KeepsArguments s a) (hstep : Step s a t) :
    t.SendsExactly := by
  cases hstep with
  | goOn hmem =>
      rename_i caller
      cases caller with
      | sendTested send =>
          refine ⟨h.exactly.1, ?_⟩
          intro n hn
          rcases List.mem_append.1 hn with hn | hn
          · exact h.exactly.2 n hn
          · split at hn
            · rename_i hbuffer
              rw [List.mem_singleton.1 hn]
              exact h.emptied send (mem_pending_of_tested hmem) hbuffer
            · exact absurd hn (by simp)
      | shutdownTested => exact h.exactly
      | shutdownStored => exact h.exactly
  | loopSend hstate hload =>
      refine ⟨(h.exactly.deliver hok).1, ?_⟩
      intro n hn
      rcases List.mem_append.1 hn with hn | hn
      · exact h.exactly.2 n hn
      · split at hn
        · exact List.mem_singleton.1 hn
        · exact absurd hn (by simp)
  | runSend hqueue hload =>
      -- the functor reads what `send` was called with
      have hpayload := (h.readable _ (mem_pending_of_queued hqueue)).symm.trans hload
      rw [← Option.some.inj hpayload]
      exact SendsExactly.deliver (s := { s with functors := _ }) h.exactly hok
  | runReleased hqueue hload =>
      exact absurd ((h.readable _ (mem_pending_of_queued hqueue)).symm.trans hload) (by simp)
  | _ => exact h.exactly

theorem Exact.step (h : s.Exact) (hok : KeepsArguments s a) (hstep : Step s a t) : t.Exact where
  readable := h.readable.step hstep fun x b heq => by
    subst heq
    exact hok
  accounted := h.accounted.step hstep
  emptied send hmem := by
    rcases hstep.pending_subset hmem with hmem | ⟨rfl, hstate, -⟩
    · exact h.emptied send hmem
    · exact hok hstate
  exactly := h.sendsExactly_step hok hstep

theorem Exact.of_init (h : machine.init s) : s.Exact := by
  have hpending := pending_of_init h
  refine ⟨.of_init h, .of_init h, by simp [hpending], ?_⟩
  obtain ⟨-, -, -, -, -, -, hdeliveries, hleft⟩ := h
  simp [SendsExactly, hdeliveries, hleft]

/-- As long as the callers leave the bytes of their `send`s alone, a `send` means the same from
    every thread. -/
theorem send_exact {as : List Action} (run : machine.Reaches KeepsArguments as s) :
    s.Accounted ∧ s.SendsExactly := by
  have hexact : s.Exact := run.invariant (fun _ => Exact.of_init)
    fun s a t h hok hstep => h.step hok (step_cases hstep)
  exact ⟨hexact.accounted, hexact.exactly⟩

/-- A string is sent from two threads, and changed after the functor has run. -/
def sendThenChange : List Action :=
  [.connectEstablished, .loopSend 0 2 true (.room 1)] ++ sendCalls false ++
    [.store 9 (some 0), .handleWrite (.room 5), .runFunctor (.room 5), .runFunctor (.room 1),
      .store 0 none]

theorem send_exact_thenChange :
    ∃ t, machine.Reaches KeepsArguments sendThenChange t ∧ t.deliveries.length = 2 ∧
      t.Accounted ∧ t.SendsExactly := by
  obtain ⟨t, run, hdone⟩ := machine.exists_reaches_of_exec KeepsArguments start sendThenChange
    (fun t => t.deliveries.length = 2) init_start (by decide)
  exact ⟨t, run, hdone, send_exact run⟩

/-- A string that is changed, a string that is destroyed, and a buffer, each sent off the loop
    thread. -/
theorem send_off_loop_inexact :
    (∃ t, machine.Reaches Machine.anyStep
        (.connectEstablished :: sendCalls false ++ [.store 1 (some 33), .runFunctor (.room 5)]) t ∧
      ¬ t.SendsExactly) ∧
    (∃ t, machine.Reaches Machine.anyStep
        (.connectEstablished :: sendCalls false ++ [.store 0 none, .runFunctor (.room 5)]) t ∧
      ¬ t.SendsExactly) ∧
    (∃ t, machine.Reaches Machine.anyStep
        (.connectEstablished :: sendCalls true ++ [.runFunctor (.room 5)]) t ∧
      ¬ t.SendsExactly) :=
  ⟨machine.exists_reaches_of_exec _ start _ _ init_start (by decide),
    machine.exists_reaches_of_exec _ start _ _ init_start (by decide),
    machine.exists_reaches_of_exec _ start _ _ init_start (by decide)⟩

end ConnectionThreads
