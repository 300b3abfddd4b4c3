import Muduo.Net.ConnectionThreads
import Muduo.Net.Proofs.TcpConnection

set_option autoImplicit false

/-! # What a step across threads does

The steps of a connection that several threads use, and what becomes of its `send`s: each is
pending until its functor has run, and it runs once. -/

namespace Memory

/-- Only the loaded bytes matter. -/
theorem load_congr {memory memory' : Memory} {data len : Nat}
    (h : ∀ a : Nat, data ≤ a → a < data + len → memory' a = memory a) :
    memory'.load data len = memory.load data len := by
  induction len generalizing data with
  | zero => rfl
  | succ len ih =>
      have hfirst : memory' data = memory data := h data (Nat.le_refl _) (by omega)
      have hrest : memory'.load (data + 1) len = memory.load (data + 1) len :=
        ih fun a hle hlt => h a (by omega) (by omega)
      simp only [load, hfirst, hrest]

end Memory

namespace ConnectionThreads

open TcpConnection (Effect written handled)

variable {s t : ConnectionThreads} {a : Action}

/-! ## Sends that have not run -/

/-- The `send` whose `SendInLoop` this functor is. -/
def Functor.send? : Functor → Option Send
  | .sendInLoop send => some send
  | _ => none

def Caller.send? : Caller → Option Send
  | .sendTested send => some send
  | _ => none

/-- The `send`s that have found `kConnected` and whose `SendInLoop` has not run. -/
def pending (s : ConnectionThreads) : List Send :=
  s.functors.filterMap Functor.send? ++ s.callers.filterMap Caller.send?

/-- What the connection queues is no `SendInLoop`. -/
theorem send?_queuedBy (es : List Effect) :
    (es.filterMap queuedBy).filterMap Functor.send? = [] := by
  rw [List.filterMap_filterMap, List.filterMap_eq_nil_iff]
  intro e _
  cases e <;> rfl

theorem pending_of_queued {es : List Effect}
    (hfunctors : t.functors = s.functors ++ es.filterMap queuedBy)
    (hcallers : t.callers = s.callers) : t.pending = s.pending := by
  simp [pending, hfunctors, hcallers, send?_queuedBy]

@[simp] theorem pending_perform (s : ConnectionThreads) (r : TcpConnection × List Effect) :
    (s.perform r).pending = s.pending := pending_of_queued rfl rfl

@[simp] theorem pending_deliver (s : ConnectionThreads) (payload data : Bytes) (w : WriteResult) :
    (s.deliver payload data w).pending = s.pending := pending_of_queued rfl rfl

theorem pending_erase {caller : Caller} (hmem : caller ∈ s.callers) :
    (s.callers.filterMap Caller.send?).Perm
      (caller.send?.toList ++ (s.callers.erase caller).filterMap Caller.send?) := by
  refine ((List.perm_cons_erase hmem).filterMap _).trans (List.Perm.of_eq ?_)
  cases caller <;> rfl

theorem pending_of_queue {f : Functor} {functors : List Functor}
    (hqueue : s.functors = f :: functors) :
    s.pending = f.send?.toList ++ { s with functors }.pending := by
  simp only [pending, hqueue]
  cases f <;> rfl

/-- A call that goes on stays pending until the loop runs its functor. -/
theorem pending_callerStep {caller : Caller} (hmem : caller ∈ s.callers) :
    (s.callerStep caller).pending.Perm s.pending := by
  have herase := pending_erase hmem
  cases caller with
  | sendTested send =>
      simp only [pending, callerStep, List.filterMap_append, List.append_assoc]
      exact (herase.append_left _).symm
  | shutdownTested => exact (herase.append_left _).symm
  | shutdownStored =>
      simp only [pending, callerStep, List.filterMap_append, List.append_assoc]
      exact (herase.append_left _).symm

/-! ## What a step does -/

/-- The steps, one constructor for each point of the code. -/
inductive Step (s : ConnectionThreads) : Action → ConnectionThreads → Prop
  | ignored {a : Action} (hstate : s.conn.state ≠ .connected) : Step s a s
  | send {data : Addr} {len : Nat} {buffer : Bool} {payload : Bytes}
      (hstate : s.conn.state = .connected) (hload : s.memory.load data len = some payload) :
      Step s (.send data len buffer)
        { s with
          callers := .sendTested ⟨data, len, buffer, payload⟩ :: s.callers
          accepted := s.accepted ++ [payload] }
  | shutdown (hstate : s.conn.state = .connected) :
      Step s .shutdown { s with callers := .shutdownTested :: s.callers }
  | goOn {caller : Caller} (hmem : caller ∈ s.callers) : Step s (.goOn caller) (s.callerStep caller)
  | loopSend {data : Addr} {len : Nat} {buffer : Bool} {w : WriteResult} {payload : Bytes}
      (hstate : s.conn.state = .connected) (hload : s.memory.load data len = some payload) :
      Step s (.loopSend data len buffer w)
        { s.deliver payload payload w with
          accepted := s.accepted ++ [payload]
          left := s.left ++ if buffer then [0] else [] }
  | loopShutdown (hstate : s.conn.state = .connected) :
      Step s .loopShutdown { s with loopCall := .shutdownTested }
  | loopStoreShutdown (hcall : s.loopCall = .shutdownTested) :
      Step s .loopStoreShutdown
        { s.perform ({ s.conn with state := .disconnecting },
            ({ s.conn with state := .disconnecting } : TcpConnection).shutdownInLoop) with
          loopCall := .none }
  | runSend {w : WriteResult} {send : Send} {functors : List Functor} {data : Bytes}
      (hqueue : s.functors = .sendInLoop send :: functors)
      (hload : s.memory.load send.data send.len = some data) :
      Step s (.runFunctor w) ({ s with functors }.deliver send.payload data w)
  | runReleased {w : WriteResult} {send : Send} {functors : List Functor}
      (hqueue : s.functors = .sendInLoop send :: functors)
      (hload : s.memory.load send.data send.len = none) :
      Step s (.runFunctor w)
        { s with functors, deliveries := s.deliveries ++ [⟨send.payload, none⟩] }
  | runShutdown {w : WriteResult} {functors : List Functor}
      (hqueue : s.functors = .shutdownInLoop :: functors) :
      Step s (.runFunctor w) ({ s with functors }.perform (s.conn, s.conn.shutdownInLoop))
  | runCallback {w : WriteResult} {f : Functor} {functors : List Functor}
      (hqueue : s.functors = f :: functors) (hf : f.send? = none) :
      Step s (.runFunctor w) { s with functors }
  | handleWrite {w : WriteResult} : Step s (.handleWrite w) (s.perform (s.conn.handleWrite w))
  | handleClose (hcall : s.loopCall = .none) (hstate : s.conn.state ≠ .connecting) :
      Step s .handleClose (s.perform s.conn.handleClose)
  | connectEstablished (hstate : s.conn.state = .connecting) :
      Step s .connectEstablished (s.perform s.conn.connectEstablished)
  | connectDestoryed (hstate : s.conn.state = .connected) :
      Step s .connectDestoryed { s with loopCall := .destroyTested }
  | remove : Step s .connectDestoryed (s.perform (s.conn.onChannel Channel.remove))
  | storeDisconnected (hcall : s.loopCall = .destroyTested) :
      Step s .storeDisconnected
        { (s.perform s.conn.disconnect).perform
            ((s.perform s.conn.disconnect).conn.onChannel Channel.remove) with loopCall := .none }
  | store {a : Addr} {b : Option Byte} : Step s (.store a b) { s with memory := s.memory.store a b }

theorem runFunctor_cases {w : WriteResult} (h : s.loopStep (.runFunctor w) = some t) :
    Step s (.runFunctor w) t := by
  simp only [loopStep] at h
  split at h
  · rename_i f functors hqueue
    obtain rfl := Option.some.inj h
    cases f with
    | sendInLoop send =>
        simp only [runFunctor]
        split
        · rename_i data hload
          exact .runSend hqueue hload
        · rename_i hload
          exact .runReleased hqueue hload
    | shutdownInLoop => exact .runShutdown hqueue
    | writeComplete => exact .runCallback hqueue rfl
    | highWaterMark size => exact .runCallback hqueue rfl
  · exact absurd h (by simp)

theorem loopStep_cases (hcall : s.loopCall = .none) (h : s.loopStep a = some t) : Step s a t := by
  cases a with
  | loopSend data len buffer w =>
      simp only [loopStep] at h
      split at h
      · rename_i hstate
        obtain ⟨payload, hload, rfl⟩ := Option.map_eq_some_iff.1 h
        exact .loopSend hstate hload
      · rename_i hstate
        obtain rfl := Option.some.inj h
        exact .ignored hstate
  | loopShutdown =>
      simp only [loopStep] at h
      split at h
      · rename_i hstate
        obtain rfl := Option.some.inj h
        exact .loopShutdown hstate
      · rename_i hstate
        obtain rfl := Option.some.inj h
        exact .ignored hstate
  | runFunctor w => exact runFunctor_cases h
  | handleWrite w =>
      obtain rfl := Option.some.inj h
      exact .handleWrite
  | handleClose =>
      simp only [loopStep, Option.ite_none_left_eq_some, Option.some.injEq] at h
      obtain ⟨hstate, rfl⟩ := h
      exact .handleClose hcall hstate
  | connectEstablished =>
      simp only [loopStep, Option.ite_none_right_eq_some, Option.some.injEq] at h
      obtain ⟨hstate, rfl⟩ := h
      exact .connectEstablished hstate
  | connectDestoryed =>
      simp only [loopStep] at h
      split at h
      · rename_i hstate
        obtain rfl := Option.some.inj h
        exact .connectDestoryed hstate
      · obtain rfl := Option.some.inj h
        exact .remove
  | _ => exact absurd h (by simp [loopStep])

theorem step_cases (h : s.step a = some t) : Step s a t := by
  cases a with
  | send data len buffer =>
      simp only [step] at h
      split at h
      · rename_i hstate
        obtain ⟨payload, hload, rfl⟩ := Option.map_eq_some_iff.1 h
        exact .send hstate hload
      · rename_i hstate
        obtain rfl := Option.some.inj h
        exact .ignored hstate
  | shutdown =>
      simp only [step] at h
      split at h
      · rename_i hstate
        obtain rfl := Option.some.inj h
        exact .shutdown hstate
      · rename_i hstate
        obtain rfl := Option.some.inj h
        exact .ignored hstate
  | goOn caller =>
      simp only [step, Option.ite_none_right_eq_some, Option.some.injEq] at h
      obtain ⟨hmem, rfl⟩ := h
      exact .goOn hmem
  | loopStoreShutdown =>
      simp only [step, Option.ite_none_right_eq_some, Option.some.injEq] at h
      obtain ⟨hcall, rfl⟩ := h
      exact .loopStoreShutdown hcall
  | storeDisconnected =>
      simp only [step, Option.ite_none_right_eq_some, Option.some.injEq] at h
      obtain ⟨hcall, rfl⟩ := h
      exact .storeDisconnected hcall
  | store a b =>
      obtain rfl := Option.some.inj h
      exact .store
  | _ =>
      simp only [step, Option.ite_none_right_eq_some] at h
      exact loopStep_cases h.1 h.2

/-! ## Calls that nobody interrupts

The calls of the loop thread are the functions of `TcpConnection` when no other thread comes between
their test of `state_` and their store. -/

section

variable (hcall : s.loopCall = .none)

include hcall

theorem loopSend_uninterrupted {data : Addr} {len : Nat} {payload : Bytes} (buffer : Bool)
    (w : WriteResult) (hload : s.memory.load data len = some payload) :
    ∃ t, s.step (.loopSend data len buffer w) = some t ∧ t.conn = (s.conn.send payload w).1 ∧
      t.trace = s.trace ++ (s.conn.send payload w).2 := by
  by_cases hstate : s.conn.state = .connected
  · simp [step, loopStep, hcall, hstate, hload, TcpConnection.send, deliver, perform]
  · simp [step, loopStep, hcall, hstate, TcpConnection.send]

theorem loopShutdown_uninterrupted (hstate : s.conn.state = .connected) :
    ∃ t, (s.step .loopShutdown).bind (step · .loopStoreShutdown) = some t ∧
      t.conn = s.conn.shutdown.1 ∧ t.trace = s.trace ++ s.conn.shutdown.2 := by
  simp [step, loopStep, hcall, hstate, TcpConnection.shutdown, perform]

theorem connectDestoryed_uninterrupted (hstate : s.conn.state = .connected) :
    ∃ t, (s.step .connectDestoryed).bind (step · .storeDisconnected) = some t ∧
      t.conn = s.conn.connectDestoryed.1 ∧ t.trace = s.trace ++ s.conn.connectDestoryed.2 := by
  simp [step, loopStep, hcall, hstate, TcpConnection.connectDestoryed, perform]

end

/-- Only a `send` off the loop thread makes anything pending. -/
theorem Step.pending_subset (h : Step s a t) {send : Send} (hmem : send ∈ t.pending) :
    send ∈ s.pending ∨ (a = .send send.data send.len send.buffer ∧ s.conn.state = .connected ∧
      s.memory.load send.data send.len = some send.payload) := by
  cases h with
  | send hstate hload =>
      simp only [pending, List.filterMap_cons, Caller.send?, List.mem_append, List.mem_cons] at hmem
      rcases hmem with hmem | rfl | hmem
      · exact Or.inl (List.mem_append_left _ hmem)
      · exact Or.inr ⟨rfl, hstate, hload⟩
      · exact Or.inl (List.mem_append_right _ hmem)
  | goOn hcaller => exact Or.inl ((pending_callerStep hcaller).subset hmem)
  | runSend hqueue hload =>
      left
      rw [pending_deliver] at hmem
      exact pending_of_queue hqueue ▸ List.mem_cons_of_mem _ hmem
  | runReleased hqueue hload =>
      left
      exact pending_of_queue hqueue ▸ List.mem_cons_of_mem _ hmem
  | runShutdown hqueue =>
      left
      rw [pending_perform] at hmem
      exact pending_of_queue hqueue ▸ hmem
  | runCallback hqueue hf =>
      left
      rw [pending_of_queue hqueue, hf]
      exact hmem
  | storeDisconnected hcall =>
      have hremoved := pending_perform (s.perform s.conn.disconnect)
        ((s.perform s.conn.disconnect).conn.onChannel Channel.remove)
      exact Or.inl ((hremoved.trans (pending_perform _ _)) ▸ hmem)
  | @loopSend data len buffer w payload hstate hload =>
      exact Or.inl (pending_deliver s payload payload w ▸ hmem)
  | loopStoreShutdown hcall =>
      exact Or.inl (pending_perform s ({ s.conn with state := .disconnecting }, _) ▸ hmem)
  | handleWrite => exact Or.inl (pending_perform s _ ▸ hmem)
  | handleClose hcall hstate => exact Or.inl (pending_perform s _ ▸ hmem)
  | connectEstablished hstate => exact Or.inl (pending_perform s _ ▸ hmem)
  | remove => exact Or.inl (pending_perform s _ ▸ hmem)
  | _ => exact Or.inl hmem

theorem Step.pending_eq_nil (h : Step s a t) (hstate : s.conn.state ≠ .connected)
    (hnone : s.pending = []) : t.pending = [] := by
  rw [List.eq_nil_iff_forall_not_mem]
  intro send hmem
  rcases h.pending_subset hmem with hmem | ⟨-, hconnected, -⟩
  · exact absurd hmem (by simp [hnone])
  · exact hstate hconnected

theorem mem_pending_of_tested {send : Send} (hmem : .sendTested send ∈ s.callers) :
    send ∈ s.pending :=
  List.mem_append_right _ (List.mem_filterMap.2 ⟨_, hmem, rfl⟩)

theorem mem_pending_of_queued {send : Send} {functors : List Functor}
    (hqueue : s.functors = .sendInLoop send :: functors) : send ∈ s.pending := by
  rw [pending_of_queue hqueue]
  exact List.mem_cons_self

theorem not_queued_of_quiet {send : Send} {functors : List Functor} (hquiet : s.pending = []) :
    s.functors ≠ .sendInLoop send :: functors := by
  intro hqueue
  have hmem := mem_pending_of_queued hqueue
  exact absurd hmem (by simp [hquiet])

theorem pending_of_init (h : machine.init s) : s.pending = [] := by
  obtain ⟨-, -, hfunctors, hcallers, -⟩ := h
  simp [pending, hfunctors, hcallers]

/-! ## What becomes of the sends -/

/-- Every accepted `send` is pending or has run, once. -/
def Accounted (s : ConnectionThreads) : Prop :=
  s.accepted.Perm (s.deliveries.map (·.payload) ++ s.pending.map (·.payload))

theorem Accounted.congr (h : s.Accounted) (haccepted : t.accepted = s.accepted)
    (hdeliveries : t.deliveries = s.deliveries) (hpending : t.pending.Perm s.pending) :
    t.Accounted := by
  unfold Accounted
  rw [haccepted, hdeliveries]
  exact h.trans ((hpending.map _).symm.append_left _)

/-- The functor of a pending `send` has run. -/
theorem Accounted.run {send : Send} {d : Delivery} (h : s.Accounted)
    (haccepted : t.accepted = s.accepted) (hd : d.payload = send.payload)
    (hdeliveries : t.deliveries = s.deliveries ++ [d])
    (hpending : s.pending = send :: t.pending) : t.Accounted := by
  unfold Accounted at h ⊢
  rw [hpending, List.map_cons, List.append_cons] at h
  rw [haccepted, hdeliveries, List.map_append, List.map_singleton, hd]
  exact h

theorem Accounted.step (h : s.Accounted) (hstep : Step s a t) : t.Accounted := by
  cases hstep with
  | @send data len buffer payload hstate hload =>
      -- the new caller stands behind the queued functors
      refine (h.append_right [payload]).trans ?_
      rw [List.append_assoc]
      refine List.Perm.append_left _ ((List.perm_append_singleton _ _).trans ?_)
      have hmiddle : (⟨data, len, buffer, payload⟩ :: s.pending).Perm
          (s.functors.filterMap Functor.send? ++
            ⟨data, len, buffer, payload⟩ :: s.callers.filterMap Caller.send?) :=
        List.perm_middle.symm
      exact hmiddle.map (·.payload)
  | @loopSend data len buffer w payload hstate hload =>
      refine (h.append_right [payload]).trans ?_
      simp only [deliver, List.map_append, List.append_assoc]
      refine List.Perm.append_left _ (List.perm_append_comm.trans (List.Perm.append_left _ ?_))
      exact ((List.Perm.of_eq (pending_perform s (s.conn.sendInLoop payload w))).map _).symm
  | goOn hmem =>
      refine h.congr ?_ ?_ (pending_callerStep hmem) <;> rename_i caller <;> cases caller <;> rfl
  | runSend hqueue hload =>
      exact h.run rfl rfl rfl (by rw [pending_of_queue hqueue, pending_deliver]; rfl)
  | runReleased hqueue hload => exact h.run rfl rfl rfl (pending_of_queue hqueue)
  | runShutdown hqueue =>
      refine h.congr rfl rfl (.of_eq ?_)
      rw [pending_of_queue hqueue, pending_perform]
      rfl
  | runCallback hqueue hf =>
      refine h.congr rfl rfl (.of_eq ?_)
      rw [pending_of_queue hqueue, hf]
      rfl
  | loopStoreShutdown hcall =>
      exact h.congr rfl rfl
        (.of_eq (pending_perform s ({ s.conn with state := .disconnecting }, _)))
  | storeDisconnected hcall =>
      have hremoved := pending_perform (s.perform s.conn.disconnect)
        ((s.perform s.conn.disconnect).conn.onChannel Channel.remove)
      exact h.congr rfl rfl (.of_eq (hremoved.trans (pending_perform _ _)))
  | handleWrite => exact h.congr rfl rfl (.of_eq (pending_perform s _))
  | handleClose hcall hstate => exact h.congr rfl rfl (.of_eq (pending_perform s _))
  | connectEstablished hstate => exact h.congr rfl rfl (.of_eq (pending_perform s _))
  | remove => exact h.congr rfl rfl (.of_eq (pending_perform s _))
  | _ => exact h

/-- No byte that a pending `send` will read is changed. -/
def Untouched (s : ConnectionThreads) (a : Nat) (b : Option Byte) : Prop :=
  ∀ send ∈ s.pending, send.data ≤ a → a < send.data + send.len → b = s.memory a

instance (s : ConnectionThreads) (a : Nat) (b : Option Byte) : Decidable (s.Untouched a b) :=
  inferInstanceAs (Decidable (∀ send ∈ s.pending, _))

/-- Every pending `send` will read the bytes that it was called with. -/
def Readable (s : ConnectionThreads) : Prop :=
  ∀ send ∈ s.pending, s.memory.load send.data send.len = some send.payload

theorem Step.memory_eq (h : Step s a t) (hstore : ∀ x b, a ≠ .store x b) :
    t.memory = s.memory := by
  cases h with
  | goOn hmem => rename_i caller; cases caller <;> rfl
  | store => exact absurd rfl (hstore _ _)
  | _ => rfl

theorem Readable.step (h : s.Readable) (hstep : Step s a t)
    (hkeep : ∀ x b, a = .store x b → s.Untouched x b) : t.Readable := by
  intro send hmem
  by_cases hstore : ∃ x b, a = .store x b
  · obtain ⟨x, b, rfl⟩ := hstore
    rcases hstep.pending_subset hmem with hmem | ⟨heq, -⟩
    · cases hstep with
      | ignored hstate => exact h send hmem
      | store =>
          rw [← h send hmem]
          refine Memory.load_congr ?_
          intro y hle hlt
          simp only [Memory.store]
          split
          · rename_i heq
            subst heq
            exact hkeep _ _ rfl send hmem hle hlt
          · rfl
    · exact absurd heq (by simp)
  · rw [hstep.memory_eq fun x b heq => hstore ⟨x, b, heq⟩]
    rcases hstep.pending_subset hmem with hmem | ⟨-, -, hload⟩
    · exact h send hmem
    · exact hload

theorem Accounted.of_init (h : machine.init s) : s.Accounted := by
  have hpending := pending_of_init h
  obtain ⟨-, -, -, -, -, haccepted, hdeliveries, -⟩ := h
  simp [Accounted, hpending, haccepted, hdeliveries]

theorem Readable.of_init (h : machine.init s) : s.Readable := by
  simp [Readable, pending_of_init h]

/-! ## A start for runs -/

/-- A connection on descriptor 7, and a caller that owns two bytes. -/
def start : ConnectionThreads where
  conn := .new 7 true true true true
  loopCall := .none
  functors := []
  callers := []
  memory a := if a = 0 then some 104 else if a = 1 then some 105 else none
  trace := []
  accepted := []
  deliveries := []
  left := []

theorem init_start : machine.init start :=
  ⟨⟨7, true, true, true, true, rfl⟩, rfl, rfl, rfl, rfl, rfl, rfl, rfl⟩

/-- What a thread does to send the two bytes. -/
def sendCalls (buffer : Bool) : List Action :=
  [.send 0 2 buffer, .goOn (.sendTested ⟨0, 2, buffer, [104, 105]⟩)]

end ConnectionThreads
