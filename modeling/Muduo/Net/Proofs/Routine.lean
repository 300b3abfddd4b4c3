import Muduo.Net.Proofs.Handshake

set_option autoImplicit false

/-! # What a routine step of a handshake keeps

The life of a connection is in its loop as the functors and the frames that bring it further
(`Loop.duties`, `Loop.ongoing`) and as the calls of `HeadleRead` that are still to come
(`Loop.readable`). A routine step moves these along and makes none (`Routine.calm`). -/

namespace TcpServer

/-- `ConnectEstablished` and `ConnectDestoryed`. -/
def Functor.ofLife : Functor → Bool
  | .connectEstablished _ => true
  | .connectDestoryed _ => true
  | _ => false

/-- The functions that establish, close or destroy. -/
def Frame.ofLife : Frame → Bool
  | .announce _ => true
  | .closeCallback _ => true
  | .connectDestoryed _ => true
  | .disconnect _ => true
  | .remove _ => true
  | _ => false

def Active.readable : Active → Bool
  | .connection _ readable _ => readable
  | _ => false

def Frame.readable : Frame → Bool
  | .handleEvent _ readable _ => readable
  | _ => false

def Frame.sends : Frame → Bool
  | .sendInLoop _ _ => true
  | _ => false

namespace Loop

/-- The functors that have still to run, in order. -/
def pending (loop : Loop) : List Functor := loop.phase.todo ++ loop.functors

def duties (loop : Loop) : List Functor := loop.pending.filter Functor.ofLife

def ongoing (loop : Loop) : List Frame := loop.stack.filter Frame.ofLife

/-- The calls of `HeadleRead` to come. -/
def readable (loop : Loop) : Nat :=
  loop.phase.active.countP Active.readable + loop.stack.countP Frame.readable

/-- `SendInLoop` is queued or in progress. -/
def Sends (c : ConnId) (loop : Loop) : Prop :=
  .sendInLoop c ∈ loop.pending ∨ loop.stack.any Frame.sends = true

variable {loop : Loop} {fs : List Functor} {frames : List Frame} {c : ConnId}

@[simp] theorem pending_queue : (loop.queue fs).pending = loop.pending ++ fs := by
  simp [pending, queue]

@[simp] theorem pending_push : (loop.push frames).pending = loop.pending := rfl

@[simp] theorem pending_setStack : (loop.setStack frames).pending = loop.pending := rfl

@[simp] theorem duties_queue :
    (loop.queue fs).duties = loop.duties ++ fs.filter Functor.ofLife := by
  simp [duties]

@[simp] theorem duties_push : (loop.push frames).duties = loop.duties := rfl

@[simp] theorem duties_setStack : (loop.setStack frames).duties = loop.duties := rfl

@[simp] theorem ongoing_queue : (loop.queue fs).ongoing = loop.ongoing := rfl

@[simp] theorem ongoing_push :
    (loop.push frames).ongoing = frames.filter Frame.ofLife ++ loop.ongoing := by
  simp [ongoing, push]

@[simp] theorem ongoing_setStack :
    (loop.setStack frames).ongoing = frames.filter Frame.ofLife := rfl

@[simp] theorem readable_queue : (loop.queue fs).readable = loop.readable := rfl

@[simp] theorem readable_push :
    (loop.push frames).readable = loop.readable + frames.countP Frame.readable := by
  simp only [readable, push, List.countP_append]
  omega

@[simp] theorem sends_queue :
    (loop.queue fs).Sends c ↔ loop.Sends c ∨ .sendInLoop c ∈ fs := by
  simp only [Sends, pending_queue, List.mem_append]
  exact or_right_comm

@[simp] theorem sends_push :
    (loop.push frames).Sends c ↔ loop.Sends c ∨ frames.any Frame.sends = true := by
  have hstack : (loop.push frames).stack.any Frame.sends = true ↔
      loop.stack.any Frame.sends = true ∨ frames.any Frame.sends = true := by
    rw [push, List.any_append, Bool.or_comm, Bool.or_eq_true]
  rw [Sends, Sends, pending_push, hstack, or_assoc]

end Loop

variable {c : ConnId}

/-! ## What the functions of a connection queue -/

theorem ofLife_queuedBy {e : TcpConnection.Effect} {f : Functor} (h : queuedBy c e = some f) :
    f.ofLife = false ∧ f.bindsThis = none := by
  cases e with
  | queueWriteComplete | queueHighWaterMark =>
      obtain rfl := Option.some.inj h
      exact ⟨rfl, rfl⟩
  | _ => cases h

theorem filter_ofLife_queuedBy (es : List TcpConnection.Effect) :
    (es.filterMap (queuedBy c)).filter Functor.ofLife = [] := by
  rw [List.filter_eq_nil_iff]
  intro f hf
  obtain ⟨e, -, he⟩ := List.mem_filterMap.1 hf
  simp [(ofLife_queuedBy he).1]

theorem announces_cases (c : ConnId) (conn : TcpConnection) :
    announces c conn = [] ∨ announces c conn = [.announce c] := by
  unfold announces
  split
  · exact Or.inr rfl
  · exact Or.inl rfl

@[simp] theorem readable_announces {conn : TcpConnection} :
    (announces c conn).countP Frame.readable = 0 := by
  obtain h | h := announces_cases c conn <;> simp [h, Frame.readable]

@[simp] theorem sends_announces {conn : TcpConnection} :
    (announces c conn).any Frame.sends = false := by
  obtain h | h := announces_cases c conn <;> simp [h, Frame.sends]

namespace Handshake

open TcpConnection (Plain)

variable {v v' u : Handshake} {a : Label} {f : Functor} {loop : Loop}
variable {r : TcpConnection × List TcpConnection.Effect}

theorem perform_loop {r : TcpConnection × List TcpConnection.Effect} :
    (v.perform c r).loop
      = (v.loop.queue (r.2.filterMap (queuedBy c))).push (r.2.filterMap (calledBy c)) := rfl

theorem newborn_pending {onBase : Bool} {phase : Phase} {conn : TcpConnection}
    (h : phase.functors = []) : (newborn onBase phase conn).loop.pending = [] := by
  cases phase with
  | callbacks done todo =>
      simpa [newborn, Loop.pending, Phase.todo] using (List.append_eq_nil_iff.1 h).2
  | poll | channels => rfl

theorem newborn_readable {onBase : Bool} {phase : Phase} {conn : TcpConnection}
    (h : phase.active = []) : (newborn onBase phase conn).loop.readable = 0 := by
  simp [newborn, Loop.readable, h]

theorem newborn_sends {onBase : Bool} {phase : Phase} {conn : TcpConnection}
    (h : phase.functors = []) : ¬ (newborn onBase phase conn).loop.Sends c := by
  rw [Loop.Sends, newborn_pending h]
  simp [newborn]

theorem connectEstablished_loop :
    (v.perform c v.conn.connectEstablished).loop = v.loop.push (announces c v.conn) := by
  rw [perform_loop, queued_connectEstablished, called_connectEstablished, Loop.queue_nil]

theorem disconnect_loop :
    (v.perform c v.conn.disconnect).loop = v.loop.push (announces c v.conn) := by
  rw [perform_loop, queued_disconnect, called_disconnect, Loop.queue_nil]

theorem handleClose_loop :
    (v.perform c v.conn.handleClose).loop = v.loop.push
      (announces c v.conn ++ if v.conn.closeCallback then [.closeCallback c] else []) := by
  rw [perform_loop, queued_handleClose, called_handleClose, Loop.queue_nil]

/-- A function that neither queues nor calls. -/
theorem perform_of_silent (hqueued : r.2.filterMap (queuedBy c) = [])
    (hcalled : r.2.filterMap (calledBy c) = []) : v.perform c r = { v with conn := r.1 } := by
  simp [perform, onLoop, hqueued, hcalled]

theorem perform_shutdown :
    v.perform c v.conn.shutdown = v ∨ v.conn.state = .connected ∧
      v.perform c v.conn.shutdown = { v with conn := { v.conn with state := .disconnecting } } := by
  have hcalled := called_of_plain (c := c) (TcpConnection.plain_shutdown v.conn)
  unfold TcpConnection.shutdown at hcalled ⊢
  split at hcalled
  · next hstate =>
      rw [if_pos hstate]
      exact Or.inr ⟨hstate, perform_of_silent queued_shutdownInLoop hcalled⟩
  · next hstate =>
      rw [if_neg hstate]
      exact Or.inl (perform_of_silent rfl rfl)

theorem perform_loop_of_plain (h : Plain v.conn r) :
    (v.perform c r).loop = v.loop.queue (r.2.filterMap (queuedBy c)) := by
  simp [perform, onLoop, called_of_plain h]

theorem remove_loop : (v.perform c (v.conn.onChannel Channel.remove)).loop = v.loop := by
  rw [perform_loop_of_plain (TcpConnection.plain_remove v.conn), TcpConnection.onChannel_effects,
    queued_poller, Loop.queue_nil]

/-! ## Taking a functor -/

namespace Takes

theorem pending_eq (h : v.Takes f loop) : v.loop.pending = f :: loop.pending := by
  obtain ⟨-, done, todo, hphase, rfl⟩ := h
  simp [Loop.pending, hphase, Phase.todo, Loop.setPhase]

theorem stack_eq (h : v.Takes f loop) : loop.stack = [] := by
  obtain ⟨hstack, done, todo, -, rfl⟩ := h
  exact hstack

theorem readable_eq (h : v.Takes f loop) : loop.readable = 0 := by
  obtain ⟨hstack, done, todo, -, rfl⟩ := h
  simp [Loop.readable, Loop.setPhase, Phase.active, hstack]

theorem ongoing_eq (h : v.Takes f loop) : v.loop.ongoing = [] ∧ loop.ongoing = [] := by
  refine ⟨?_, ?_⟩
  · simp [Loop.ongoing, h.stack]
  · simp [Loop.ongoing, h.stack_eq]

theorem sends (h : v.Takes f loop) (hsends : loop.Sends c) : v.loop.Sends c := by
  rcases hsends with hmem | hany
  · exact Or.inl (h.pending_eq ▸ List.mem_cons_of_mem _ hmem)
  · rw [h.stack_eq] at hany
    exact absurd hany (by simp)

theorem inPass_eq (h : v.Takes f loop) : loop.inPass = false := by
  obtain ⟨-, done, todo, -, rfl⟩ := h
  rfl

/-- What belongs to the life of the connection is taken off `duties`. -/
theorem duties_eq (h : v.Takes f loop) (hf : f.ofLife = true) :
    v.loop.duties = f :: loop.duties := by
  simp [Loop.duties, h.pending_eq, hf]

theorem duties_eq_of_not (h : v.Takes f loop) (hf : f.ofLife = false) :
    loop.duties = v.loop.duties := by
  simp [Loop.duties, h.pending_eq, hf]

end Takes

/-! ## Calm steps -/

/-- Nothing happens to the life of the connection. -/
structure Calm (c : ConnId) (v v' : Handshake) : Prop where
  onBase : v'.onBase = v.onBase
  removals : v'.removals = v.removals
  entry : v'.entry = v.entry
  destructed : v'.destructed = v.destructed
  announced : v'.announced = v.announced
  life : v'.life = v.life
  state : v'.conn.state = v.conn.state
  connectionCallback : v'.conn.connectionCallback = v.conn.connectionCallback
  closeCallback : v'.conn.closeCallback = v.conn.closeCallback
  isReading : v'.conn.channel.isReading = v.conn.channel.isReading
  channel : v'.conn.channel = v.conn.channel ∨ v.conn.state = .connected ∨
    v.conn.channel.isWriting = true ∨ v.loop.Sends c
  callers : ∀ caller ∈ v'.callers, caller ∈ v.callers ∨ caller = .shutdownTested
  duties : v'.loop.duties = v.loop.duties
  ongoing : v'.loop.ongoing = v.loop.ongoing
  readable : v'.loop.readable ≤ v.loop.readable ∨
    v'.loop.readable ≤ 1 ∧ v.conn.channel.isReading = true
  sends : v'.loop.Sends c → v.loop.Sends c

theorem calm_of_loop (hduties : loop.duties = v.loop.duties)
    (hongoing : loop.ongoing = v.loop.ongoing)
    (hreadable : loop.readable ≤ v.loop.readable ∨
      loop.readable ≤ 1 ∧ v.conn.channel.isReading = true)
    (hsends : loop.Sends c → v.loop.Sends c) :
    Calm c v { v with loop } where
  onBase := rfl
  removals := rfl
  entry := rfl
  destructed := rfl
  announced := rfl
  life := rfl
  state := rfl
  connectionCallback := rfl
  closeCallback := rfl
  isReading := rfl
  channel := Or.inl rfl
  callers _ h := Or.inl h
  duties := hduties
  ongoing := hongoing
  readable := hreadable
  sends := hsends

/-- The functors that have still to run are the same. -/
theorem calm_of_pending (hpending : loop.pending = v.loop.pending)
    (hongoing : loop.ongoing = v.loop.ongoing)
    (hreadable : loop.readable ≤ v.loop.readable ∨
      loop.readable ≤ 1 ∧ v.conn.channel.isReading = true)
    (hsending : loop.stack.any Frame.sends = true → v.loop.stack.any Frame.sends = true) :
    Calm c v { v with loop } :=
  calm_of_loop (by simp [Loop.duties, hpending]) hongoing hreadable
    (Or.imp (by simp [hpending]) hsending)

theorem calm_refl : Calm c v v := calm_of_pending rfl rfl (Or.inl (Nat.le_refl _)) id

theorem Takes.calm (h : v.Takes f loop) (hf : f.ofLife = false) : Calm c v { v with loop } := by
  refine calm_of_loop (h.duties_eq_of_not hf) ?_ ?_ h.sends
  · rw [h.ongoing_eq.1, h.ongoing_eq.2]
  · rw [h.readable_eq]
    exact Or.inl (Nat.zero_le _)

/-- The functor that is taken calls a function which only goes on later. -/
theorem Takes.calm_push {frame : Frame} (h : v.Takes f loop) (hf : f.ofLife = false)
    (hlife : frame.ofLife = false) (hreadable : frame.readable = false)
    (hsends : frame.sends = true → v.loop.Sends c) :
    Calm c v ({ v with loop }.onLoop (·.push [frame])) := by
  have hcalm : Calm c v _ := h.calm hf
  refine { hcalm with ongoing := ?_, readable := ?_, sends := ?_ }
  · simpa [onLoop, hlife] using hcalm.ongoing
  · simpa [onLoop, hreadable] using hcalm.readable
  · simp only [onLoop, Loop.sends_push, List.any_cons, List.any_nil, Bool.or_false]
    exact Or.rec hcalm.sends hsends

/-- A function of the connection that announces nothing. -/
theorem Calm.perform (h : Calm c v u) (hr : Plain u.conn r) (hstate : r.1.state = u.conn.state)
    (hchannel : r.1.channel = v.conn.channel ∨ v.conn.state = .connected ∨
      v.conn.channel.isWriting = true ∨ v.loop.Sends c) :
    Calm c v (u.perform c r) where
  onBase := h.onBase
  removals := h.removals
  entry := h.entry
  destructed := h.destructed
  announced := h.announced
  life := h.life
  state := hstate.trans h.state
  connectionCallback := hr.connectionCallback.trans h.connectionCallback
  closeCallback := hr.closeCallback.trans h.closeCallback
  isReading := hr.isReading.trans h.isReading
  channel := hchannel
  callers := h.callers
  duties := by
    rw [perform_loop_of_plain hr, Loop.duties_queue, filter_ofLife_queuedBy, List.append_nil,
      h.duties]
  ongoing := by
    rw [perform_loop_of_plain hr, Loop.ongoing_queue, h.ongoing]
  readable := by
    rw [perform_loop_of_plain hr, Loop.readable_queue]
    exact h.readable
  sends := by
    rw [perform_loop_of_plain hr, Loop.sends_queue]
    rintro (hsends | hmem)
    · exact h.sends hsends
    · obtain ⟨e, -, he⟩ := List.mem_filterMap.1 hmem
      exact absurd (ofLife_queuedBy he).2 (by simp [Functor.bindsThis])

/-- Neither the innermost function nor the one that it goes on as is going to read. -/
theorem Inner.readable_eq {frame : Frame} {stack frames : List Frame} (h : v.Inner frame stack)
    (hframes : frames.countP Frame.readable = (frame :: stack).countP Frame.readable) :
    (v.loop.setStack frames).readable = v.loop.readable := by
  have hstack : v.loop.stack = frame :: stack := h
  simp only [Loop.readable, Loop.setStack, hstack, hframes]

/-- The call of `HeadleRead` in progress counts as one of those to come. -/
theorem Inner.readable_handleEvent {writable : Bool} {stack : List Frame}
    (h : v.Inner (.handleEvent c true writable) stack) :
    v.loop.readable
      = (v.loop.setStack (.handleEvent c false writable :: stack)).readable + 1 := by
  have hstack : v.loop.stack = .handleEvent c true writable :: stack := h
  simp [Loop.readable, Loop.setStack, hstack, List.countP_cons, Frame.readable, Nat.add_assoc]

theorem Inner.sends {frame : Frame} {stack frames : List Frame} (h : v.Inner frame stack)
    (hframes : frames.any Frame.sends = true → (frame :: stack).any Frame.sends = true)
    (hsends : (v.loop.setStack frames).Sends c) : v.loop.Sends c := by
  have hstack : v.loop.stack = frame :: stack := h
  rcases hsends with hmem | hany
  · exact Or.inl hmem
  · exact Or.inr (hstack ▸ hframes hany)

/-- The innermost function goes on. -/
theorem Inner.calm {frame : Frame} {stack frames : List Frame} (h : v.Inner frame stack)
    (hongoing : frames.filter Frame.ofLife = (frame :: stack).filter Frame.ofLife)
    (hreadable : frames.countP Frame.readable ≤ (frame :: stack).countP Frame.readable)
    (hsending : frames.any Frame.sends = true → (frame :: stack).any Frame.sends = true) :
    Calm c v (v.onLoop (·.setStack frames)) := by
  have hstack : v.loop.stack = frame :: stack := h
  refine calm_of_loop rfl ?_ (Or.inl ?_) (h.sends hsending)
  · simp only [Loop.ongoing, Loop.setStack, hstack, hongoing]
  · simp only [Loop.readable, Loop.setStack, hstack]
    omega

/-- The innermost function returns, and is none of the life of the connection. -/
theorem Inner.calm_pop {frame : Frame} {stack : List Frame} (h : v.Inner frame stack)
    (hlife : frame.ofLife = false) : Calm c v (v.onLoop (·.setStack stack)) := by
  refine h.calm (by simp [hlife]) ?_ ?_
  · exact (List.sublist_cons_self frame stack).countP_le
  · intro hany
    simp [hany]

/-- A callback returns. -/
theorem Inner.calm_callback {stack : List Frame} (h : v.Inner (.callback c) stack) :
    Calm c v (v.onLoop (·.setStack stack)) := h.calm_pop rfl

theorem Routine.calm (h : Routine c v v') : Calm c v v' := by
  cases h with
  | poll hstack hphase hactive =>
      refine calm_of_pending ?_ rfl ?_ id
      · simp [Loop.pending, Loop.setPhase, hphase, Phase.todo]
      · obtain rfl | ⟨readable, writable, rfl, -, hreading, -⟩ := hactive
        · exact Or.inl (by simp [Loop.readable, Loop.setPhase, hphase, Phase.active])
        · cases readable with
          | true =>
              refine Or.inr ⟨?_, hreading rfl⟩
              simp [Loop.readable, Loop.setPhase, hstack, Phase.active, Active.readable]
          | false =>
              refine Or.inl ?_
              simp [Loop.readable, Loop.setPhase, hstack, Phase.active, Active.readable]
  | passDone hstack hphase hfunctors =>
      refine calm_of_pending ?_ rfl (Or.inl ?_) id
      · simp [Loop.pending, Loop.setPhase, hphase, Phase.todo]
      · simp [Loop.readable, Loop.setPhase, hphase, Phase.active]
  | doCallback hstack hphase =>
      refine calm_of_pending ?_ rfl (Or.inl ?_) id
      · simp [Loop.pending, hphase, Phase.todo]
      · simp [Loop.readable, hphase, Phase.active]
  | @handleEvent readable writable active hstack hphase =>
      refine calm_of_pending ?_ ?_ (Or.inl (Nat.le_of_eq ?_)) ?_
      · simp [Loop.pending, Loop.setPhase, Loop.push, hphase, Phase.todo]
      · simp [Loop.ongoing, Loop.setPhase, Loop.push, Frame.ofLife]
      · cases readable <;>
          simp [Loop.readable, Loop.setPhase, Loop.push, hphase, hstack, Phase.active,
            List.countP_cons, Active.readable, Frame.readable]
      · simp [Loop.setPhase, Loop.push, Frame.sends]
  | batchDone hstack hphase =>
      refine calm_of_pending ?_ rfl (Or.inl ?_) id
      · simp [Loop.pending, Loop.setPhase, hphase, Phase.todo]
      · simp [Loop.readable, Loop.setPhase, hphase, Phase.active]
  | @runCallback f loop htakes hf =>
      have hlife : f.ofLife = false := by
        obtain rfl | ⟨size, rfl⟩ := hf <;> rfl
      exact htakes.calm_push hlife rfl rfl (by simp [Frame.sends])
  | runSend htakes =>
      exact htakes.calm_push rfl rfl rfl fun _ =>
        Or.inl (htakes.pending_eq ▸ List.mem_cons_self)
  | runShutdown htakes => exact htakes.calm_push rfl rfl rfl (by simp [Frame.sends])
  | readMessage hinner =>
      exact hinner.calm (by simp [Frame.ofLife]) (by simp [List.countP_cons, Frame.readable])
        (by simp [Frame.sends])
  | readError hinner =>
      exact hinner.calm (by simp [Frame.ofLife]) (by simp [List.countP_cons, Frame.readable])
        (by simp [Frame.sends])
  | @handleWrite w stack hinner =>
      have hcalm : Calm c v (v.onLoop (·.setStack (.handleEvent c false false :: stack))) :=
        hinner.calm (by simp [Frame.ofLife]) (by simp [Frame.readable]) (by simp [Frame.sends])
      refine hcalm.perform (TcpConnection.plain_handleWrite _ _) TcpConnection.handleWrite_state ?_
      by_cases hwriting : v.conn.channel.isWriting = true
      · exact Or.inr (Or.inr (Or.inl hwriting))
      · rw [TcpConnection.handleWrite_of_idle (by simpa using hwriting)]
        exact Or.inl rfl
  | handled hinner => exact hinner.calm_pop rfl
  | @sendInLoop data w stack hinner =>
      have hcalm : Calm c v (v.onLoop (·.setStack (.sendInLoop c true :: stack))) :=
        hinner.calm (by simp [Frame.ofLife]) (by simp [Frame.readable]) (by simp [Frame.sends])
      have hstack : v.loop.stack = .sendInLoop c false :: stack := hinner
      refine hcalm.perform (TcpConnection.plain_sendInLoop _ _ _)
        TcpConnection.sendInLoop_state ?_
      exact Or.inr (Or.inr (Or.inr (Or.inr (by simp [hstack, Frame.sends]))))
  | @shutdownInLoop stack hinner =>
      have hcalm : Calm c v (v.onLoop (·.setStack (.shutdownInLoop c true :: stack))) :=
        hinner.calm (by simp [Frame.ofLife]) (by simp [Frame.readable]) (by simp [Frame.sends])
      exact hcalm.perform (TcpConnection.plain_shutdownInLoop _) rfl (Or.inl rfl)
  | returned hinner hframe =>
      refine hinner.calm_pop ?_
      obtain rfl | rfl := hframe <;> rfl
  | @loopSend data w hreach =>
      refine calm_refl.perform (TcpConnection.plain_send _ _ _) ?_ ?_
      · unfold TcpConnection.send
        split
        · exact TcpConnection.sendInLoop_state
        · rfl
      · unfold TcpConnection.send
        split
        · next hstate => exact Or.inr (Or.inl hstate)
        · exact Or.inl rfl
  | copy hreach =>
      exact { calm_refl with }
  | shutdown hcopies hstate =>
      refine { calm_refl with callers := ?_ }
      intro caller hmem
      exact (List.mem_cons.1 hmem).symm

end Handshake

end TcpServer
