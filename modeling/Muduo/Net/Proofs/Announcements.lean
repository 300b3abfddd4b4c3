import Muduo.Net.Proofs.Routine

set_option autoImplicit false

/-! # What is announced of a connection

`ConnectEstablished` announces a connection up. It is announced down by `HandleClose`, or by
`ConnectDestoryed` if that finds it connected; each of the two relies on the other by what it finds
in `state_`. That takes four things which the code does not see to (`AnnouncesDown`): a connection
that is destroyed by the server must not be half-closed, `HandleClose` must not run behind
`ConnectDestoryed`, no other thread may store `state_` while a call of `ConnectionCallback_` is on
its way, and nobody may go on with a server or a connection that is freed. -/

namespace TcpServer

/-- How far the announcements of a connection are. -/
inductive Standing
  /-- `ConnectEstablished` is queued. -/
  | queued
  /-- The first call of `ConnectionCallback_` is on its way. -/
  | raising
  | up
  /-- The second call is on its way. -/
  | falling
  | down
deriving DecidableEq

namespace Standing

def announced : Standing → List TcpConnection.State
  | queued => []
  | raising => []
  | up => [.connected]
  | falling => [.connected]
  | down => [.connected, .disconnected]

def Allows (state : TcpConnection.State) : Standing → Prop
  | queued => state = .connecting
  | raising => state = .connected
  | up => state = .connected ∨ state = .disconnecting
  | falling => state = .disconnected
  | down => state ≠ .connected

end Standing

variable {c : ConnId}

theorem Loop.mem_ongoing {loop : Loop} {f : Frame} (hf : f.ofLife = true) :
    f ∈ loop.ongoing ↔ f ∈ loop.stack := by
  simp [Loop.ongoing, hf]

namespace Handshake

variable {v v' : Handshake} {a : Label} {f : Functor} {loop : Loop} {standing : Standing}

/-- `ConnectDestoryed` was called. -/
def Called (v : Handshake) : Prop := ∃ inPass, .connectDestoryed inPass ∈ v.life

/-- Nobody but the loop knows the connection, which has nothing to do but to be established and
    destroyed. -/
structure Hidden (c : ConnId) (v : Handshake) : Prop where
  copies : v.copies = 0
  callers : v.callers = []
  stack : ∀ f ∈ v.loop.stack, f = .announce c
  active : v.loop.phase.active = []
  pending : ∀ f ∈ v.loop.pending, f.ofLife = true
  state : v.loop.stack = [] → v.conn.channel.state = .new

structure Stands (c : ConnId) (standing : Standing) (v : Handshake) : Prop where
  announced : v.announced = standing.announced
  state : standing.Allows v.conn.state
  announce : .announce c ∈ v.loop.ongoing ↔ standing = .raising ∨ standing = .falling
  established : .connectEstablished c ∈ v.loop.duties ↔ standing = .queued
  first : .connectEstablished c ∉ v.loop.duties.tail
  hidden : standing = .queued ∨ standing = .raising → v.Hidden c
  onBase : v.onBase = true → standing ≠ .queued
  reading : v.conn.channel.isReading = true → standing = .raising ∨ standing = .up
  readable_le : v.loop.readable ≤ 1
  readable : 0 < v.loop.readable → standing = .raising ∨ standing = .up ∨ v.Called
  closed : .handleClose ∈ v.life → standing = .falling ∨ standing = .down
  called : .connectDestoryed c ∈ v.loop.ongoing ∨ .disconnect c ∈ v.loop.ongoing → v.Called
  disconnect : .disconnect c ∈ v.loop.ongoing → standing = .up
  remove : .remove c ∈ v.loop.ongoing → standing = .falling ∨ standing = .down
  destroyed : .destroyed ∈ v.life → standing = .down
  connectionCallback : v.conn.connectionCallback = true

/-! ## Before the first announcement -/

theorem Hidden.inner {frame : Frame} {stack : List Frame} (h : v.Hidden c)
    (hinner : v.Inner frame stack) : frame = .announce c := by
  have hstack : v.loop.stack = frame :: stack := hinner
  exact h.stack frame (by simp [hstack])

theorem Hidden.unreachable (h : v.Hidden c) (hreach : 0 < v.copies ∨ .callback c ∈ v.loop.stack) :
    False := by
  rcases hreach with hpos | hmem
  · exact absurd hpos (by simp [h.copies])
  · exact absurd (h.stack _ hmem) (by simp)

theorem Hidden.takes (h : v.Hidden c) (htakes : v.Takes f loop) : f.ofLife = true :=
  h.pending f (by simp [htakes.pending_eq])

/-- The loop goes on, or takes another batch. -/
theorem Hidden.routine (h : v.Hidden c) (hstep : Routine c v v') : v'.Hidden c := by
  cases hstep with
  | poll hstack hphase hactive =>
      obtain rfl | ⟨readable, writable, -, hstate, -⟩ := hactive
      · refine { h with active := rfl, pending := ?_ }
        intro f hf
        exact h.pending f
          (by simpa [onLoop, Loop.setPhase, Loop.pending, hphase, Phase.todo] using hf)
      · exact absurd (h.state hstack) (by simp [hstate])
  | passDone hstack hphase hfunctors | doCallback hstack hphase =>
      refine { h with active := rfl, pending := ?_ }
      intro f hf
      exact h.pending f
        (by simpa [onLoop, Loop.setPhase, Loop.pending, hphase, Phase.todo] using hf)
  | batchDone hstack hphase =>
      refine { h with active := rfl, pending := ?_ }
      intro f hf
      exact h.pending f
        (by simpa [onLoop, Loop.setPhase, Loop.pending, hphase, Phase.todo] using hf)
  | handleEvent hstack hphase =>
      exact absurd h.active (by simp [hphase, Phase.active])
  | runCallback htakes hf =>
      have hlife := h.takes htakes
      obtain rfl | ⟨size, rfl⟩ := hf <;> simp [Functor.ofLife] at hlife
  | runSend htakes | runShutdown htakes => exact absurd (h.takes htakes) (by simp [Functor.ofLife])
  | readMessage hinner | readError hinner | handleWrite hinner | handled hinner
  | sendInLoop hinner | shutdownInLoop hinner => exact absurd (h.inner hinner) (by simp)
  | returned hinner hframe =>
      have hannounce := h.inner hinner
      obtain rfl | rfl := hframe <;> cases hannounce
  | loopSend hreach | copy hreach => exact (h.unreachable hreach).elim
  | shutdown hcopies => exact absurd hcopies (by simp [h.copies])

/-! ## One lemma for each function -/

theorem Stands.calm (h : v.Stands c standing) (hcalm : Calm c v v')
    (hhidden : v.Hidden c → v'.Hidden c) : v'.Stands c standing where
  announced := hcalm.announced.trans h.announced
  state := hcalm.state ▸ h.state
  announce := hcalm.ongoing ▸ h.announce
  established := hcalm.duties ▸ h.established
  first := hcalm.duties ▸ h.first
  hidden hstanding := hhidden (h.hidden hstanding)
  onBase := hcalm.onBase ▸ h.onBase
  reading := hcalm.isReading ▸ h.reading
  readable_le := by
    rcases hcalm.readable with hle | ⟨hle, -⟩
    · exact Nat.le_trans hle h.readable_le
    · exact hle
  readable := by
    intro hpos
    have hcalled : v.Called → v'.Called := by
      rintro ⟨inPass, hmem⟩
      exact ⟨inPass, hcalm.life ▸ hmem⟩
    rcases hcalm.readable with hle | ⟨-, hreading⟩
    · exact (h.readable (Nat.lt_of_lt_of_le hpos hle)).imp_right (Or.imp_right hcalled)
    · exact (h.reading hreading).imp_right Or.inl
  closed := hcalm.life ▸ h.closed
  called := by
    rw [hcalm.ongoing]
    intro hmem
    obtain ⟨inPass, hlife⟩ := h.called hmem
    exact ⟨inPass, hcalm.life ▸ hlife⟩
  disconnect := hcalm.ongoing ▸ h.disconnect
  remove := hcalm.ongoing ▸ h.remove
  destroyed := hcalm.life ▸ h.destroyed
  connectionCallback := hcalm.connectionCallback.trans h.connectionCallback

/-- A functor is queued. -/
theorem Stands.queue (h : v.Stands c standing) (hf : f ≠ .connectEstablished c)
    (hlife : f.ofLife = true ∨ standing ≠ .queued ∧ standing ≠ .raising) :
    (v.onLoop (·.queue [f])).Stands c standing := by
  refine { h with established := ?_, first := ?_, hidden := ?_ }
  · rw [← h.established]
    show .connectEstablished c ∈ (v.loop.queue [f]).duties ↔ _
    rw [Loop.duties_queue, List.mem_append]
    refine or_iff_left ?_
    intro hmem
    exact hf (List.mem_singleton.1 (List.mem_filter.1 hmem).1).symm
  · show .connectEstablished c ∉ (v.loop.queue [f]).duties.tail
    rw [Loop.duties_queue, List.tail_append]
    have hnew : .connectEstablished c ∉ [f].filter Functor.ofLife := by
      intro hmem
      exact hf (List.mem_singleton.1 (List.mem_filter.1 hmem).1).symm
    split
    · exact fun hmem => hnew (List.mem_of_mem_tail hmem)
    · rw [List.mem_append, not_or]
      exact ⟨h.first, hnew⟩
  · intro hstanding
    refine { h.hidden hstanding with pending := ?_ }
    show ∀ g ∈ (v.loop.queue [f]).pending, g.ofLife = true
    rw [Loop.pending_queue]
    intro g hg
    rcases List.mem_append.1 hg with hg | hg
    · exact (h.hidden hstanding).pending g hg
    · rw [List.mem_singleton.1 hg]
      refine hlife.resolve_right ?_
      rintro ⟨hqueued, hraising⟩
      exact hstanding.elim hqueued hraising

theorem Stands.removeEntry (h : v.Stands c standing) : (v.removeEntry c).Stands c standing := by
  have hentry : Stands c standing { v with entry := false } :=
    { h with hidden := fun hearly => { h.hidden hearly with } }
  exact hentry.queue (by simp) (Or.inl rfl)

/-- `ConnectDestoryed` is taken off the batch. -/
theorem Stands.take (h : v.Stands c standing) (htakes : v.Takes (.connectDestoryed c) loop) :
    Stands c standing { v with loop } ∧ (standing = .up ∨ standing = .down) := by
  have hduties := htakes.duties_eq rfl
  have hrest : .connectEstablished c ∉ loop.duties := by
    have hfirst := h.first
    rwa [hduties] at hfirst
  have hqueued : standing ≠ .queued := by
    intro heq
    have hmem := h.established.2 heq
    rw [hduties] at hmem
    exact hrest (List.mem_of_ne_of_mem (by simp) hmem)
  have hidle : ∀ f, f ∉ v.loop.ongoing := by
    rw [htakes.ongoing_eq.1]
    simp
  have hongoing : loop.ongoing = v.loop.ongoing := by
    rw [htakes.ongoing_eq.1, htakes.ongoing_eq.2]
  have hstanding : standing = .up ∨ standing = .down := by
    have hannounce := mt h.announce.2 (hidle _)
    cases standing <;> simp_all
  refine ⟨?_, hstanding⟩
  refine
    { announced := h.announced
      state := h.state
      announce := hongoing ▸ h.announce
      established := ⟨fun hmem => absurd hmem hrest, fun heq => absurd heq hqueued⟩
      first := fun hmem => hrest (List.mem_of_mem_tail hmem)
      hidden := ?_
      onBase := h.onBase
      reading := h.reading
      readable_le := Nat.le_trans (Nat.le_of_eq htakes.readable_eq) (Nat.zero_le 1)
      readable := fun hpos => absurd hpos (by simp [htakes.readable_eq])
      closed := h.closed
      called := hongoing ▸ h.called
      disconnect := hongoing ▸ h.disconnect
      remove := hongoing ▸ h.remove
      destroyed := h.destroyed
      connectionCallback := h.connectionCallback }
  intro hearly
  rcases hstanding with rfl | rfl <;> simp at hearly

/-- `ConnectDestoryed` is called. -/
theorem Stands.connectDestoryed (h : v.Stands c standing)
    (hstanding : standing = .up ∨ standing = .down) :
    (v.connectDestoryed c).Stands c standing := by
  have hcalled : (v.connectDestoryed c).Called :=
    ⟨v.loop.inPass, List.mem_append_right _ List.mem_cons_self⟩
  have hongoing : (v.connectDestoryed c).loop.ongoing = .connectDestoryed c :: v.loop.ongoing := by
    show (v.loop.push [.connectDestoryed c]).ongoing = _
    rw [Loop.ongoing_push]
    rfl
  have hmem : ∀ f, f ≠ .connectDestoryed c → f ∈ (v.connectDestoryed c).loop.ongoing →
      f ∈ v.loop.ongoing := by
    intro f hne hf
    rw [hongoing] at hf
    exact List.mem_of_ne_of_mem hne hf
  have hlife : ∀ m, (∀ inPass, m ≠ .connectDestoryed inPass) → m ∈ (v.connectDestoryed c).life →
      m ∈ v.life := by
    intro m hne hm
    rcases List.mem_append.1 hm with hm | hm
    · exact hm
    · exact absurd (List.mem_singleton.1 hm) (hne _)
  have hreadable : (v.connectDestoryed c).loop.readable = v.loop.readable := by
    show (v.loop.push [.connectDestoryed c]).readable = _
    simp [Frame.readable]
  refine
    { announced := h.announced
      state := h.state
      announce := ?_
      established := h.established
      first := h.first
      hidden := ?_
      onBase := h.onBase
      reading := h.reading
      readable_le := Nat.le_trans (Nat.le_of_eq hreadable) h.readable_le
      readable := fun _ => Or.inr (Or.inr hcalled)
      closed := fun hm => h.closed (hlife _ (by simp) hm)
      called := fun _ => hcalled
      disconnect := fun hf => h.disconnect (hmem _ (by simp) hf)
      remove := fun hf => h.remove (hmem _ (by simp) hf)
      destroyed := fun hm => h.destroyed (hlife _ (by simp) hm)
      connectionCallback := h.connectionCallback }
  · rw [← h.announce, hongoing]
    simp
  · intro hearly
    rcases hstanding with rfl | rfl <;> simp at hearly

theorem Stands.connectEstablished (h : v.Stands c standing)
    (htakes : v.Takes (.connectEstablished c) loop) :
    ({ v with loop }.perform c v.conn.connectEstablished).Stands c .raising := by
  have hduties := htakes.duties_eq rfl
  obtain rfl : standing = .queued := h.established.1 (by simp [hduties])
  have hhidden := h.hidden (Or.inl rfl)
  have hrest : .connectEstablished c ∉ loop.duties := by
    have hfirst := h.first
    rwa [hduties] at hfirst
  have hloop : ({ v with loop }.perform c v.conn.connectEstablished).loop
      = loop.push [.announce c] := by
    have hannounces : announces c v.conn = [.announce c] := if_pos h.connectionCallback
    rw [← hannounces]
    exact connectEstablished_loop (v := { v with loop })
  have hongoing : (loop.push [.announce c]).ongoing = [.announce c] := by
    rw [Loop.ongoing_push, htakes.ongoing_eq.2]
    rfl
  have hreadable : (loop.push [.announce c]).readable = 0 := by
    simp [htakes.readable_eq, Frame.readable]
  refine
    { announced := h.announced
      state := rfl
      announce := by simp [hloop, hongoing]
      established := by simp [hloop, hrest]
      first := ?_
      hidden := ?_
      onBase := fun _ => by simp
      reading := fun _ => Or.inl rfl
      readable_le := by simp [hloop, hreadable]
      readable := fun _ => Or.inl rfl
      closed := fun hm => absurd (h.closed hm) (by simp)
      called := by simp [hloop, hongoing]
      disconnect := by simp [hloop, hongoing]
      remove := by simp [hloop, hongoing]
      destroyed := fun hm => absurd (h.destroyed hm) (by simp)
      connectionCallback := h.connectionCallback }
  · rw [hloop, Loop.duties_push]
    exact fun hmem => hrest (List.mem_of_mem_tail hmem)
  · intro _
    refine ⟨hhidden.copies, hhidden.callers, ?_, ?_, ?_, ?_⟩
    · rw [hloop]
      simp [Loop.push, htakes.stack_eq]
    · rw [hloop]
      obtain ⟨-, done, todo, -, rfl⟩ := htakes
      rfl
    · rw [hloop, Loop.pending_push]
      intro f hf
      refine hhidden.pending f ?_
      rw [htakes.pending_eq]
      exact List.mem_cons_of_mem _ hf
    · rw [hloop]
      simp [Loop.push]

/-- `HandleClose`, which is not called behind `ConnectDestoryed`. -/
theorem Stands.handleClose {writable : Bool} {stack : List Frame} (h : v.Stands c standing)
    (hinner : v.Inner (.handleEvent c true writable) stack) (hnot : ¬ v.Called) :
    (((v.onLoop (·.setStack (.handleEvent c false writable :: stack))).addMilestone
      .handleClose).perform c v.conn.handleClose).Stands c .falling := by
  have hreadable := hinner.readable_handleEvent
  obtain rfl : standing = .up := by
    rcases h.readable (by omega) with rfl | rfl | hcalled
    · exact absurd ((h.hidden (Or.inr rfl)).inner hinner) (by simp)
    · rfl
    · exact absurd hcalled hnot
  have hstack : v.loop.stack = .handleEvent c true writable :: stack := hinner
  -- the functions that `HandleClose` calls come in front of those in progress
  obtain ⟨calls, hcalls⟩ : ∃ calls, calls = announces c v.conn ++
      if v.conn.closeCallback then [.closeCallback c] else [] := ⟨_, rfl⟩
  have hloop : (((v.onLoop (·.setStack (.handleEvent c false writable :: stack))).addMilestone
        .handleClose).perform c v.conn.handleClose).loop
      = (v.loop.setStack (.handleEvent c false writable :: stack)).push calls := by
    rw [hcalls]
    exact handleClose_loop
  have hannounces : announces c v.conn = [.announce c] := if_pos h.connectionCallback
  rw [hannounces] at hcalls
  have hongoing : ((v.loop.setStack (.handleEvent c false writable :: stack)).push calls).ongoing
      = calls ++ v.loop.ongoing := by
    have hold : v.loop.ongoing = stack.filter Frame.ofLife := by
      simp [Loop.ongoing, hstack, Frame.ofLife]
    rw [Loop.ongoing_push, Loop.ongoing_setStack, hold, hcalls]
    split <;> rfl
  have hmem : ∀ f, f ≠ .announce c → f ≠ .closeCallback c → f ∈ calls ++ v.loop.ongoing →
      f ∈ v.loop.ongoing := by
    intro f hannounce hclose hf
    refine (List.mem_append.1 hf).resolve_left ?_
    rw [hcalls]
    split <;> simp [hannounce, hclose]
  have hzero : ((v.loop.setStack (.handleEvent c false writable :: stack)).push calls).readable
      = 0 := by
    have hle := h.readable_le
    have hnone : calls.countP Frame.readable = 0 := by
      rw [hcalls]
      split <;> rfl
    rw [Loop.readable_push, hnone]
    omega
  refine
    { announced := h.announced
      state := rfl
      announce := by
        rw [hloop, hongoing, hcalls]
        simp
      established := ?_
      first := by rw [hloop]; exact h.first
      hidden := by simp
      onBase := by simp
      reading := ?_
      readable_le := by rw [hloop, hzero]; exact Nat.zero_le 1
      readable := fun hpos => absurd hpos (by rw [hloop, hzero]; exact Nat.lt_irrefl 0)
      closed := fun _ => Or.inl rfl
      called := ?_
      disconnect := ?_
      remove := fun _ => Or.inl rfl
      destroyed := ?_
      connectionCallback := h.connectionCallback }
  · rw [hloop]
    show .connectEstablished c ∈ v.loop.duties ↔ _
    rw [h.established]
    simp
  · intro hreading
    have hevents : v.conn.handleClose.1.channel.isReading = false := by
      simp [Channel.isReading, Events.none]
    exact absurd hreading (by simp [perform, onLoop, hevents])
  · rw [hloop, hongoing]
    intro hcalled
    exact absurd (h.called (hcalled.imp (hmem _ (by simp) (by simp))
      (hmem _ (by simp) (by simp)))) hnot
  · rw [hloop, hongoing]
    intro hcalled
    exact absurd (h.called (Or.inr (hmem _ (by simp) (by simp) hcalled))) hnot
  · intro hdestroyed
    rcases List.mem_append.1 hdestroyed with hold | hnew
    · exact absurd (h.destroyed hold) (by simp)
    · simp at hnew

/-- The innermost function goes on, or returns, and announces nothing. -/
theorem Stands.goOn {frame : Frame} {stack frames : List Frame} (h : v.Stands c standing)
    (hinner : v.Inner frame stack) (hframe : frame ≠ .announce c)
    (hreadable : frames.countP Frame.readable = (frame :: stack).countP Frame.readable)
    (hannounce : .announce c ∈ frames ↔ .announce c ∈ v.loop.stack)
    (hcalled : .connectDestoryed c ∈ frames ∨ .disconnect c ∈ frames →
      .connectDestoryed c ∈ v.loop.stack ∨ .disconnect c ∈ v.loop.stack)
    (hdisconnect : .disconnect c ∈ frames → .disconnect c ∈ v.loop.stack ∨ standing = .up)
    (hremove : .remove c ∈ frames →
      .remove c ∈ v.loop.stack ∨ standing = .falling ∨ standing = .down) :
    (v.onLoop (·.setStack frames)).Stands c standing := by
  have hsame := hinner.readable_eq hreadable
  have hongoing : ∀ f : Frame, f.ofLife = true →
      (f ∈ (v.loop.setStack frames).ongoing ↔ f ∈ frames) := fun f hf => Loop.mem_ongoing hf
  refine
    { announced := h.announced
      state := h.state
      announce := ?_
      established := h.established
      first := h.first
      hidden := fun hearly => absurd ((h.hidden hearly).inner hinner) hframe
      onBase := h.onBase
      reading := h.reading
      readable_le := Nat.le_trans (Nat.le_of_eq hsame) h.readable_le
      readable := fun hpos => h.readable (hsame ▸ hpos)
      closed := h.closed
      called := ?_
      disconnect := ?_
      remove := ?_
      destroyed := h.destroyed
      connectionCallback := h.connectionCallback }
  · exact ((hongoing _ rfl).trans hannounce).trans ((Loop.mem_ongoing rfl).symm.trans h.announce)
  · intro hmem
    refine h.called ?_
    rw [Loop.mem_ongoing rfl, Loop.mem_ongoing rfl]
    exact hcalled (hmem.imp (hongoing _ rfl).1 (hongoing _ rfl).1)
  · intro hmem
    rcases hdisconnect ((hongoing _ rfl).1 hmem) with hold | heq
    · exact h.disconnect ((Loop.mem_ongoing rfl).2 hold)
    · exact heq
  · intro hmem
    rcases hremove ((hongoing _ rfl).1 hmem) with hold | heq
    · exact h.remove ((Loop.mem_ongoing rfl).2 hold)
    · exact heq

/-- `CloseCallback_` is called. -/
theorem Stands.pop {stack : List Frame} (h : v.Stands c standing)
    (hinner : v.Inner (.closeCallback c) stack) :
    (v.onLoop (·.setStack stack)).Stands c standing := by
  have hstack : v.loop.stack = .closeCallback c :: stack := hinner
  refine h.goOn hinner (by simp) (by simp [Frame.readable]) ?_ ?_ ?_ ?_
  · simp [hstack]
  · simp [hstack]
  · exact fun hmem => Or.inl (by simp [hstack, hmem])
  · exact fun hmem => Or.inl (by simp [hstack, hmem])

/-- What may not be left waiting is not below the innermost function. -/
theorem Inner.notMem {frame frame' : Frame} {stack : List Frame} (h : v.Inner frame stack)
    (horderly : v.loop.Orderly) (hwaits : frame'.waits = false) : frame' ∉ stack := by
  intro hmem
  have hstack : v.loop.stack = frame :: stack := h
  have hwaiting := horderly frame' (by simpa [hstack] using hmem)
  simp [hwaits] at hwaiting

theorem Inner.ongoing_eq {frame : Frame} {stack : List Frame} (h : v.Inner frame stack)
    (hframe : frame.ofLife = true) : v.loop.ongoing = frame :: stack.filter Frame.ofLife := by
  have hstack : v.loop.stack = frame :: stack := h
  simp [Loop.ongoing, hstack, hframe]

/-- `ConnectionCallback_` is called. -/
theorem Stands.callback {stack : List Frame} (h : v.Stands c standing)
    (hinner : v.Inner (.announce c) stack) (horderly : v.loop.Orderly) :
    ∃ standing', Stands c standing' ({ v with announced := v.announced ++ [v.conn.state] }.onLoop
      (·.setStack (.callback c :: stack))) := by
  have hongoing := hinner.ongoing_eq rfl
  have hlater : ∀ f : Frame, f ∈ (v.loop.setStack (.callback c :: stack)).ongoing →
      f ∈ v.loop.ongoing := by
    intro f hf
    rw [hongoing]
    exact List.mem_cons_of_mem _ hf
  have hnone : .announce c ∉ (v.loop.setStack (.callback c :: stack)).ongoing := by
    have hbelow : .announce c ∉ stack := hinner.notMem horderly rfl
    simpa [Frame.ofLife] using hbelow
  have hreadable : (v.loop.setStack (.callback c :: stack)).readable = v.loop.readable :=
    hinner.readable_eq (by simp [Frame.readable])
  have hle : (v.loop.setStack (.callback c :: stack)).readable ≤ 1 := hreadable ▸ h.readable_le
  rcases h.announce.1 (by simp [hongoing]) with rfl | rfl
  · refine ⟨.up, ?_⟩
    have hstate : v.conn.state = .connected := h.state
    exact
      { announced := by
          show v.announced ++ [v.conn.state] = _
          rw [h.announced, hstate]
          rfl
        state := Or.inl hstate
        announce := ⟨fun hmem => absurd hmem hnone, by simp⟩
        established := ⟨fun hmem => absurd (h.established.1 hmem) (by simp), by simp⟩
        first := h.first
        hidden := by simp
        onBase := by simp
        reading := fun _ => Or.inr rfl
        readable_le := hle
        readable := fun _ => Or.inr (Or.inl rfl)
        closed := fun hm => absurd (h.closed hm) (by simp)
        called := fun hmem => h.called (hmem.imp (hlater _) (hlater _))
        disconnect := fun _ => rfl
        remove := fun hmem => absurd (h.remove (hlater _ hmem)) (by simp)
        destroyed := fun hm => absurd (h.destroyed hm) (by simp)
        connectionCallback := h.connectionCallback }
  · refine ⟨.down, ?_⟩
    have hstate : v.conn.state = .disconnected := h.state
    exact
      { announced := by
          show v.announced ++ [v.conn.state] = _
          rw [h.announced, hstate]
          rfl
        state := by
          show v.conn.state ≠ .connected
          simp [hstate]
        announce := ⟨fun hmem => absurd hmem hnone, by simp⟩
        established := ⟨fun hmem => absurd (h.established.1 hmem) (by simp), by simp⟩
        first := h.first
        hidden := by simp
        onBase := by simp
        reading := fun hreading => absurd (h.reading hreading) (by simp)
        readable_le := hle
        readable := fun hpos => by
          have hcalled := h.readable (hreadable ▸ hpos)
          simp only [reduceCtorEq, false_or] at hcalled
          exact Or.inr (Or.inr hcalled)
        closed := fun _ => Or.inr rfl
        called := fun hmem => h.called (hmem.imp (hlater _) (hlater _))
        disconnect := fun hmem => absurd (h.disconnect (hlater _ hmem)) (by simp)
        remove := fun _ => Or.inr rfl
        destroyed := fun _ => rfl
        connectionCallback := h.connectionCallback }

/-- `ConnectDestoryed` announces the connection down. -/
theorem Stands.disconnected {stack : List Frame} (h : v.Stands c standing)
    (hinner : v.Inner (.disconnect c) stack) (horderly : v.loop.Orderly) :
    ((v.onLoop (·.setStack (.remove c :: stack))).perform c v.conn.disconnect).Stands c
      .falling := by
  have hongoing := hinner.ongoing_eq rfl
  obtain rfl : standing = .up := h.disconnect (by simp [hongoing])
  have hcalled : v.Called := h.called (Or.inr (by simp [hongoing]))
  have hloop : ((v.onLoop (·.setStack (.remove c :: stack))).perform c v.conn.disconnect).loop
      = v.loop.setStack (.announce c :: .remove c :: stack) := by
    have hannounces : announces c v.conn = [.announce c] := if_pos h.connectionCallback
    have hpushed : v.loop.setStack (.announce c :: .remove c :: stack)
        = (v.loop.setStack (.remove c :: stack)).push (announces c v.conn) := by
      rw [hannounces]
      rfl
    rw [hpushed]
    exact disconnect_loop
  have hreadable : (v.loop.setStack (.announce c :: .remove c :: stack)).readable
      = v.loop.readable := hinner.readable_eq (by simp [Frame.readable])
  refine
    { announced := h.announced
      state := rfl
      announce := by simp [hloop, Frame.ofLife]
      established := ?_
      first := hloop ▸ h.first
      hidden := by simp
      onBase := by simp
      reading := ?_
      readable_le := by rw [hloop, hreadable]; exact h.readable_le
      readable := fun _ => Or.inr (Or.inr hcalled)
      closed := fun _ => Or.inl rfl
      called := fun _ => hcalled
      disconnect := ?_
      remove := fun _ => Or.inl rfl
      destroyed := fun hm => absurd (h.destroyed hm) (by simp)
      connectionCallback := h.connectionCallback }
  · rw [hloop]
    show .connectEstablished c ∈ v.loop.duties ↔ _
    rw [h.established]
    simp
  · intro hreading
    have hevents : v.conn.disconnect.1.channel.isReading = false := by
      simp [Channel.isReading, Events.none]
    exact absurd hreading (by simp [perform, onLoop, hevents])
  · have hbelow : .disconnect c ∉ stack := hinner.notMem horderly rfl
    rw [hloop, Loop.ongoing_setStack]
    intro hmem
    exact absurd (by simpa [Frame.ofLife] using hmem) hbelow

theorem Stands.removed {stack : List Frame} (h : v.Stands c standing)
    (hinner : v.Inner (.remove c) stack) (horderly : v.loop.Orderly) :
    (((v.onLoop (·.setStack stack)).perform c (v.conn.onChannel Channel.remove)).addMilestone
      .destroyed).Stands c .down := by
  have hongoing := hinner.ongoing_eq rfl
  obtain rfl : standing = .down := by
    rcases h.remove (by simp [hongoing]) with rfl | rfl
    · have hmem := h.announce.2 (Or.inr rfl)
      rw [hongoing] at hmem
      have hin := List.mem_of_ne_of_mem (by simp) hmem
      exact absurd (List.mem_filter.1 hin).1 (hinner.notMem horderly rfl)
    · rfl
  have hloop : ((v.onLoop (·.setStack stack)).perform c (v.conn.onChannel Channel.remove)).loop
      = v.loop.setStack stack := remove_loop
  have hlater : ∀ f : Frame, f ∈ (v.loop.setStack stack).ongoing → f ∈ v.loop.ongoing := by
    intro f hf
    rw [hongoing]
    exact List.mem_cons_of_mem _ hf
  have hreadable : (v.loop.setStack stack).readable = v.loop.readable :=
    hinner.readable_eq (by simp [Frame.readable])
  have hcalled : v.Called → Called (((v.onLoop (·.setStack stack)).perform c
      (v.conn.onChannel Channel.remove)).addMilestone .destroyed) := by
    rintro ⟨inPass, hmem⟩
    exact ⟨inPass, List.mem_append_left _ hmem⟩
  exact
    { announced := h.announced
      state := h.state
      announce := by
        rw [addMilestone, hloop]
        exact ⟨fun hmem => h.announce.1 (hlater _ hmem), by simp⟩
      established := by rw [addMilestone, hloop]; exact h.established
      first := by rw [addMilestone, hloop]; exact h.first
      hidden := by simp
      onBase := by simp
      reading := fun hreading => absurd (h.reading hreading) (by simp)
      readable_le := by rw [addMilestone, hloop, hreadable]; exact h.readable_le
      readable := by
        rw [addMilestone, hloop, hreadable]
        exact fun hpos => (h.readable hpos).imp_right (Or.imp_right hcalled)
      closed := fun _ => Or.inr rfl
      called := by
        rw [addMilestone, hloop]
        exact fun hmem => hcalled (h.called (hmem.imp (hlater _) (hlater _)))
      disconnect := by
        rw [addMilestone, hloop]
        exact fun hmem => h.disconnect (hlater _ hmem)
      remove := fun _ => Or.inr rfl
      destroyed := fun _ => rfl
      connectionCallback := h.connectionCallback }

/-- The users half-close a connection that is announced up, or store `state_` later. -/
theorem Stands.setState (h : v.Stands c standing) (hstanding : standing = .up ∨ standing = .down) :
    Stands c standing { v with conn := { v.conn with state := .disconnecting } } := by
  refine { h with state := ?_, hidden := ?_ }
  · rcases hstanding with rfl | rfl
    · exact Or.inr rfl
    · exact fun heq => absurd heq (by simp)
  · rcases hstanding with rfl | rfl <;> simp

/-- The users do something with a copy. -/
theorem Stands.visible (h : v.Stands c standing) (hnot : ¬ v.Hidden c) :
    standing ≠ .queued ∧ standing ≠ .raising :=
  ⟨fun heq => hnot (h.hidden (Or.inl heq)), fun heq => hnot (h.hidden (Or.inr heq))⟩

/-! ## Every step -/

/-- What the announcements rely on. -/
def Allowed (c : ConnId) (v : Handshake) : Label → Prop
  | .test => v.conn.state = .connected ∨ .handleClose ∈ v.life
  | .close => ¬ v.Called
  | .store => .announce c ∉ v.loop.stack
  | _ => True

theorem Stands.step (h : v.Stands c standing) (horderly : v.loop.Orderly) (hallowed : v.Allowed c a)
    (hstep : Step c v a v') : ∃ standing', v'.Stands c standing' := by
  cases hstep with
  | nothing => exact ⟨standing, h⟩
  | routine hroutine =>
      exact ⟨standing, h.calm hroutine.calm fun hhidden => hhidden.routine hroutine⟩
  | runEstablished htakes => exact ⟨.raising, h.connectEstablished htakes⟩
  | runDestoryed htakes =>
      obtain ⟨htaken, hstanding⟩ := h.take htakes
      exact ⟨standing, htaken.connectDestoryed hstanding⟩
  | readClose hinner => exact ⟨.falling, h.handleClose hinner hallowed⟩
  | announce hinner => exact h.callback hinner horderly
  | «return» hinner =>
      refine ⟨standing, h.calm hinner.calm_callback fun hhidden => ?_⟩
      exact absurd (hhidden.inner hinner) (by simp)
  | removeHere hinner => exact ⟨standing, (h.pop hinner).removeEntry⟩
  | removeThere hinner =>
      have hpop := h.pop hinner
      exact ⟨standing, { hpop with hidden := fun hearly => { hpop.hidden hearly with } }⟩
  | @testConnected stack hinner hstate =>
      have hvisible := h.visible fun hhidden => absurd (hhidden.inner hinner) (by simp)
      have hstack : v.loop.stack = .connectDestoryed c :: stack := hinner
      obtain rfl : standing = .up := by
        have hallows := h.state
        rw [hstate] at hallows
        cases standing <;> simp_all [Standing.Allows]
      refine ⟨.up, h.goOn hinner (by simp) (by simp [Frame.readable]) ?_ ?_ ?_ ?_⟩
      · simp [hstack]
      · exact fun _ => Or.inl (by simp [hstack])
      · exact fun _ => Or.inr rfl
      · exact fun hmem => Or.inl (by simpa [hstack] using hmem)
  | @testOther stack hinner hstate =>
      have hstack : v.loop.stack = .connectDestoryed c :: stack := hinner
      have hclosed := h.closed (Or.resolve_left hallowed hstate)
      refine ⟨standing, h.goOn hinner (by simp) (by simp [Frame.readable]) ?_ ?_ ?_ ?_⟩
      · simp [hstack]
      · exact fun _ => Or.inl (by simp [hstack])
      · exact fun hmem => Or.inl (by simpa [hstack] using hmem)
      · exact fun _ => Or.inr hclosed
  | disconnect hinner => exact ⟨.falling, h.disconnected hinner horderly⟩
  | remove hinner => exact ⟨.down, h.removed hinner horderly⟩
  | removal =>
      refine ⟨standing, Stands.removeEntry ?_⟩
      exact { h with hidden := fun hearly => { h.hidden hearly with } }
  | destruct =>
      exact ⟨standing, { h with hidden := fun hearly => { h.hidden hearly with } }⟩
  | destroyHere hdestructed hentry honBase hwaits =>
      have hannounce : .announce c ∉ v.loop.ongoing := by
        intro hmem
        have hwaiting := hwaits _ ((Loop.mem_ongoing rfl).1 hmem)
        simp [Frame.waits] at hwaiting
      have hstanding : standing = .up ∨ standing = .down := by
        have hqueued := h.onBase honBase
        have hnone := mt h.announce.2 hannounce
        cases standing <;> simp_all
      have hgone : Stands c standing { v with entry := false } :=
        { h with hidden := fun hearly => { h.hidden hearly with } }
      exact ⟨standing, hgone.connectDestoryed hstanding⟩
  | destroyThere => exact ⟨standing, h.removeEntry⟩
  | loopShutdown hreach =>
      have hvisible := h.visible fun hhidden => hhidden.unreachable hreach
      rcases perform_shutdown (v := v) (c := c) with heq | ⟨hstate, heq⟩
      · rw [heq]
        exact ⟨standing, h⟩
      · rw [heq]
        refine ⟨standing, h.setState (Or.inl ?_)⟩
        have hallows := h.state
        rw [hstate] at hallows
        cases standing <;> simp_all [Standing.Allows]
  | drop hcopies | send hcopies =>
      have hvisible := h.visible fun hhidden => absurd hcopies (by simp [hhidden.copies])
      exact ⟨standing, { h with hidden := fun hearly => absurd hearly (by simp [hvisible]) }⟩
  | queueSend hcaller =>
      have hvisible := h.visible fun hhidden => absurd hcaller (by simp [hhidden.callers])
      refine ⟨standing, Stands.queue ?_ (by simp) (Or.inr hvisible)⟩
      exact { h with hidden := fun hearly => absurd hearly (by simp [hvisible]) }
  | queueShutdown hcaller =>
      have hvisible := h.visible fun hhidden => absurd hcaller (by simp [hhidden.callers])
      refine ⟨standing, Stands.queue ?_ (by simp) (Or.inr hvisible)⟩
      exact { h with hidden := fun hearly => absurd hearly (by simp [hvisible]) }
  | store hcaller =>
      have hvisible := h.visible fun hhidden => absurd hcaller (by simp [hhidden.callers])
      have hstanding : standing = .up ∨ standing = .down := by
        have hnone := mt h.announce.2 fun hmem => hallowed ((Loop.mem_ongoing rfl).1 hmem)
        cases standing <;> simp_all
      have hstored := h.setState hstanding
      exact ⟨standing, { hstored with hidden := fun hearly => absurd hearly (by simp [hvisible]) }⟩

theorem Born.stands (h : Born c true v) : ∃ standing, v.Stands c standing := by
  cases h with
  | @queued phase fd writeComplete highWaterMark hactive hfunctors =>
      have hpending : (newborn false phase (.new fd true writeComplete true
          highWaterMark)).loop.pending = [] := newborn_pending hfunctors
      have hreadable : (newborn false phase (.new fd true writeComplete true
          highWaterMark)).loop.readable = 0 := newborn_readable hactive
      have hloop : ((newborn false phase (.new fd true writeComplete true highWaterMark)).onLoop
          (·.queue [.connectEstablished c])).loop.duties = [.connectEstablished c] := by
        simp [onLoop, Loop.duties, hpending, Functor.ofLife]
      refine ⟨.queued, rfl, rfl, ?_, ?_, ?_, ?_, ?_, ?_, ?_, ?_, ?_, ?_, ?_, ?_, ?_, rfl⟩
      · simp [newborn, onLoop, Loop.ongoing, Loop.queue]
      · simp [hloop]
      · simp [hloop]
      · intro _
        refine ⟨rfl, rfl, ?_, hactive, ?_, fun _ => rfl⟩
        · simp [newborn, onLoop, Loop.queue]
        · simp [onLoop, hpending, Functor.ofLife]
      · simp [newborn, onLoop]
      · simp [newborn, onLoop, TcpConnection.new, Channel.new, Channel.isReading, Events.none]
      · simp [onLoop, hreadable]
      · simp [onLoop, hreadable]
      · simp [newborn, onLoop]
      · simp [newborn, onLoop, Loop.ongoing, Loop.queue]
      · simp [newborn, onLoop, Loop.ongoing, Loop.queue]
      · simp [newborn, onLoop, Loop.ongoing, Loop.queue]
      · simp [newborn, onLoop]
  | @here phase conn fd writeComplete highWaterMark hactive hfunctors hconn =>
      have hpending : (newborn true phase conn).loop.pending = [] := newborn_pending hfunctors
      have hreadable : (newborn true phase conn).loop.readable = 0 := newborn_readable hactive
      have hannounces : announces c conn = [.announce c] := by
        rw [hconn]
        rfl
      have hloop : ((newborn true phase conn).perform c conn.connectEstablished).loop
          = (newborn true phase conn).loop.push [.announce c] := by
        rw [← hannounces]
        exact connectEstablished_loop
      have hongoing : ((newborn true phase conn).loop.push [.announce c]).ongoing
          = [.announce c] := rfl
      refine ⟨.raising, rfl, rfl, ?_, ?_, ?_, ?_, ?_, ?_, ?_, ?_, ?_, ?_, ?_, ?_, ?_, ?_⟩
      · simp [hloop, hongoing]
      · simp [hloop, Loop.duties, hpending]
      · simp [hloop, Loop.duties, hpending]
      · intro _
        refine ⟨rfl, rfl, ?_, ?_, ?_, ?_⟩
        · rw [hloop]
          simp [newborn, Loop.push]
        · rw [hloop]
          exact hactive
        · simp [hloop, hpending]
        · rw [hloop]
          simp [Loop.push]
      · simp
      · exact fun _ => Or.inl rfl
      · simp [hloop, hreadable, Frame.readable]
      · exact fun _ => Or.inl rfl
      · simp [newborn, perform, onLoop]
      · simp [hloop, hongoing]
      · simp [hloop, hongoing]
      · simp [hloop, hongoing]
      · simp [newborn, perform, onLoop]
      · rw [hconn]
        rfl

end Handshake

/-! ## Runs -/

variable {cfg : Config} {s t : TcpServer} {a : Action} {as : List Action}

/-- Where the announcements go wrong, and what does not happen. `ConnectDestoryed` finds the
    connection in `kConnected`, unless `HandleClose` has run. `HandleClose` is not run behind
    `ConnectDestoryed`. No other thread stores `state_` while a call of `ConnectionCallback_` is on
    its way. No thread works on what is freed. -/
def AnnouncesDown (cfg : Config) (s : TcpServer) : Action → Prop
  | .next l answer =>
      s.freed cfg l = false ∧
        match (s.loops l).stack with
        | .connectDestoryed c :: _ => (s.conn c).state = .connected ∨ .handleClose ∈ s.life c
        | .handleEvent c true _ :: _ =>
            answer.read = .eof → ∀ inPass, .connectDestoryed inPass ∉ s.life c
        | _ => True
  | .goOn c .shutdownTested => .announce c ∉ (s.loops (s.loop c)).stack
  | _ => True

theorem allowed_of_announcesDown (h : s.AnnouncesDown cfg a) :
    (view cfg s c).Allowed c (a.label s c) := by
  have hlabel := label_of s c a
  cases heq : a.label s c with
  | test =>
      rw [heq] at hlabel
      obtain ⟨l, answer, stack, rfl, hstack⟩ := hlabel
      simp only [AnnouncesDown, hstack] at h
      exact h.2
  | close =>
      rw [heq] at hlabel
      obtain ⟨l, answer, writable, stack, rfl, hread, hstack⟩ := hlabel
      simp only [AnnouncesDown, hstack] at h
      rintro ⟨inPass, hmem⟩
      exact h.2 hread inPass hmem
  | store =>
      rw [heq] at hlabel
      obtain rfl : a = .goOn c .shutdownTested := hlabel
      exact fun hmem => h (List.mem_filter.1 hmem).1
  | quiet | release | send | destruct => trivial

theorem stands_of_reaches (hcallback : cfg.connectionCallback = true)
    (run : (machine cfg).Reaches (AnnouncesDown cfg) as s) :
    ∀ c, s.Made c → ∃ standing, (view cfg s c).Stands c standing := by
  refine view_of_reaches (fun c v => ∃ standing, v.Stands c standing)
    (fun c v b _ => v.Allowed c b) run ?_ ?_ ?_
  · intro c v h
    rw [hcallback] at h
    exact h.stands
  · exact fun s a t c h _ => allowed_of_announcesDown h
  · rintro c v b v' ⟨standing, h⟩ horderly hallowed hstep
    exact h.step horderly hallowed hstep

theorem fault_of_reaches (run : (machine cfg).Reaches (AnnouncesDown cfg) as s) :
    s.fault = false := by
  induction run with
  | init hinit =>
      obtain rfl := hinit
      rfl
  | @step as s t a run guard hstep ih =>
      obtain ⟨-, hstep⟩ := of_step_machine hstep
      rw [fault_step (homes_of_reaches run) hstep ?_]
      · exact ih
      · rintro l answer rfl
        exact guard.1

instance (s : TcpServer) (a : Action) : Decidable (s.AnnouncesDown cfg a) := by
  unfold AnnouncesDown
  split
  · refine @instDecidableAnd _ _ _ ?_
    split <;> infer_instance
  · infer_instance
  · infer_instance

/-- The base loop alone. -/
def oneLoop : Config := { twoLoops with loops := [] }

/-- The server is destroyed while a connection is up. -/
def destroysConnected : List Action :=
  [.poll 0 [.acceptor], .next 0 { fd := some 5 }, .next 0 {}, .next 0 {}, .next 0 {},
    .outside 0, .destruct, .next 0 { entry := 1 },
    -- `ConnectDestoryed`
    .next 0 {}, .next 0 {}, .next 0 {}, .next 0 {}, .next 0 {}]

/-- A callback calls `shutdown`, and the server is destroyed before the peer closes. -/
def destroysHalfClosed : List Action :=
  [.poll 0 [.acceptor], .next 0 { fd := some 5 }, .next 0 {}, .loopShutdown 1, .next 0 {},
    .next 0 {}, .outside 0, .destruct, .next 0 { entry := 1 },
    -- `ConnectDestoryed`
    .next 0 {}, .next 0 {}]

end TcpServer
