import Muduo.Net.Proofs.Routine
import Mathlib.Data.List.Nodup

set_option autoImplicit false

/-! # The handshake of a teardown

As long as the server is there and `send` is called on loop threads only, a connection goes through
the stages of `Stage` in their order, each of them with an owner of its own: the entry of
`connections_`, the functor of `ConnectDestoryed`, or that function in progress. -/

namespace TcpServer

/-- How far a connection is. -/
inductive Stage
  /-- `ConnectEstablished` is queued. -/
  | queued
  | up
  /-- `HandleClose` is in progress. -/
  | closing
  /-- `RemoveConnectionInLoop` is queued on the base loop. -/
  | removing
  /-- `ConnectDestoryed` is queued. -/
  | destroying
  /-- `ConnectDestoryed` is in progress. -/
  | finishing
  | gone
deriving DecidableEq

/-- The functions of a teardown. -/
def Frame.tearsDown : Frame → Bool
  | .closeCallback _ => true
  | .connectDestoryed _ => true
  | .disconnect _ => true
  | .remove _ => true
  | _ => false

def Loop.tearing (loop : Loop) : List Frame := loop.stack.filter Frame.tearsDown

namespace Stage

def duties (c : ConnId) : Stage → List Functor
  | queued => [.connectEstablished c]
  | destroying => [.connectDestoryed c]
  | _ => []

/-- The functions of the teardown that may be in progress. -/
def Tearing (c : ConnId) (frames : List Frame) : Stage → Prop
  | closing => frames = [.closeCallback c]
  | finishing => frames = [.connectDestoryed c] ∨ frames = [.remove c]
  | _ => frames = []

def removals : Stage → Nat
  | removing => 1
  | _ => 0

/-- Whether the connection is in `connections_`. -/
def entry : Stage → Bool
  | queued => true
  | up => true
  | closing => true
  | removing => true
  | _ => false

def life : Stage → List Milestone
  | queued => []
  | up => []
  | closing => [.handleClose]
  | removing => [.handleClose]
  | destroying => [.handleClose]
  | finishing => [.handleClose, .connectDestoryed false]
  | gone => [.handleClose, .connectDestoryed false, .destroyed]

end Stage

variable {c : ConnId}

@[simp] theorem Loop.tearing_push {loop : Loop} {frames : List Frame} :
    (loop.push frames).tearing = frames.filter Frame.tearsDown ++ loop.tearing := by
  simp [tearing, push]

theorem Loop.tearing_congr {loop loop' : Loop} (h : loop'.ongoing = loop.ongoing) :
    loop'.tearing = loop.tearing := by
  have hsub (loop : Loop) : loop.tearing = loop.ongoing.filter Frame.tearsDown := by
    rw [tearing, ongoing, List.filter_filter]
    refine List.filter_congr ?_
    intro f _
    cases f <;> rfl
  rw [hsub, hsub, h]

@[simp] theorem tearing_announces {conn : TcpConnection} :
    (announces c conn).filter Frame.tearsDown = [] := by
  obtain h | h := announces_cases c conn <;> simp [h, Frame.tearsDown]

namespace Handshake

variable {v v' : Handshake} {a : Label} {loop : Loop} {stage : Stage}

/-- The connection is at this stage of the handshake. -/
structure At (c : ConnId) (stage : Stage) (v : Handshake) : Prop where
  duties : v.loop.duties = stage.duties c
  tearing : stage.Tearing c v.loop.tearing
  removals : v.removals = stage.removals
  entry : v.entry = stage.entry
  life : v.life = stage.life
  state : v.conn.state = .connected → stage = .up
  quiet : stage ≠ .up → v.conn.channel.isReading = false ∧ v.conn.channel.isWriting = false
  registered : stage = .queued ∨ stage = .gone → v.conn.channel.state = .new
  readable_le : v.loop.readable ≤ 1
  readable : stage ≠ .up → v.loop.readable = 0
  closeCallback : v.conn.closeCallback = true
  sends : ¬ v.loop.Sends c
  callers : .sendTested ∉ v.callers
  destructed : v.destructed = false

/-! ## One lemma for each function -/

theorem At.calm (h : v.At c stage) (hcalm : Calm c v v') : v'.At c stage := by
  have hchannel : stage ≠ .up → v'.conn.channel = v.conn.channel := by
    intro hstage
    rcases hcalm.channel with heq | hstate | hwriting | hsends
    · exact heq
    · exact absurd (h.state hstate) hstage
    · exact absurd hwriting (by simp [(h.quiet hstage).2])
    · exact absurd hsends h.sends
  refine
    { duties := hcalm.duties.trans h.duties
      tearing := ?_
      removals := hcalm.removals.trans h.removals
      entry := hcalm.entry.trans h.entry
      life := hcalm.life.trans h.life
      state := fun hstate => h.state (hcalm.state ▸ hstate)
      quiet := ?_
      registered := ?_
      readable_le := ?_
      readable := ?_
      closeCallback := hcalm.closeCallback.trans h.closeCallback
      sends := fun hmem => h.sends (hcalm.sends hmem)
      callers := ?_
      destructed := hcalm.destructed.trans h.destructed }
  · rw [Loop.tearing_congr hcalm.ongoing]
    exact h.tearing
  · intro hstage
    rw [hchannel hstage]
    exact h.quiet hstage
  · intro hstage
    have hne : stage ≠ .up := by
      rintro rfl
      simp at hstage
    rw [hchannel hne]
    exact h.registered hstage
  · rcases hcalm.readable with hle | ⟨hle, -⟩
    · exact Nat.le_trans hle h.readable_le
    · exact hle
  · intro hstage
    rcases hcalm.readable with hle | ⟨-, hreading⟩
    · exact Nat.le_zero.1 (h.readable hstage ▸ hle)
    · exact absurd hreading (by simp [(h.quiet hstage).1])
  · intro hmem
    rcases hcalm.callers _ hmem with hmem | heq
    · exact h.callers hmem
    · cases heq

/-- The innermost function is one of the teardown. -/
theorem At.inner {frame : Frame} {stack : List Frame} (h : v.At c stage)
    (hinner : v.Inner frame stack) (hframe : frame.tearsDown = true) :
    (stage = .closing ∧ frame = .closeCallback c ∨
      stage = .finishing ∧ (frame = .connectDestoryed c ∨ frame = .remove c)) ∧
      stack.filter Frame.tearsDown = [] := by
  have htearing : v.loop.tearing = frame :: stack.filter Frame.tearsDown := by
    have hstack : v.loop.stack = frame :: stack := hinner
    simp [Loop.tearing, hstack, hframe]
  have hstage := h.tearing
  rw [htearing] at hstage
  cases stage with
  | closing =>
      obtain ⟨rfl, hrest⟩ := List.cons.inj hstage
      exact ⟨Or.inl ⟨rfl, rfl⟩, hrest⟩
  | finishing =>
      rcases hstage with hstage | hstage
      · obtain ⟨rfl, hrest⟩ := List.cons.inj hstage
        exact ⟨Or.inr ⟨rfl, Or.inl rfl⟩, hrest⟩
      · obtain ⟨rfl, hrest⟩ := List.cons.inj hstage
        exact ⟨Or.inr ⟨rfl, Or.inr rfl⟩, hrest⟩
  | queued | up | removing | destroying | gone => exact absurd hstage (by simp [Stage.Tearing])

theorem At.connectEstablished (h : v.At c stage) (htakes : v.Takes (.connectEstablished c) loop) :
    ({ v with loop }.perform c v.conn.connectEstablished).At c .up := by
  have hduties := h.duties
  rw [htakes.duties_eq rfl] at hduties
  obtain rfl : stage = .queued := by
    cases stage <;> first | rfl | exact absurd hduties (by simp [Stage.duties])
  have hrest : loop.duties = [] := (List.cons.inj hduties).2
  have hloop : ({ v with loop }.perform c v.conn.connectEstablished).loop
      = loop.push (announces c v.conn) := connectEstablished_loop (v := { v with loop })
  refine
    { duties := by rw [hloop, Loop.duties_push, hrest]; rfl
      tearing := ?_
      removals := h.removals
      entry := h.entry
      life := h.life
      state := fun _ => rfl
      quiet := fun hne => absurd rfl hne
      registered := by simp
      readable_le := by simp [hloop, htakes.readable_eq]
      readable := fun hne => absurd rfl hne
      closeCallback := h.closeCallback
      sends := ?_
      callers := h.callers
      destructed := h.destructed }
  · rw [hloop, Loop.tearing_push, tearing_announces, Loop.tearing, htakes.stack_eq]
    rfl
  · rw [hloop, Loop.sends_push, sends_announces]
    simpa using fun hsends => h.sends (htakes.sends hsends)

theorem At.handleClose {writable : Bool} {stack : List Frame} (h : v.At c stage)
    (hinner : v.Inner (.handleEvent c true writable) stack) :
    (((v.onLoop (·.setStack (.handleEvent c false writable :: stack))).addMilestone
      .handleClose).perform c v.conn.handleClose).At c .closing := by
  have hreadable := hinner.readable_handleEvent
  have hle := h.readable_le
  obtain rfl : stage = .up := by
    by_contra hne
    have hzero := h.readable hne
    omega
  have htearing : stack.filter Frame.tearsDown = [] := by
    have hstack : v.loop.stack = .handleEvent c true writable :: stack := hinner
    have hnone : v.loop.tearing = [] := h.tearing
    rwa [Loop.tearing, hstack, List.filter_cons_of_neg (by simp [Frame.tearsDown])] at hnone
  have hloop : (((v.onLoop (·.setStack (.handleEvent c false writable :: stack))).addMilestone
        .handleClose).perform c v.conn.handleClose).loop
      = (v.loop.setStack (.handleEvent c false writable :: stack)).push
          (announces c v.conn ++ [.closeCallback c]) := by
    have hclose : (if v.conn.closeCallback then [Frame.closeCallback c] else [])
        = [.closeCallback c] := if_pos h.closeCallback
    rw [← hclose]
    exact handleClose_loop
  have hnoRead : ((v.loop.setStack (.handleEvent c false writable :: stack)).push
      (announces c v.conn ++ [.closeCallback c])).readable = 0 := by
    have hnone : (announces c v.conn ++ [Frame.closeCallback c]).countP Frame.readable = 0 := by
      rw [List.countP_append, readable_announces]
      rfl
    rw [Loop.readable_push, hnone]
    omega
  refine
    { duties := by rw [hloop]; exact h.duties
      tearing := ?_
      removals := h.removals
      entry := h.entry
      life := ?_
      state := by simp [perform, onLoop]
      quiet := ?_
      registered := by simp
      readable_le := by rw [hloop, hnoRead]; exact Nat.zero_le 1
      readable := fun _ => by rw [hloop, hnoRead]
      closeCallback := h.closeCallback
      sends := ?_
      callers := h.callers
      destructed := h.destructed }
  · rw [hloop, Loop.tearing_push, List.filter_append, tearing_announces]
    simp only [Loop.tearing, Loop.setStack, List.filter_cons_of_neg, Frame.tearsDown,
      Bool.false_eq_true, not_false_eq_true, htearing]
    rfl
  · show v.life ++ [.handleClose] = _
    rw [h.life]
    rfl
  · intro _
    show v.conn.handleClose.1.channel.isReading = false ∧
      v.conn.handleClose.1.channel.isWriting = false
    simp [Channel.isReading, Channel.isWriting, Events.none]
  · rw [hloop, Loop.sends_push, List.any_append, sends_announces]
    simpa [Frame.sends] using fun hsends => h.sends (hinner.sends (by simp [Frame.sends]) hsends)

/-- The entry goes and `ConnectDestoryed` is queued. -/
theorem At.removeEntry {n : Nat} (loop : Loop) (h : v.At c stage)
    (hstage : stage = .closing ∨ stage = .removing)
    (hpending : loop.pending = v.loop.pending) (htearing : loop.tearing = [])
    (hreadable : loop.readable = v.loop.readable) (hsends : loop.Sends c → v.loop.Sends c)
    (hn : n = 0) :
    ({ v with loop, removals := n }.removeEntry c).At c .destroying := by
  have hne : stage ≠ .up := by
    rintro rfl
    simp at hstage
  have hzero : loop.readable = 0 := hreadable.trans (h.readable hne)
  refine
    { duties := ?_
      tearing := htearing
      removals := hn
      entry := rfl
      life := ?_
      state := fun hstate => absurd (h.state hstate) hne
      quiet := fun _ => h.quiet hne
      registered := by simp
      readable_le := Nat.le_trans (Nat.le_of_eq hzero) (Nat.zero_le 1)
      readable := fun _ => hzero
      closeCallback := h.closeCallback
      sends := ?_
      callers := h.callers
      destructed := h.destructed }
  · have hduties : loop.duties = [] := by
      rw [Loop.duties, hpending]
      obtain rfl | rfl := hstage <;> exact h.duties
    show (loop.queue [.connectDestoryed c]).duties = _
    rw [Loop.duties_queue, hduties]
    rfl
  · obtain rfl | rfl := hstage <;> exact h.life
  · show ¬ (loop.queue [.connectDestoryed c]).Sends c
    rw [Loop.sends_queue]
    simpa using fun hloop => h.sends (hsends hloop)

/-- `CloseCallback_` is called on another loop than the base loop. -/
theorem At.removeThere {stack : List Frame} (h : v.At c stage)
    (hinner : v.Inner (.closeCallback c) stack) :
    At c .removing { v.onLoop (·.setStack stack) with removals := v.removals + 1 } := by
  obtain ⟨⟨rfl, -⟩ | ⟨-, heq⟩, hrest⟩ := h.inner hinner rfl
  · have hzero : (v.loop.setStack stack).readable = 0 :=
      (hinner.readable_eq (by simp [Frame.readable])).trans (h.readable (by simp))
    exact
      { duties := h.duties
        tearing := hrest
        removals := congrArg (· + 1) h.removals
        entry := h.entry
        life := h.life
        state := fun hstate => absurd (h.state hstate) (by simp)
        quiet := fun _ => h.quiet (by simp)
        registered := by simp
        readable_le := Nat.le_trans (Nat.le_of_eq hzero) (Nat.zero_le 1)
        readable := fun _ => hzero
        closeCallback := h.closeCallback
        sends := fun hsends => h.sends (hinner.sends (by simp [Frame.sends]) hsends)
        callers := h.callers
        destructed := h.destructed }
  · simp at heq

/-- `ConnectDestoryed` is called. -/
theorem At.connectDestoryed (h : v.At c stage) (htakes : v.Takes (.connectDestoryed c) loop) :
    ({ v with loop }.connectDestoryed c).At c .finishing := by
  have hduties := h.duties
  rw [htakes.duties_eq rfl] at hduties
  obtain rfl : stage = .destroying := by
    cases stage <;> first | rfl | exact absurd hduties (by simp [Stage.duties])
  have hrest : loop.duties = [] := (List.cons.inj hduties).2
  have hzero : (loop.push [.connectDestoryed c]).readable = 0 := by
    simp [htakes.readable_eq, Frame.readable]
  refine
    { duties := hrest
      tearing := Or.inl ?_
      removals := h.removals
      entry := h.entry
      life := ?_
      state := fun hstate => absurd (h.state hstate) (by simp)
      quiet := fun _ => h.quiet (by simp)
      registered := by simp
      readable_le := Nat.le_trans (Nat.le_of_eq hzero) (Nat.zero_le 1)
      readable := fun _ => hzero
      closeCallback := h.closeCallback
      sends := ?_
      callers := h.callers
      destructed := h.destructed }
  · show (loop.push [.connectDestoryed c]).tearing = _
    simp [Loop.tearing, htakes.stack_eq, Frame.tearsDown, Loop.push]
  · show v.life ++ [.connectDestoryed loop.inPass] = _
    rw [h.life, htakes.inPass_eq]
    rfl
  · show ¬ (loop.push [.connectDestoryed c]).Sends c
    rw [Loop.sends_push]
    simpa [Frame.sends] using fun hsends => h.sends (htakes.sends hsends)

/-- The test of `ConnectDestoryed` finds the connection disconnected. -/
theorem At.test {stack : List Frame} (h : v.At c stage)
    (hinner : v.Inner (.connectDestoryed c) stack) :
    (v.onLoop (·.setStack (.remove c :: stack))).At c .finishing := by
  obtain ⟨⟨-, heq⟩ | ⟨rfl, -⟩, hrest⟩ := h.inner hinner rfl
  · simp at heq
  · have hreadable : (v.loop.setStack (.remove c :: stack)).readable = v.loop.readable :=
      hinner.readable_eq (by simp [Frame.readable])
    refine { h with tearing := Or.inr ?_, readable_le := ?_, readable := ?_, sends := ?_ }
    · show List.filter Frame.tearsDown (.remove c :: stack) = _
      rw [List.filter_cons_of_pos rfl, hrest]
    · exact Nat.le_trans (Nat.le_of_eq hreadable) h.readable_le
    · exact fun hne => hreadable.trans (h.readable hne)
    · exact fun hsends => h.sends (hinner.sends (by simp [Frame.sends]) hsends)

theorem At.remove {stack : List Frame} (h : v.At c stage) (hinner : v.Inner (.remove c) stack) :
    (((v.onLoop (·.setStack stack)).perform c (v.conn.onChannel Channel.remove)).addMilestone
      .destroyed).At c .gone := by
  obtain ⟨⟨-, heq⟩ | ⟨rfl, -⟩, hrest⟩ := h.inner hinner rfl
  · simp at heq
  · have hloop : ((v.onLoop (·.setStack stack)).perform c (v.conn.onChannel Channel.remove)).loop
        = v.loop.setStack stack := remove_loop
    have hzero : (v.loop.setStack stack).readable = 0 :=
      (hinner.readable_eq (by simp [Frame.readable])).trans (h.readable (by simp))
    have hquiet := h.quiet (by simp)
    refine
      { duties := by rw [addMilestone, hloop]; exact h.duties
        tearing := by rw [addMilestone, hloop]; exact hrest
        removals := h.removals
        entry := h.entry
        life := ?_
        state := fun hstate => absurd (h.state hstate) (by simp)
        quiet := fun _ => hquiet
        registered := fun _ => rfl
        readable_le := by rw [addMilestone, hloop, hzero]; exact Nat.zero_le 1
        readable := fun _ => by rw [addMilestone, hloop, hzero]
        closeCallback := h.closeCallback
        sends := ?_
        callers := h.callers
        destructed := h.destructed }
    · show v.life ++ [.destroyed] = _
      rw [h.life]
      rfl
    · rw [addMilestone, hloop]
      exact fun hsends => h.sends (hinner.sends (by simp +contextual) hsends)

/-- A half-close of the users. -/
theorem At.setState (h : v.At c stage) (state : TcpConnection.State) (hstate : state ≠ .connected) :
    At c stage { v with conn := { v.conn with state } } :=
  { h with state := fun heq => absurd heq hstate }

/-! ## Every step -/

theorem At.step (h : v.At c stage) (hallowed : a ≠ .send ∧ a ≠ .destruct) (hstep : Step c v a v') :
    ∃ stage', v'.At c stage' := by
  have hthere := h.destructed
  cases hstep with
  | nothing => exact ⟨stage, h⟩
  | routine hroutine => exact ⟨stage, h.calm hroutine.calm⟩
  | runEstablished htakes => exact ⟨.up, h.connectEstablished htakes⟩
  | runDestoryed htakes => exact ⟨.finishing, h.connectDestoryed htakes⟩
  | readClose hinner => exact ⟨.closing, h.handleClose hinner⟩
  | announce hinner =>
      refine ⟨stage, { h with tearing := ?_, readable_le := ?_, readable := ?_, sends := ?_ }⟩
      · have hstack : v.loop.stack = .announce c :: _ := hinner
        have htearing := h.tearing
        rw [Loop.tearing, hstack, List.filter_cons_of_neg (by simp [Frame.tearsDown])] at htearing
        show stage.Tearing c (List.filter Frame.tearsDown (.callback c :: _))
        rwa [List.filter_cons_of_neg (by simp [Frame.tearsDown])]
      · exact Nat.le_trans (Nat.le_of_eq (hinner.readable_eq (by simp [Frame.readable])))
          h.readable_le
      · intro hne
        exact (hinner.readable_eq (by simp [Frame.readable])).trans (h.readable hne)
      · exact fun hsends => h.sends (hinner.sends (by simp [Frame.sends]) hsends)
  | «return» hinner => exact ⟨stage, h.calm hinner.calm_callback⟩
  | removeHere hinner honBase =>
      obtain ⟨⟨rfl, -⟩ | ⟨-, heq⟩, hrest⟩ := h.inner hinner rfl
      · refine ⟨.destroying, h.removeEntry _ (Or.inl rfl) rfl hrest ?_ ?_ h.removals⟩
        · exact hinner.readable_eq (by simp [Frame.readable])
        · exact hinner.sends (by simp +contextual)
      · simp at heq
  | removeThere hinner honBase => exact ⟨.removing, h.removeThere hinner⟩
  | testOther hinner hstate => exact ⟨.finishing, h.test hinner⟩
  | testConnected hinner hstate =>
      obtain rfl := h.state hstate
      obtain ⟨⟨hne, -⟩ | ⟨hne, -⟩, -⟩ := h.inner hinner rfl <;> cases hne
  | disconnect hinner =>
      obtain ⟨⟨-, heq⟩ | ⟨-, heq⟩, -⟩ := h.inner hinner rfl <;> simp at heq
  | remove hinner => exact ⟨.gone, h.remove hinner⟩
  | @removal n hremovals hdestructed =>
      have hstage := h.removals
      rw [hremovals] at hstage
      obtain rfl : stage = .removing := by
        cases stage <;> first | rfl | exact absurd hstage (by simp [Stage.removals])
      have hn : n = 0 := Nat.succ.inj hstage
      exact ⟨.destroying, h.removeEntry v.loop (Or.inr rfl) rfl h.tearing rfl id hn⟩
  | destroyHere hdestructed | destroyThere hdestructed => simp [hthere] at hdestructed
  | destruct => exact absurd rfl hallowed.2
  | send => exact absurd rfl hallowed.1
  | loopShutdown hreach =>
      rcases perform_shutdown (v := v) (c := c) with heq | ⟨-, heq⟩
      · rw [heq]
        exact ⟨stage, h⟩
      · rw [heq]
        exact ⟨stage, h.setState .disconnecting (by simp)⟩
  | drop hcopies => exact ⟨stage, { h with }⟩
  | queueSend hcaller => exact absurd hcaller h.callers
  | store hcaller =>
      refine ⟨stage, { h.setState .disconnecting (by simp) with callers := ?_ }⟩
      intro hmem
      rcases List.mem_cons.1 hmem with heq | hmem
      · cases heq
      · exact h.callers (List.mem_of_mem_erase hmem)
  | queueShutdown hcaller =>
      refine ⟨stage, { h with duties := ?_, sends := ?_, callers := ?_ }⟩
      · show (v.loop.queue [.shutdownInLoop c]).duties = _
        simpa [Functor.ofLife] using h.duties
      · show ¬ (v.loop.queue [.shutdownInLoop c]).Sends c
        simpa using h.sends
      · exact fun hmem => h.callers (List.mem_of_mem_erase hmem)

theorem Born.at {connection : Bool} (h : Born c connection v) : ∃ stage, v.At c stage := by
  cases h with
  | @queued phase fd writeComplete highWaterMark hactive hfunctors =>
      have hpending : (newborn false phase (.new fd connection writeComplete true
          highWaterMark)).loop.pending = [] := newborn_pending hfunctors
      have hreadable : (newborn false phase (.new fd connection writeComplete true
          highWaterMark)).loop.readable = 0 := newborn_readable hactive
      refine ⟨.queued, ?_, rfl, rfl, rfl, rfl, ?_, ?_, fun _ => rfl, ?_, ?_, rfl, ?_, ?_, rfl⟩
      · simp [onLoop, Loop.duties, hpending, Functor.ofLife, Stage.duties]
      · simp [newborn, onLoop, TcpConnection.new]
      · exact fun _ => ⟨rfl, rfl⟩
      · simp [onLoop, hreadable]
      · simp [onLoop, hreadable]
      · simp [onLoop, newborn_sends hfunctors]
      · simp [newborn, onLoop]
  | @here phase conn fd writeComplete highWaterMark hactive hfunctors hconn =>
      have hpending : (newborn true phase conn).loop.pending = [] := newborn_pending hfunctors
      have hreadable : (newborn true phase conn).loop.readable = 0 := newborn_readable hactive
      have hloop : ((newborn true phase conn).perform c conn.connectEstablished).loop
          = (newborn true phase conn).loop.push (announces c conn) := connectEstablished_loop
      refine ⟨.up, ?_, ?_, rfl, rfl, rfl, ?_, ?_, by simp, ?_, ?_, ?_, ?_, ?_, rfl⟩
      · rw [hloop]
        simp [Loop.duties, hpending, Stage.duties]
      · rw [hloop]
        show (Loop.push _ (announces c conn)).tearing = []
        rw [Loop.tearing_push, tearing_announces]
        rfl
      · exact fun _ => rfl
      · exact fun hne => absurd rfl hne
      · rw [hloop]
        simp [hreadable]
      · exact fun hne => absurd rfl hne
      · rw [hconn]
        rfl
      · rw [hloop, Loop.sends_push, sends_announces]
        simpa using newborn_sends hfunctors
      · simp [newborn, perform, onLoop]

/-- Every stage between the registration and the removal of the channel has an owner. -/
theorem At.held (h : v.At c stage) (hregistered : v.conn.channel.state ≠ .new) :
    v.held c = true := by
  have hentry := h.entry
  have hduties := h.duties
  have htearing := h.tearing
  unfold Handshake.held Loop.owns
  rw [Bool.or_eq_true, Bool.or_eq_true, List.any_eq_true, List.any_eq_true]
  cases stage with
  | queued => exact absurd (h.registered (Or.inl rfl)) hregistered
  | gone => exact absurd (h.registered (Or.inr rfl)) hregistered
  | up | closing | removing => exact Or.inl hentry
  | destroying =>
      have hmem : .connectDestoryed c ∈ v.loop.duties := by
        rw [hduties]
        exact List.mem_cons_self
      have hpending : .connectDestoryed c ∈ v.loop.phase.todo ++ v.loop.functors :=
        (List.mem_filter.1 hmem).1
      refine Or.inr (Or.inl ⟨.connectDestoryed c, ?_, by simp [Functor.holds]⟩)
      rcases List.mem_append.1 hpending with htodo | hfunctors
      · exact List.mem_append_right _ (mem_functors_of_mem_todo htodo)
      · exact List.mem_append_left _ hfunctors
  | finishing =>
      have hmem : ∃ f ∈ v.loop.tearing, Frame.holds f = some c := by
        rcases htearing with heq | heq <;> simp [heq, Frame.holds, Frame.bindsThis, Frame.subject]
      obtain ⟨f, hf, hholds⟩ := hmem
      exact Or.inr (Or.inr ⟨f, (List.mem_filter.1 hf).1, by simp [hholds]⟩)

/-- `RemoveConnectionInLoop` finds the entry. -/
theorem At.entry_of_removing (h : v.At c stage)
    (hremoving : .closeCallback c ∈ v.loop.stack ∨ 0 < v.removals) : v.entry = true := by
  rw [h.entry]
  rcases hremoving with hmem | hpos
  · have htearing : .closeCallback c ∈ v.loop.tearing := List.mem_filter.2 ⟨hmem, rfl⟩
    have hstage := h.tearing
    cases stage with
    | closing => rfl
    | finishing =>
        rcases hstage with heq | heq <;> simp [heq] at htearing
    | queued | up | removing | destroying | gone =>
        have hnone : v.loop.tearing = [] := hstage
        simp [hnone] at htearing
  · rw [h.removals] at hpos
    cases stage with
    | removing => rfl
    | queued | up | closing | destroying | finishing | gone =>
        exact absurd hpos (by simp [Stage.removals])

theorem At.life_prefix (h : v.At c stage) :
    v.life <+: [.handleClose, .connectDestoryed false, .destroyed] := by
  rw [h.life]
  cases stage <;> decide

end Handshake

/-! ## What RemoveConnectionInLoop erases -/

variable {cfg : Config} {s t : TcpServer} {l : LoopId}

theorem named_eq (h : s.Homes cfg) (hc : s.Made c) (hentry : (view cfg s c).entry = true) :
    s.named cfg c = [c] := by
  have hsame : s.connections.filter (·.1 = cfg.connectionName c)
      = s.connections.filter (·.2 = c) := by
    refine List.filter_congr ?_
    intro e he
    obtain ⟨hmade, hname⟩ := h.entries e he
    rw [hname, decide_eq_decide]
    constructor
    · exact connectionName_injective (Nat.lt_of_lt_of_le hmade.2 h.next_le)
        (Nat.lt_of_lt_of_le hc.2 h.next_le)
    · rintro rfl
      rfl
  have hmem : c ∈ s.connections.map (·.2) := by
    obtain ⟨e, he, heq⟩ := List.any_eq_true.1 hentry
    exact List.mem_map.2 ⟨e, he, of_decide_eq_true heq⟩
  have hone : (s.connections.map (·.2)).count c = 1 := List.count_eq_one_of_mem h.nodup hmem
  have hids : (s.connections.filter (·.2 = c)).map (·.2)
      = (s.connections.map (·.2)).filter (· = c) := by
    rw [List.filter_map]
    rfl
  rw [named, hsame, hids, List.filter_eq, hone]
  rfl

/-! ## Runs -/

/-- `send` is called on loop threads only, and the server is not destroyed. -/
def SendsOnLoopThread : TcpServer → Action → Prop
  | _, .send _ => False
  | _, .destruct => False
  | _, _ => True

instance (s : TcpServer) (a : Action) : Decidable (SendsOnLoopThread s a) := by
  unfold SendsOnLoopThread
  split <;> infer_instance

variable {as : List Action}

theorem label_of_sendsOnLoopThread {a : Action} (h : SendsOnLoopThread s a) :
    a.label s c ≠ .send ∧ a.label s c ≠ .destruct := by
  have hlabel := label_of s c a
  refine ⟨?_, ?_⟩
  · intro heq
    rw [heq] at hlabel
    obtain rfl : a = .send c := hlabel
    exact h
  · intro heq
    rw [heq] at hlabel
    obtain rfl : a = .destruct := hlabel
    exact h

theorem at_of_reaches (run : (machine cfg).Reaches SendsOnLoopThread as s) :
    ∀ c, s.Made c → ∃ stage, (view cfg s c).At c stage := by
  refine view_of_reaches (fun c v => ∃ stage, v.At c stage)
    (fun _ _ b _ => b ≠ .send ∧ b ≠ .destruct) run ?_ ?_ ?_
  · exact fun c v h => h.at
  · exact fun s a t c h _ => label_of_sendsOnLoopThread h
  · rintro c v b v' ⟨stage, h⟩ - hallowed hstep
    exact h.step hallowed hstep

/-- A connection whose channel is known to a poller has an owner. `ConnectDestoryed` is called once
    at most, behind `HandleClose` and outside of any pass over `ActiveChannels_`. Every
    `RemoveConnectionInLoop` erases its own connection from `connections_` and no other. -/
theorem teardown_keeps_alive (run : (machine cfg).Reaches SendsOnLoopThread as s) :
    (∀ l fd c, s.channels l fd = some c → s.held cfg c = true) ∧
      (∀ c, s.life c <+: [.handleClose, .connectDestoryed false, .destroyed]) ∧
      ∀ e ∈ s.erased, e.2 = [e.1] := by
  have hhomes := homes_of_reaches run
  refine ⟨?_, ?_, ?_⟩
  · intro l fd c hfd
    have hmade := (hhomes.registeredAt l fd c hfd).1
    obtain ⟨stage, hat⟩ := at_of_reaches run c hmade
    exact held_of_view hhomes hmade (hat.held (hhomes.registered l c fd hfd).2)
  · intro c
    by_cases hmade : s.Made c
    · obtain ⟨stage, hat⟩ := at_of_reaches run c hmade
      exact hat.life_prefix
    · rw [(hhomes.fresh c hmade).2]
      exact List.nil_prefix
  · clear hhomes
    induction run with
    | init hinit =>
        obtain rfl := hinit
        exact fun e he => absurd he (by simp [new])
    | @step as s t a run guard hstep ih =>
        have hhomes := homes_of_reaches run
        cases step_writes hhomes (of_step_machine hstep).2 with
        | nothing _ herased =>
            rw [herased]
            exact ih
        | accept _ _ heq =>
            rw [heq, (books_newConnection _).2]
            exact ih
        | fault _ _ heq =>
            rw [heq]
            exact ih
        | @remove c hmade hremoving _ herased =>
            obtain ⟨stage, hat⟩ := at_of_reaches run c hmade
            have hnamed := named_eq hhomes hmade (hat.entry_of_removing hremoving)
            rw [herased, hnamed]
            intro e he
            rcases List.mem_append.1 he with he | he
            · exact ih e he
            · rw [List.mem_singleton.1 he]

/-- A connection is accepted and its peer closes; `ConnectDestoryed` is left before
    `channel_->remove()`. -/
def peerCloses : List Action :=
  [.poll 0 [.acceptor], .next 0 { fd := some 5 }, .next 0 {},
    -- `ConnectEstablished`
    .poll 1 [], .next 1 {}, .next 1 {}, .next 1 {}, .next 1 {}, .next 1 {},
    -- `HandleClose`
    .poll 1 [.connection 1 true false], .next 1 {}, .next 1 { read := .eof }, .next 1 {},
    .next 1 {}, .next 1 {},
    -- `RemoveConnectionInLoop`
    .poll 0 [], .next 0 {}, .next 0 {}, .next 0 {},
    -- `ConnectDestoryed`
    .next 1 {}, .next 1 {}, .next 1 {}, .next 1 {}]

theorem teardown_keeps_alive_peerCloses :
    ∃ s, (machine twoLoops).Reaches SendsOnLoopThread peerCloses s ∧
      s.channels 1 5 = some 1 ∧ s.held twoLoops 1 = true ∧
      s.life 1 = [.handleClose, .connectDestoryed false] ∧
      s.life 1 <+: [.handleClose, .connectDestoryed false, .destroyed] ∧
      (1, [1]) ∈ s.erased ∧ ∀ e ∈ s.erased, e.2 = [e.1] := by
  obtain ⟨s, run, hchannel, hlife, hmem⟩ := Machine.exists_reaches_of_exec (machine twoLoops)
    SendsOnLoopThread new peerCloses (fun s => s.channels 1 5 = some 1 ∧
      s.life 1 = [.handleClose, .connectDestoryed false] ∧ (1, [1]) ∈ s.erased) rfl (by decide)
  obtain ⟨halive, honce, herased⟩ := teardown_keeps_alive run
  exact ⟨s, run, hchannel, halive 1 5 1 hchannel, hlife, honce 1, hmem, herased⟩

end TcpServer
