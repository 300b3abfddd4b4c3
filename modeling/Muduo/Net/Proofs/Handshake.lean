import Muduo.Net.Proofs.View

set_option autoImplicit false

/-! # A step of the server is a step of the handshake

What a step of the server does to the view of a connection that is made is a step of the handshake
(`step_view`), so what these steps keep holds over whole runs (`view_of_reaches`). -/

namespace TcpServer

variable {cfg : Config} {s t : TcpServer} {l : LoopId} {c c' : ConnId}

/-! ## The steps of start() -/

section

variable {f : Functor} {done todo : List Functor} {a : Active} {active : List Active}
variable {answer : Answer}

variable (cfg) in
theorem view_idle (hl : s.loop c = l) (hstack : (s.loops l).stack = []) :
    (view cfg s c).loop.stack = [] := by
  simp [view, hl, hstack]

theorem view_phase (hl : s.loop c = l) :
    (view cfg s c).loop.phase = (s.loops l).phase.only c := by
  simp [view, hl]

variable (cfg) in
theorem view_setPhase_self (phase : Phase) (hl : s.loop c = l)
    (hcount : phase.todo.count (.removeConnectionInLoop c)
      = (s.loops l).phase.todo.count (.removeConnectionInLoop c)) :
    view cfg (s.onLoop l (·.setPhase phase)) c
      = (view cfg s c).onLoop (·.setPhase (phase.only c)) :=
  view_onLoop_self hl rfl (Loop.removals_setPhase hcount)

variable (cfg) in
theorem view_pass_of_ne (hphase : (s.loops l).phase = .channels (a :: active))
    (ha : a.subject ≠ some c) :
    view cfg (s.onLoop l (·.setPhase (.channels active))) c = view cfg s c := by
  refine view_onLoop_of_same ?_ (Loop.removals_setPhase (by simp [hphase, Phase.todo]))
  simp [Loop.only, Loop.setPhase, hphase, Phase.only, ha]

variable (cfg) in
/-- The next functor of the batch is one of `c`. -/
theorem view_take_self (hl : s.loop c = l) (hstack : (s.loops l).stack = [])
    (hphase : (s.loops l).phase = .callbacks done (f :: todo)) (hf : f.subject = some c) :
    ∃ loop, (view cfg s c).Takes f loop ∧
      view cfg (s.onLoop l (·.setPhase (.callbacks (done ++ [f]) todo))) c
        = { view cfg s c with loop } := by
  have hne : f ≠ .removeConnectionInLoop c := by
    rintro rfl
    cases hf
  refine ⟨_, ⟨view_idle cfg hl hstack, done.filter (·.subject = some c),
    todo.filter (·.subject = some c), ?_, rfl⟩, ?_⟩
  · rw [view_phase hl, hphase]
    simp [Phase.only, hf]
  · rw [view_setPhase_self cfg _ hl (by simp [hphase, Phase.todo, List.count_cons_of_ne hne])]
    simp [Handshake.onLoop, Phase.only, hf]

variable (cfg) in
theorem view_take_of_ne (hphase : (s.loops l).phase = .callbacks done (f :: todo))
    (hf : f.subject ≠ some c) (hne : f ≠ .removeConnectionInLoop c) :
    view cfg (s.onLoop l (·.setPhase (.callbacks (done ++ [f]) todo))) c = view cfg s c := by
  refine view_onLoop_of_same ?_ (Loop.removals_setPhase
    (by simp [hphase, Phase.todo, List.count_cons_of_ne hne]))
  simp [Loop.only, Loop.setPhase, hphase, Phase.only, hf]

theorem view_take_removal
    (hphase : (s.loops cfg.loop).phase = .callbacks done (.removeConnectionInLoop c :: todo)) :
    ∃ n, (view cfg s c).removals = n + 1 ∧
      view cfg (s.onLoop cfg.loop (·.setPhase
        (.callbacks (done ++ [.removeConnectionInLoop c]) todo))) c
        = { view cfg s c with removals := n } := by
  refine ⟨((s.loops cfg.loop).functors ++ todo).count (.removeConnectionInLoop c), ?_, ?_⟩
  · simp [view, Loop.removals, hphase, Phase.todo]
    omega
  · have hloop : (if s.loop c = cfg.loop then ((s.loops cfg.loop).setPhase
          (.callbacks (done ++ [.removeConnectionInLoop c]) todo)).only c
        else (view cfg s c).loop) = (view cfg s c).loop := by
      rw [ite_eq_right_iff]
      intro h
      simp [view, h, Loop.only, Loop.setPhase, hphase, Phase.only, Functor.subject]
    rw [view_onLoop, hloop, if_pos rfl]
    rfl

open Handshake (Step)

theorem step_of_view_eq {b : Handshake.Label} (hview : view cfg t c = view cfg s c) :
    Step c (view cfg s c) b (view cfg t c) := by
  rw [hview]
  exact .nothing

/-- A functor of `c` is run on its loop thread. -/
theorem runFunctor_view_self (hl : s.loop c = l) (hstack : (s.loops l).stack = [])
    (hphase : (s.loops l).phase = .callbacks done (f :: todo)) (hf : f.subject = some c) :
    Step c (view cfg s c) .quiet (view cfg
      ((s.onLoop l (·.setPhase (.callbacks (done ++ [f]) todo))).runFunctor cfg l f) c) := by
  obtain ⟨loop, htakes, hview⟩ := view_take_self cfg hl hstack hphase hf
  cases f with
  | connectEstablished c' =>
      obtain rfl : c' = c := by simpa [Functor.subject] using hf
      simp only [runFunctor, connectEstablished]
      rw [view_perform_self, hview]
      exact .runEstablished htakes
  | connectDestoryed c' =>
      obtain rfl : c' = c := by simpa [Functor.subject] using hf
      simp only [runFunctor]
      rw [view_connectDestoryed_self, hview]
      exact .runDestoryed htakes
  | writeComplete c' =>
      obtain rfl : c' = c := by simpa [Functor.subject] using hf
      simp only [runFunctor]
      rw [view_push_self (by exact hl) rfl, hview]
      exact .routine (.runCallback htakes (Or.inl rfl))
  | highWaterMark c' size =>
      obtain rfl : c' = c := by simpa [Functor.subject] using hf
      simp only [runFunctor]
      rw [view_push_self (by exact hl) rfl, hview]
      exact .routine (.runCallback htakes (Or.inr ⟨size, rfl⟩))
  | sendInLoop c' =>
      obtain rfl : c' = c := by simpa [Functor.subject] using hf
      simp only [runFunctor]
      rw [view_push_self (by exact hl) rfl, hview]
      exact .routine (.runSend htakes)
  | shutdownInLoop c' =>
      obtain rfl : c' = c := by simpa [Functor.subject] using hf
      simp only [runFunctor]
      rw [view_push_self (by exact hl) rfl, hview]
      exact .routine (.runShutdown htakes)
  | removeConnectionInLoop c' | other => cases hf

/-- A functor of another connection, or of nobody, is run. -/
theorem runFunctor_view_of_ne (hf : f.subject ≠ some c)
    (hne : ∀ c', f ≠ .removeConnectionInLoop c') :
    view cfg (s.runFunctor cfg l f) c = view cfg s c := by
  cases f with
  | connectEstablished c' =>
      exact view_perform_of_ne (by simpa [Functor.subject] using hf)
  | connectDestoryed c' =>
      exact view_connectDestoryed_of_ne (by simpa [Functor.subject] using hf)
  | writeComplete c' | highWaterMark c' size | sendInLoop c' | shutdownInLoop c' =>
      exact view_push_of_ne (by simpa [Functor.subject, Frame.subject] using hf)
  | removeConnectionInLoop c' => exact absurd rfl (hne c')
  | other => exact view_push_of_ne (by simp [Frame.subject])

/-- The base loop runs a `RemoveConnectionInLoop`. -/
theorem runRemoval_view (h : s.Homes cfg) (hc : s.Made c) (hc' : s.Made c')
    (hdestructed : s.destructed = false)
    (hphase : (s.loops cfg.loop).phase = .callbacks done (.removeConnectionInLoop c' :: todo)) :
    Step c (view cfg s c) .quiet (view cfg ((s.onLoop cfg.loop (·.setPhase
      (.callbacks (done ++ [.removeConnectionInLoop c']) todo))).runFunctor cfg cfg.loop
        (.removeConnectionInLoop c')) c) := by
  have hnext := h.take hphase
  simp only [runFunctor]
  by_cases hne : c' = c
  · subst hne
    obtain ⟨n, hn, hview⟩ := view_take_removal hphase
    rw [view_removeConnectionInLoop_self hnext hc, hview]
    exact .removal hn hdestructed
  · refine step_of_view_eq ?_
    rw [view_removeConnectionInLoop_of_ne hnext hc hc' hne,
      view_take_of_ne cfg hphase (by simp [Functor.subject]) (by simpa using hne)]

theorem only_doCallback (hphase : (s.loops l).phase = .channels []) :
    (s.loops l).doCallback.only c
        = (if (s.loops l).functors.isEmpty then ((s.loops l).only c).setPhase .poll
          else { (s.loops l).only c with
            functors := []
            phase := .callbacks [] ((s.loops l).only c).functors }) ∧
      (s.loops l).doCallback.removals c = (s.loops l).removals c := by
  unfold Loop.doCallback
  split
  · next hempty =>
      refine ⟨rfl, ?_⟩
      simp [Loop.removals, Loop.setPhase, hphase, Phase.todo]
  · refine ⟨?_, ?_⟩
    · simp [Loop.only, Phase.only]
    · simp [Loop.removals, hphase, Phase.todo]

/-- The pass over `ActiveChannels_` is over. -/
theorem doCallback_view (hstack : (s.loops l).stack = [])
    (hphase : (s.loops l).phase = .channels []) :
    Step c (view cfg s c) .quiet (view cfg (s.onLoop l Loop.doCallback) c) := by
  obtain ⟨honly, hremovals⟩ := only_doCallback (c := c) hphase
  by_cases hl : s.loop c = l
  · have hview : (view cfg s c).loop = (s.loops l).only c := by rw [← hl]; rfl
    have hpass : (view cfg s c).loop.phase = .channels [] := by
      rw [view_phase hl, hphase]
      rfl
    have hidle := view_idle cfg hl hstack
    by_cases hempty : (s.loops l).functors.isEmpty = true
    · rw [if_pos hempty] at honly
      rw [view_onLoop_self (g := (·.setPhase .poll)) hl honly hremovals]
      refine .routine (.passDone hidle hpass ?_)
      rw [hview, Loop.only_functors, List.isEmpty_iff.1 hempty]
      rfl
    · rw [if_neg hempty] at honly
      rw [view_onLoop_self (g := fun loop =>
        { loop with functors := [], phase := .callbacks [] loop.functors }) hl honly hremovals]
      exact .routine (.doCallback hidle hpass)
  · exact step_of_view_eq (view_onLoop_of_ne hl hremovals)

/-- The next channel of the pass. -/
theorem handleActive_view (h : s.Homes cfg) (hc : s.Made c) (hstack : (s.loops l).stack = [])
    (hphase : (s.loops l).phase = .channels (a :: active))
    (hstep : (s.onLoop l (·.setPhase (.channels active))).handleActive cfg l answer a = some t) :
    Step c (view cfg s c) .quiet (view cfg t c) := by
  have hpass := h.pass hphase
  cases a with
  | connection c' readable writable =>
      obtain rfl := Option.some.inj hstep
      by_cases hne : c' = c
      · subst hne
        have hl : s.loop c' = l :=
          ((h.loops l).active (.connection c' readable writable) (by simp [hphase, Phase.active])
            c' rfl).2
        have hview := view_setPhase_self cfg (.channels active) hl
          (by simp [hphase, Phase.todo])
        have hactive : (view cfg s c').loop.phase = .channels
            (.connection c' readable writable :: active.filter (·.subject = some c')) := by
          rw [view_phase hl, hphase]
          simp [Phase.only, Active.subject]
        rw [view_push_self (by exact hl) rfl, hview]
        exact .routine (.handleEvent (view_idle cfg hl hstack) hactive)
      · refine step_of_view_eq ?_
        rw [view_push_of_ne (by simpa [Frame.subject] using hne),
          view_pass_of_ne cfg hphase (by simpa [Active.subject] using hne)]
  | acceptor =>
      refine step_of_view_eq ?_
      have hview := view_pass_of_ne cfg (c := c) hphase (by simp [Active.subject])
      simp only [handleActive] at hstep
      unfold handleAccept at hstep
      split at hstep
      · split at hstep
        · next hok =>
            obtain rfl := Option.some.inj hstep
            rw [view_newConnection_of_ne hpass hok.1 hc, hview]
        · exact absurd hstep (by simp)
      · obtain rfl := Option.some.inj hstep
        exact hview
  | other =>
      obtain rfl := Option.some.inj hstep
      refine step_of_view_eq ?_
      rw [view_push_of_ne (by simp [Frame.subject]),
        view_pass_of_ne cfg hphase (by simp [Active.subject])]

/-- A loop thread that is not in a function is not in `~TcpServer`. -/
theorem gone_of_idle (hstack : (s.loops cfg.loop).stack = []) : s.gone cfg = s.destructed := by
  simp [gone, hstack]

theorem phaseStep_view (h : s.Homes cfg) (hc : s.Made c) (hstack : (s.loops l).stack = [])
    (hfreed : s.freed cfg l = false) (hstep : s.phaseStep cfg l answer = some t) :
    Step c (view cfg s c) .quiet (view cfg t c) := by
  unfold phaseStep at hstep
  split at hstep
  · exact absurd hstep (by simp)
  · next hphase =>
      obtain rfl := Option.some.inj hstep
      exact doCallback_view hstack hphase
  · next a active hphase => exact handleActive_view h hc hstack hphase hstep
  · next done hphase =>
      obtain rfl := Option.some.inj hstep
      have htodo : (Phase.poll.todo).count (.removeConnectionInLoop c)
          = (s.loops l).phase.todo.count (.removeConnectionInLoop c) := by
        simp [hphase, Phase.todo]
      by_cases hl : s.loop c = l
      · rw [view_setPhase_self cfg _ hl htodo]
        have hdone : (view cfg s c).loop.phase
            = .callbacks (done.filter (·.subject = some c)) [] := by
          rw [view_phase hl, hphase]
          rfl
        exact .routine (.batchDone (view_idle cfg hl hstack) hdone)
      · exact step_of_view_eq (view_onLoop_of_ne hl (Loop.removals_setPhase htodo))
  · next done f todo hphase =>
      obtain rfl := Option.some.inj hstep
      have hmem : f ∈ (s.loops l).functors ++ (s.loops l).phase.functors := by
        simp [hphase, Phase.functors]
      by_cases hf : f.subject = some c
      · exact runFunctor_view_self ((h.loops l).subject f hmem c hf).2 hstack hphase hf
      · cases f with
        | removeConnectionInLoop c' =>
            obtain ⟨hc', rfl⟩ := (h.loops l).removal c' hmem
            have hdestructed : s.destructed = false := by
              simpa [freed, hstack, hphase, gone_of_idle hstack] using hfreed
            exact runRemoval_view h hc hc' hdestructed hphase
        | _ =>
            refine step_of_view_eq ?_
            rw [runFunctor_view_of_ne hf (by simp), view_take_of_ne cfg hphase hf (by simp)]

end

/-! ## The steps of the functions in progress -/

/-- What a step of the innermost function is for `c`. -/
def Frame.label (c : ConnId) (answer : Answer) : Frame → Handshake.Label
  | .connectDestoryed c' => if c' = c then .test else .quiet
  | .handleEvent c' true _ => if c' = c ∧ answer.read = .eof then .close else .quiet
  | .callback c' => if c' = c then .release else .quiet
  | _ => .quiet

/-- What a step is for `c`. -/
def Action.label (s : TcpServer) (c : ConnId) : Action → Handshake.Label
  | .next l answer =>
      match (s.loops l).stack with
      | frame :: _ => frame.label c answer
      | [] => .quiet
  | .send c' => if c' = c then .send else .quiet
  | .drop c' => if c' = c then .release else .quiet
  | .goOn c' .shutdownTested => if c' = c then .store else .quiet
  | .destruct => .destruct
  | _ => .quiet

/-- The step that a label stands for. -/
def Handshake.Label.Of (s : TcpServer) (c : ConnId) (a : Action) : Handshake.Label → Prop
  | .quiet => True
  | .test => ∃ l answer stack, a = .next l answer ∧
      (s.loops l).stack = .connectDestoryed c :: stack
  | .close => ∃ l answer writable stack, a = .next l answer ∧ answer.read = .eof ∧
      (s.loops l).stack = .handleEvent c true writable :: stack
  | .release => a = .drop c ∨ ∃ l answer stack, a = .next l answer ∧
      (s.loops l).stack = .callback c :: stack
  | .store => a = .goOn c .shutdownTested
  | .send => a = .send c
  | .destruct => a = .destruct

theorem label_of (s : TcpServer) (c : ConnId) (a : Action) : (a.label s c).Of s c a := by
  cases a with
  | next l answer =>
      simp only [Action.label]
      cases hstack : (s.loops l).stack with
      | nil => trivial
      | cons frame stack =>
          cases frame with
          | handleEvent c' readable writable =>
              cases readable with
              | true =>
                  simp only [Frame.label]
                  split
                  · next h =>
                      obtain ⟨rfl, hread⟩ := h
                      exact ⟨l, answer, writable, stack, rfl, hread, hstack⟩
                  · trivial
              | false => trivial
          | connectDestoryed c' =>
              simp only [Frame.label]
              split
              · next h =>
                  subst h
                  exact ⟨l, answer, stack, rfl, hstack⟩
              · trivial
          | callback c' =>
              simp only [Frame.label]
              split
              · next h =>
                  subst h
                  exact Or.inr ⟨l, answer, stack, rfl, hstack⟩
              · trivial
          | _ => trivial
  | drop c' =>
      simp only [Action.label]
      split
      · next h => exact Or.inl (by rw [h])
      · trivial
  | send c' =>
      simp only [Action.label]
      split
      · next h =>
          subst h
          exact rfl
      · trivial
  | goOn c' caller =>
      cases caller with
      | shutdownTested =>
          simp only [Action.label]
          split
          · next h =>
              subst h
              exact rfl
          · trivial
      | sendTested | shutdownStored => trivial
  | destruct => exact rfl
  | _ => trivial

section

variable {answer : Answer} {frame : Frame} {stack : List Frame}

open Handshake (Step)

variable (cfg) in
theorem view_inner (hl : s.loop c = l) (hstack : (s.loops l).stack = frame :: stack)
    (hf : frame.subject = some c) :
    (view cfg s c).Inner frame (stack.filter (·.subject = some c)) := by
  simp [Handshake.Inner, view, hl, hstack, hf]

/-- What is left of an event of `c`: reading, writing, nothing. -/
theorem handleEvent_view_self {readable writable : Bool} (hl : s.loop c = l)
    (hstack : (s.loops l).stack = .handleEvent c readable writable :: stack)
    (hstep : s.frameStep cfg l answer stack (.handleEvent c readable writable) = some t) :
    Step c (view cfg s c) ((Frame.handleEvent c readable writable).label c answer)
      (view cfg t c) := by
  have hinner := view_inner cfg hl hstack rfl
  cases readable with
  | true =>
      obtain rfl := Option.some.inj hstep
      have hview :
          view cfg (s.onLoop l (·.setStack (.handleEvent c false writable :: stack))) c
          = (view cfg s c).onLoop (·.setStack
              (.handleEvent c false writable :: stack.filter (·.subject = some c))) := by
        rw [view_setStack_self cfg _ hl]
        simp [Frame.subject]
      cases hread : answer.read with
      | message =>
          simp only [headleRead, Frame.label, hread]
          rw [view_push_self (by exact hl) rfl, hview]
          exact .routine (.readMessage hinner)
      | eof =>
          simp only [headleRead, Frame.label, hread]
          rw [view_handleClose_self, hview]
          exact .readClose hinner
      | error =>
          simp only [headleRead, Frame.label, hread]
          rw [hview]
          exact .routine (.readError hinner)
  | false =>
      cases writable with
      | true =>
          obtain rfl := Option.some.inj hstep
          rw [view_perform_self, view_setStack_self cfg _ hl]
          simp only [List.filter_cons, Frame.subject, decide_true, if_true]
          exact .routine (.handleWrite hinner)
      | false =>
          obtain rfl := Option.some.inj hstep
          rw [view_setStack_self cfg _ hl]
          exact .routine (.handled hinner)

/-- `RemoveConnection` on the thread of the server, or on another thread. -/
theorem closeCallback_view_self (h : s.Homes cfg) (hc : s.Made c) (hl : s.loop c = l)
    (hstack : (s.loops l).stack = .closeCallback c :: stack) :
    Step c (view cfg s c) ((Frame.closeCallback c).label c answer)
      (view cfg ((s.onLoop l (·.setStack stack)).removeConnection cfg l c) c) := by
  have hinner := view_inner cfg hl hstack rfl
  have hnext := h.pop hstack
  have hview := view_setStack_self cfg stack hl
  simp only [removeConnection]
  split
  · next hbase =>
      rw [view_removeConnectionInLoop_self hnext hc, hview]
      exact .removeHere hinner (decide_eq_true (hl.trans hbase))
  · next hbase =>
      rw [view_queueInLoop_removal, hview]
      exact .removeThere hinner (decide_eq_false (hl ▸ hbase))

/-- A function of `c` goes on. -/
theorem frameStep_view_self (h : s.Homes cfg) (hc : s.Made c)
    (hstack : (s.loops l).stack = frame :: stack) (hf : frame.subject = some c)
    (hstep : s.frameStep cfg l answer stack frame = some t) :
    Step c (view cfg s c) (frame.label c answer) (view cfg t c) := by
  have hl : s.loop c = l := ((h.loops l).frame frame (by simp [hstack]) c hf).2
  have hinner := view_inner cfg hl hstack hf
  cases frame with
  | handleEvent c' readable writable =>
      obtain rfl : c' = c := by simpa [Frame.subject] using hf
      exact handleEvent_view_self hl hstack hstep
  | announce c' =>
      obtain rfl : c' = c := by simpa [Frame.subject] using hf
      obtain rfl := Option.some.inj hstep
      rw [view_setStack_self cfg _ (by exact hl), view_announce_self]
      simp only [List.filter_cons, Frame.subject, decide_true, if_true]
      exact .announce hinner
  | callback c' =>
      obtain rfl : c' = c := by simpa [Frame.subject] using hf
      obtain rfl := Option.some.inj hstep
      simp only [Frame.label, if_true]
      rw [view_setStack_self cfg _ hl]
      exact .return hinner
  | closeCallback c' =>
      obtain rfl : c' = c := by simpa [Frame.subject] using hf
      obtain rfl := Option.some.inj hstep
      exact closeCallback_view_self h hc hl hstack
  | connectDestoryed c' =>
      obtain rfl : c' = c := by simpa [Frame.subject] using hf
      obtain rfl := Option.some.inj hstep
      simp only [Frame.label, if_true]
      rw [view_setStack_self cfg _ hl]
      split
      · next hstate =>
          simp only [List.filter_cons, Frame.subject, decide_true, if_true]
          exact .testConnected hinner hstate
      · next hstate =>
          simp only [List.filter_cons, Frame.subject, decide_true, if_true]
          exact .testOther hinner hstate
  | disconnect c' =>
      obtain rfl : c' = c := by simpa [Frame.subject] using hf
      obtain rfl := Option.some.inj hstep
      rw [view_perform_self, view_setStack_self cfg _ hl]
      simp only [List.filter_cons, Frame.subject, decide_true, if_true]
      exact .disconnect hinner
  | remove c' =>
      obtain rfl : c' = c := by simpa [Frame.subject] using hf
      obtain rfl := Option.some.inj hstep
      rw [view_addMilestone_self, view_perform_self, view_setStack_self cfg _ hl]
      exact .remove hinner
  | sendInLoop c' done =>
      obtain rfl : c' = c := by simpa [Frame.subject] using hf
      cases done with
      | false =>
          obtain rfl := Option.some.inj hstep
          rw [view_perform_self, view_setStack_self cfg _ hl]
          simp only [List.filter_cons, Frame.subject, decide_true, if_true]
          exact .routine (.sendInLoop hinner)
      | true =>
          obtain rfl := Option.some.inj hstep
          rw [view_setStack_self cfg _ hl]
          exact .routine (.returned hinner (Or.inl rfl))
  | shutdownInLoop c' done =>
      obtain rfl : c' = c := by simpa [Frame.subject] using hf
      cases done with
      | false =>
          obtain rfl := Option.some.inj hstep
          rw [view_perform_self, view_setStack_self cfg _ hl]
          simp only [List.filter_cons, Frame.subject, decide_true, if_true]
          exact .routine (.shutdownInLoop hinner)
      | true =>
          obtain rfl := Option.some.inj hstep
          rw [view_setStack_self cfg _ hl]
          exact .routine (.returned hinner (Or.inr rfl))
  | userCode | destructor => cases hf

variable (cfg) in
/-- A frame of another connection is replaced by one of another connection. -/
theorem view_replace_of_ne (hstack : (s.loops l).stack = frame :: stack)
    (hf : frame.subject ≠ some c) {next : Frame} (hnext : next.subject ≠ some c) :
    view cfg (s.onLoop l (·.setStack (next :: stack))) c = view cfg s c :=
  view_setStack_of_ne hstack hf (by simp [hnext])

theorem handleEvent_view_of_ne {readable writable : Bool}
    (hstack : (s.loops l).stack = .handleEvent c' readable writable :: stack) (hne : c' ≠ c)
    (hstep : s.frameStep cfg l answer stack (.handleEvent c' readable writable) = some t) :
    view cfg t c = view cfg s c := by
  have other (readable writable : Bool) :
      (Frame.handleEvent c' readable writable).subject ≠ some c := by
    simpa [Frame.subject] using hne
  cases readable with
  | true =>
      obtain rfl := Option.some.inj hstep
      have hview := view_replace_of_ne cfg hstack (other _ _) (other false writable)
      cases answer.read with
      | message =>
          simp only [headleRead]
          rw [view_push_of_ne (by simpa [Frame.subject] using hne), hview]
      | eof =>
          simp only [headleRead]
          rw [view_handleClose_of_ne hne, hview]
      | error => exact hview
  | false =>
      cases writable with
      | true =>
          obtain rfl := Option.some.inj hstep
          rw [view_perform_of_ne hne,
            view_replace_of_ne cfg hstack (other _ _) (other false false)]
      | false =>
          obtain rfl := Option.some.inj hstep
          exact view_setStack_of_ne hstack (other _ _) rfl

/-- The destructor destroys a connection of its map, or is through. -/
theorem destructor_view (h : s.Homes cfg) (hstack : (s.loops l).stack = .destructor :: stack)
    (hstep : s.frameStep cfg l answer stack .destructor = some t) :
    Step c (view cfg s c) (Frame.destructor.label c answer) (view cfg t c) := by
  obtain ⟨rfl, hdestructed⟩ := (h.loops l).destructor (by simp [hstack])
  simp only [frameStep] at hstep
  split at hstep
  · obtain rfl := Option.some.inj hstep
    exact step_of_view_eq (view_setStack_of_ne hstack (by simp [Frame.subject]) rfl)
  · split at hstep
    · next hentry =>
        obtain rfl := Option.some.inj hstep
        by_cases hne : answer.entry = c
        · subst hne
          by_cases hl : s.loop answer.entry = cfg.loop
          · rw [view_destroyConnection_self hl]
            refine .destroyHere hdestructed hentry (decide_eq_true hl) ?_
            intro f hf
            have hwaits := (h.loops cfg.loop).waits
            rw [hstack] at hwaits
            simp only [view, hl, Loop.only_stack, hstack, List.mem_filter] at hf
            rcases List.mem_cons.1 hf.1 with rfl | hmem
            · rfl
            · exact hwaits f hmem
          · rw [view_destroyConnection_there hl]
            exact .destroyThere hdestructed hentry (decide_eq_false hl)
        · exact step_of_view_eq (view_destroyConnection_of_ne hne)
    · exact absurd hstep (by simp)

/-- A function of another connection goes on, or one of nobody. -/
theorem frameStep_view_of_ne (h : s.Homes cfg) (hc : s.Made c)
    (hstack : (s.loops l).stack = frame :: stack) (hf : frame.subject ≠ some c)
    (hstep : s.frameStep cfg l answer stack frame = some t) :
    Step c (view cfg s c) (frame.label c answer) (view cfg t c) := by
  have hmade : ∀ c', frame.subject = some c' → s.Made c' := fun c' hc' =>
    ((h.loops l).frame frame (by simp [hstack]) c' hc').1
  have hpop : view cfg (s.onLoop l (·.setStack stack)) c = view cfg s c :=
    view_setStack_of_ne hstack hf rfl
  cases frame with
  | handleEvent c' readable writable =>
      have hne : c' ≠ c := by simpa [Frame.subject] using hf
      exact step_of_view_eq (handleEvent_view_of_ne hstack hne hstep)
  | announce c' =>
      have hne : c' ≠ c := by simpa [Frame.subject] using hf
      obtain rfl := Option.some.inj hstep
      refine step_of_view_eq ?_
      have hstack' : ((s.announce c').loops l).stack = .announce c' :: stack := hstack
      have hcallback : (Frame.callback c').subject ≠ some c := by simpa [Frame.subject] using hne
      rw [view_replace_of_ne cfg hstack' hf hcallback, view_announce_of_ne hne]
  | callback c' | userCode =>
      obtain rfl := Option.some.inj hstep
      exact step_of_view_eq hpop
  | closeCallback c' =>
      have hne : c' ≠ c := by simpa [Frame.subject] using hf
      obtain rfl := Option.some.inj hstep
      refine step_of_view_eq ?_
      simp only [removeConnection]
      split
      · rw [view_removeConnectionInLoop_of_ne (h.pop hstack) hc (hmade c' rfl) hne, hpop]
      · rw [view_queueInLoop_of_ne (by simp [Functor.subject]) (by simpa using hne), hpop]
  | connectDestoryed c' =>
      have hne : c' ≠ c := by simpa [Frame.subject] using hf
      obtain rfl := Option.some.inj hstep
      refine step_of_view_eq (view_replace_of_ne cfg hstack hf ?_)
      split <;> simpa [Frame.subject] using hne
  | disconnect c' =>
      have hne : c' ≠ c := by simpa [Frame.subject] using hf
      obtain rfl := Option.some.inj hstep
      refine step_of_view_eq ?_
      have hremove : (Frame.remove c').subject ≠ some c := by simpa [Frame.subject] using hne
      rw [view_perform_of_ne hne, view_replace_of_ne cfg hstack hf hremove]
  | remove c' =>
      have hne : c' ≠ c := by simpa [Frame.subject] using hf
      obtain rfl := Option.some.inj hstep
      refine step_of_view_eq ?_
      rw [view_addMilestone_of_ne hne, view_perform_of_ne hne, hpop]
  | sendInLoop c' done =>
      have hne : c' ≠ c := by simpa [Frame.subject] using hf
      refine step_of_view_eq ?_
      cases done with
      | false =>
          obtain rfl := Option.some.inj hstep
          rw [view_perform_of_ne hne, view_replace_of_ne cfg hstack hf]
          simpa [Frame.subject] using hne
      | true =>
          obtain rfl := Option.some.inj hstep
          exact hpop
  | shutdownInLoop c' done =>
      have hne : c' ≠ c := by simpa [Frame.subject] using hf
      refine step_of_view_eq ?_
      cases done with
      | false =>
          obtain rfl := Option.some.inj hstep
          rw [view_perform_of_ne hne, view_replace_of_ne cfg hstack hf]
          simpa [Frame.subject] using hne
      | true =>
          obtain rfl := Option.some.inj hstep
          exact hpop
  | destructor => exact destructor_view h hstack hstep

/-! ## Every step -/

variable {a : Action}

theorem reachableBy_view (h : s.reachableBy c = true) :
    0 < (view cfg s c).copies ∨ .callback c ∈ (view cfg s c).loop.stack := by
  unfold reachableBy at h
  rw [Bool.and_eq_true, Bool.or_eq_true, List.any_eq_true, List.any_eq_true] at h
  obtain ⟨-, ⟨c', hc', heq⟩ | ⟨f, hf, heq⟩⟩ := h
  · exact Or.inl (List.count_pos_iff.2 (of_decide_eq_true heq ▸ hc'))
  · obtain rfl := of_decide_eq_true heq
    exact Or.inr (List.mem_filter.2 ⟨hf, by simp [Frame.subject]⟩)

variable (cfg) in
theorem copies_pos (hmem : c ∈ s.users) : ∃ n, (view cfg s c).copies = n + 1 :=
  Nat.exists_eq_add_one.2 (List.count_pos_iff.2 hmem)

/-- A channel is reported once. -/
theorem filter_subject {active : List Active} (h : (active.filterMap Active.subject).Nodup) :
    active.filter (·.subject = some c) = [] ∨
      ∃ readable writable, active.filter (·.subject = some c)
        = [.connection c readable writable] := by
  have hsubject : ∀ a ∈ active.filter (·.subject = some c), a.subject = some c := by
    intro a ha
    exact of_decide_eq_true (List.mem_filter.1 ha).2
  have hnodup : ((active.filter (·.subject = some c)).filterMap Active.subject).Nodup :=
    (List.filter_sublist.filterMap Active.subject).nodup h
  cases hfilter : active.filter (·.subject = some c) with
  | nil => exact Or.inl rfl
  | cons a rest =>
      rw [hfilter] at hsubject hnodup
      have ha : a.subject = some c := hsubject a List.mem_cons_self
      have hrest : rest = [] := by
        refine List.eq_nil_iff_forall_not_mem.2 ?_
        intro b hb
        rw [List.filterMap_cons_some ha] at hnodup
        refine (List.nodup_cons.1 hnodup).1 (List.mem_filterMap.2 ⟨b, hb, ?_⟩)
        exact hsubject b (List.mem_cons_of_mem _ hb)
      cases a with
      | connection c' readable writable =>
          obtain rfl : c' = c := by simpa [Active.subject] using ha
          exact Or.inr ⟨readable, writable, by rw [hrest]⟩
      | acceptor | other => cases ha

theorem poll_view {active : List Active} (hstack : (s.loops l).stack = [])
    (hphase : (s.loops l).phase = .poll) (hpolls : s.polls cfg l active = true) :
    Step c (view cfg s c) .quiet (view cfg (s.onLoop l (·.setPhase (.channels active))) c) := by
  have hcount : (Phase.channels active).todo.count (.removeConnectionInLoop c)
      = (s.loops l).phase.todo.count (.removeConnectionInLoop c) := by
    simp [hphase, Phase.todo]
  by_cases hl : s.loop c = l
  · rw [view_setPhase_self cfg _ hl hcount]
    refine .routine (.poll (view_idle cfg hl hstack) ?_ ?_)
    · rw [view_phase hl, hphase]
      rfl
    · refine (filter_subject (polls_nodup hpolls)).imp_right ?_
      rintro ⟨readable, writable, hfilter⟩
      have hmem : .connection c readable writable ∈ active := by
        have hone : .connection c readable writable ∈ active.filter (·.subject = some c) := by
          rw [hfilter]
          exact List.mem_cons_self
        exact (List.mem_filter.1 hone).1
      obtain ⟨-, hstate, hreading, hwriting⟩ := polls_connection hpolls hmem
      exact ⟨readable, writable, hfilter, hstate, hreading, hwriting⟩
  · exact step_of_view_eq (view_onLoop_of_ne hl (Loop.removals_setPhase hcount))

/-- The calls in progress on `c`. -/
def callersOf (c : ConnId) (callers : List (ConnId × Caller)) : List Caller :=
  (callers.filter (·.1 = c)).map (·.2)

theorem callersOf_cons (c' : ConnId) (caller : Caller) (callers : List (ConnId × Caller)) :
    callersOf c ((c', caller) :: callers)
      = if c' = c then caller :: callersOf c callers else callersOf c callers := by
  unfold callersOf
  split
  · next heq => simp [heq]
  · next hne => simp [hne]

theorem callersOf_erase (c' : ConnId) (caller : Caller) (callers : List (ConnId × Caller)) :
    callersOf c (callers.erase (c', caller))
      = if c' = c then (callersOf c callers).erase caller else callersOf c callers := by
  induction callers with
  | nil => simp [callersOf]
  | cons e callers ih =>
      obtain ⟨d, k⟩ := e
      by_cases heq : (d, k) = (c', caller)
      · obtain ⟨rfl, rfl⟩ := Prod.mk.inj heq
        rw [List.erase_cons_head, callersOf_cons]
        split <;> simp
      · rw [List.erase_cons_tail (by simpa using heq), callersOf_cons, callersOf_cons, ih]
        by_cases hc' : c' = c <;> by_cases hd : d = c
        · have hk : ¬ k = caller := fun hk => heq (by rw [hd, hc', hk])
          simp [hc', hd, List.erase_cons_tail, hk]
        · simp [hc', hd]
        · simp [hc', hd]
        · simp [hc', hd]

variable (cfg) in
theorem mem_callersOf {caller : Caller} (hmem : (c, caller) ∈ s.callers) :
    caller ∈ (view cfg s c).callers :=
  List.mem_map.2 ⟨(c, caller), List.mem_filter.2 ⟨hmem, by simp⟩, rfl⟩

theorem view_setUsers {users : List ConnId} {callers : List (ConnId × Caller)} :
    view cfg (s.setUsers users callers) c
      = { view cfg s c with copies := users.count c, callers := callersOf c callers } := rfl

/-- The users hold what they held of `c`. -/
theorem view_setUsers_of_same {users : List ConnId} {callers : List (ConnId × Caller)}
    (husers : users.count c = s.users.count c)
    (hcallers : callersOf c callers = callersOf c s.callers) :
    view cfg (s.setUsers users callers) c = view cfg s c := by
  rw [view_setUsers, husers, hcallers]
  rfl

theorem view_setState_self {state : TcpConnection.State} :
    view cfg (s.setState c state) c
      = { view cfg s c with conn := { (view cfg s c).conn with state } } := by
  simp only [view, setState, Function.update_self]
  rfl

theorem view_setState_of_ne {state : TcpConnection.State} (h : c' ≠ c) :
    view cfg (s.setState c' state) c = view cfg s c := by
  simp only [view, setState, Function.update_of_ne (Ne.symm h)]
  rfl

theorem test_view {caller : Caller} {b : Handshake.Label}
    (hcall : c' = c → caller = .sendTested ∧ b = .send ∨ caller = .shutdownTested ∧ b = .quiet)
    (hstep : s.test c' caller = some t) : Step c (view cfg s c) b (view cfg t c) := by
  unfold TcpServer.test at hstep
  split at hstep
  · next hmem =>
      split at hstep
      · next hstate =>
          obtain rfl := Option.some.inj hstep
          by_cases hne : c' = c
          · subst hne
            obtain ⟨n, hn⟩ := copies_pos cfg hmem
            have hcount : (s.users.erase c').count c' = n := by
              rw [List.count_erase_self]
              have hcopies : s.users.count c' = n + 1 := hn
              omega
            rw [view_setUsers, hcount, callersOf_cons, if_pos rfl]
            obtain ⟨rfl, rfl⟩ | ⟨rfl, rfl⟩ := hcall rfl
            · exact .send hn hstate
            · exact .routine (.shutdown hn hstate)
          · refine step_of_view_eq (view_setUsers_of_same ?_ ?_)
            · exact List.count_erase_of_ne (Ne.symm hne)
            · rw [callersOf_cons, if_neg hne]
      · obtain rfl := Option.some.inj hstep
        exact .nothing
  · exact absurd hstep (by simp)

theorem callerStep_view {caller : Caller} (hmem : (c', caller) ∈ s.callers) :
    Step c (view cfg s c) ((Action.goOn c' caller).label s c)
      (view cfg (s.callerStep c' caller) c) := by
  by_cases hne : c' = c
  · subst hne
    have hview := mem_callersOf cfg hmem
    cases caller with
    | sendTested =>
        simp only [callerStep]
        rw [view_queueInLoop_self (by rfl) rfl, view_setUsers, List.count_cons_self,
          callersOf_erase, if_pos rfl]
        exact .queueSend hview
    | shutdownStored =>
        simp only [callerStep]
        rw [view_queueInLoop_self (by rfl) rfl, view_setUsers, List.count_cons_self,
          callersOf_erase, if_pos rfl]
        exact .queueShutdown hview
    | shutdownTested =>
        simp only [callerStep, Action.label, if_true]
        rw [view_setState_self, view_setUsers, callersOf_cons, if_pos rfl, callersOf_erase,
          if_pos rfl]
        exact .store hview
  · refine step_of_view_eq ?_
    cases caller with
    | sendTested | shutdownStored =>
        simp only [callerStep]
        rw [view_queueInLoop_of_ne (by simpa [Functor.subject] using hne) (by simp)]
        refine view_setUsers_of_same ?_ ?_
        · exact List.count_cons_of_ne hne
        · rw [callersOf_erase, if_neg hne]
    | shutdownTested =>
        simp only [callerStep]
        rw [view_setState_of_ne hne]
        refine view_setUsers_of_same rfl ?_
        rw [callersOf_cons, if_neg hne, callersOf_erase, if_neg hne]

/-- A step of the server is a step of every connection that is made. -/
theorem step_view (h : s.Homes cfg) (hc : s.Made c) (hstep : s.step cfg a = some t) :
    Step c (view cfg s c) (a.label s c) (view cfg t c) := by
  cases a with
  | poll l active =>
      simp only [TcpServer.step, Option.ite_none_right_eq_some, Option.some.injEq] at hstep
      obtain ⟨⟨hstack, hphase, hpolls⟩, rfl⟩ := hstep
      exact poll_view hstack hphase hpolls
  | next l answer =>
      simp only [TcpServer.step] at hstep
      split at hstep
      · obtain rfl := Option.some.inj hstep
        exact step_of_view_eq rfl
      · next hfreed =>
          split at hstep
          · next hstack =>
              simp only [Action.label, hstack]
              exact phaseStep_view h hc hstack (Bool.of_not_eq_true hfreed) hstep
          · next frame stack hstack =>
              simp only [Action.label, hstack]
              by_cases hf : frame.subject = some c
              · exact frameStep_view_self h hc hstack hf hstep
              · exact frameStep_view_of_ne h hc hstack hf hstep
  | outside l =>
      simp only [TcpServer.step, Option.ite_none_right_eq_some, Option.some.injEq] at hstep
      obtain ⟨-, rfl⟩ := hstep
      exact step_of_view_eq (view_push_of_ne (by simp [Frame.subject]))
  | loopSend c' data w =>
      simp only [TcpServer.step, Option.ite_none_right_eq_some, Option.some.injEq] at hstep
      obtain ⟨hreach, rfl⟩ := hstep
      by_cases hne : c' = c
      · subst hne
        rw [view_perform_self]
        exact .routine (.loopSend (reachableBy_view hreach))
      · exact step_of_view_eq (view_perform_of_ne hne)
  | loopShutdown c' =>
      simp only [TcpServer.step, Option.ite_none_right_eq_some, Option.some.injEq] at hstep
      obtain ⟨hreach, rfl⟩ := hstep
      by_cases hne : c' = c
      · subst hne
        rw [view_perform_self]
        exact .loopShutdown (reachableBy_view hreach)
      · exact step_of_view_eq (view_perform_of_ne hne)
  | copy l =>
      simp only [TcpServer.step] at hstep
      split at hstep
      · next c' stack hstack =>
          obtain rfl := Option.some.inj hstep
          by_cases hne : c' = c
          · subst hne
            have hl := ((h.loops l).frame (.callback c') (by simp [hstack]) c' rfl).2
            have hinner := view_inner cfg hl hstack rfl
            rw [view_setUsers, List.count_cons_self]
            refine .routine (.copy (Or.inr ?_))
            rw [hinner]
            exact List.mem_cons_self
          · exact step_of_view_eq (view_setUsers_of_same (List.count_cons_of_ne hne) rfl)
      · exact absurd hstep (by simp)
  | clone c' =>
      simp only [TcpServer.step, Option.ite_none_right_eq_some, Option.some.injEq] at hstep
      obtain ⟨hmem, rfl⟩ := hstep
      by_cases hne : c' = c
      · subst hne
        rw [view_setUsers, List.count_cons_self]
        exact .routine (.copy (Or.inl (List.count_pos_iff.2 hmem)))
      · exact step_of_view_eq (view_setUsers_of_same (List.count_cons_of_ne hne) rfl)
  | drop c' =>
      simp only [TcpServer.step, Option.ite_none_right_eq_some, Option.some.injEq] at hstep
      obtain ⟨hmem, rfl⟩ := hstep
      by_cases hne : c' = c
      · subst hne
        obtain ⟨n, hn⟩ := copies_pos cfg hmem
        have hcount : (s.users.erase c').count c' = n := by
          rw [List.count_erase_self]
          have hcopies : s.users.count c' = n + 1 := hn
          omega
        simp only [Action.label, if_true]
        rw [view_setUsers, hcount]
        exact .drop hn
      · exact step_of_view_eq (view_setUsers_of_same (List.count_erase_of_ne (Ne.symm hne)) rfl)
  | send c' =>
      refine test_view ?_ hstep
      rintro rfl
      exact Or.inl ⟨rfl, by simp [Action.label]⟩
  | shutdown c' => exact test_view (fun _ => Or.inr ⟨rfl, rfl⟩) hstep
  | goOn c' caller =>
      simp only [TcpServer.step, Option.ite_none_right_eq_some, Option.some.injEq] at hstep
      obtain ⟨hmem, rfl⟩ := hstep
      exact callerStep_view hmem
  | queueOther l =>
      obtain rfl := Option.some.inj hstep
      exact step_of_view_eq (view_queueInLoop_of_ne (by simp [Functor.subject]) (by simp))
  | destruct =>
      simp only [TcpServer.step, Option.ite_none_right_eq_some, Option.some.injEq] at hstep
      obtain ⟨⟨-, hdestructed⟩, rfl⟩ := hstep
      rw [view_push_of_ne (by simp [Frame.subject])]
      exact .destruct (by rw [Bool.not_eq_true'] at hdestructed; exact hdestructed)

end

/-! ## Owners -/

theorem functors_only (phase : Phase) :
    (phase.only c).functors = phase.functors.filter (·.subject = some c) := by
  cases phase <;> simp [Phase.only, Phase.functors]

theorem owns_of_only {loop : Loop} (h : (loop.only c).owns c = true) : loop.owns c = true := by
  unfold Loop.owns at h ⊢
  rw [Bool.or_eq_true, List.any_eq_true, List.any_eq_true] at h ⊢
  refine h.imp ?_ ?_
  · rintro ⟨f, hf, hholds⟩
    rw [Loop.only_functors, Loop.only_phase, functors_only, ← List.filter_append] at hf
    exact ⟨f, (List.mem_filter.1 hf).1, hholds⟩
  · rintro ⟨f, hf, hholds⟩
    exact ⟨f, (List.mem_filter.1 hf).1, hholds⟩

/-- What holds the connection in its view holds it in the server. -/
theorem held_of_view (h : s.Homes cfg) (hc : s.Made c) (hheld : (view cfg s c).held c = true) :
    s.held cfg c = true := by
  unfold Handshake.held at hheld
  unfold held
  rw [Bool.or_eq_true] at hheld ⊢
  refine hheld.imp id ?_
  intro howns
  exact List.any_eq_true.2 ⟨s.loop c, h.pool c hc, owns_of_only howns⟩

/-! ## Every run -/

section

variable {answer : Answer} {frame : Frame} {stack : List Frame} {f : Functor} {a : Action}

/-- The connections whose entries carry the name of `c`. -/
def named (cfg : Config) (s : TcpServer) (c : ConnId) : List ConnId :=
  (s.connections.filter (·.1 = cfg.connectionName c)).map (·.2)

/-- What `NewConnection` deals from, and whether the server is at fault. -/
def books (s : TcpServer) : Nat × Nat × (ConnId → LoopId) × Bool :=
  (s.nextConnectionId, s.next, s.loop, s.fault)

/-- What a step writes into the books and adds to the connections that are erased. -/
inductive Writes (cfg : Config) (s : TcpServer) (a : Action) (t : TcpServer) : Prop
  | nothing (hbooks : t.books = s.books) (herased : t.erased = s.erased)
  | accept {l : LoopId} {active : List Active} {fd : Nat}
      (hphase : (s.loops l).phase = .channels (.acceptor :: active))
      (hdestructed : s.destructed = false)
      (heq : t = (s.onLoop l (·.setPhase (.channels active))).newConnection cfg fd)
  | remove {c : ConnId} (hmade : s.Made c)
      (hremoving : .closeCallback c ∈ (view cfg s c).loop.stack ∨ 0 < (view cfg s c).removals)
      (hbooks : t.books = s.books) (herased : t.erased = s.erased ++ [(c, s.named cfg c)])
  | fault {l : LoopId} {answer : Answer} (ha : a = .next l answer)
      (hfreed : s.freed cfg l = true) (heq : t = { s with fault := true })

theorem books_newConnection (fd : Nat) :
    (s.newConnection cfg fd).books = (s.insertConnection cfg fd).books ∧
      (s.newConnection cfg fd).erased = s.erased := by
  simp only [newConnection]
  split <;> exact ⟨rfl, rfl⟩

theorem writes_frameStep (h : s.Homes cfg) (hstack : (s.loops l).stack = frame :: stack)
    (hstep : s.frameStep cfg l answer stack frame = some t) : s.Writes cfg a t := by
  cases frame with
  | closeCallback c =>
      obtain rfl := Option.some.inj hstep
      obtain ⟨hmade, hl⟩ := (h.loops l).frame (.closeCallback c) (by simp [hstack]) c rfl
      unfold removeConnection
      split
      · refine .remove hmade (Or.inl ?_) rfl rfl
        have hinner := view_inner cfg hl hstack rfl
        rw [hinner]
        exact List.mem_cons_self
      · exact .nothing rfl rfl
  | handleEvent c readable writable =>
      cases readable with
      | true =>
          obtain rfl := Option.some.inj hstep
          cases answer.read <;> exact .nothing rfl rfl
      | false =>
          cases writable <;>
          · obtain rfl := Option.some.inj hstep
            exact .nothing rfl rfl
  | destructor =>
      simp only [frameStep] at hstep
      split at hstep
      · obtain rfl := Option.some.inj hstep
        exact .nothing rfl rfl
      · split at hstep
        · obtain rfl := Option.some.inj hstep
          unfold destroyConnection
          dsimp only
          split <;> exact .nothing rfl rfl
        · exact absurd hstep (by simp)
  | sendInLoop c done | shutdownInLoop c done =>
      cases done <;>
      · obtain rfl := Option.some.inj hstep
        exact .nothing rfl rfl
  | _ =>
      obtain rfl := Option.some.inj hstep
      exact .nothing rfl rfl

theorem writes_phaseStep (h : s.Homes cfg) (hstack : (s.loops l).stack = [])
    (hfreed : s.freed cfg l = false) (hstep : s.phaseStep cfg l answer = some t) :
    s.Writes cfg a t := by
  unfold phaseStep at hstep
  split at hstep
  · exact absurd hstep (by simp)
  · obtain rfl := Option.some.inj hstep
    exact .nothing rfl rfl
  · next a active hphase =>
      cases a with
      | acceptor =>
          have hl := (h.loops l).acceptor (by simp [hphase, Phase.active])
          have hdestructed : s.destructed = false := by
            simpa [freed, hstack, hphase, gone_of_idle (hl ▸ hstack)] using hfreed
          simp only [handleActive] at hstep
          unfold handleAccept at hstep
          split at hstep
          · split at hstep
            · exact .accept hphase hdestructed (Option.some.inj hstep).symm
            · exact absurd hstep (by simp)
          · obtain rfl := Option.some.inj hstep
            exact .nothing rfl rfl
      | connection c' readable writable =>
          obtain rfl := Option.some.inj hstep
          exact .nothing rfl rfl
      | other =>
          obtain rfl := Option.some.inj hstep
          exact .nothing rfl rfl
  · obtain rfl := Option.some.inj hstep
    exact .nothing rfl rfl
  · next done f todo hphase =>
      obtain rfl := Option.some.inj hstep
      cases f with
      | removeConnectionInLoop c =>
          have hmem : .removeConnectionInLoop c ∈
              (s.loops l).functors ++ (s.loops l).phase.functors := by
            simp [hphase, Phase.functors]
          obtain ⟨hmade, rfl⟩ := (h.loops l).removal c hmem
          obtain ⟨n, hn, -⟩ := view_take_removal hphase
          exact .remove hmade (Or.inr (hn ▸ Nat.succ_pos n)) rfl rfl
      | _ => exact .nothing rfl rfl

theorem step_writes (h : s.Homes cfg) (hstep : s.step cfg a = some t) : s.Writes cfg a t := by
  cases a with
  | next l answer =>
      simp only [TcpServer.step] at hstep
      split at hstep
      · next hfreed => exact .fault rfl hfreed (Option.some.inj hstep).symm
      · next hfreed =>
          split at hstep
          · next hstack =>
              exact writes_phaseStep h hstack (Bool.of_not_eq_true hfreed) hstep
          · next frame stack hstack => exact writes_frameStep h hstack hstep
  | copy l =>
      simp only [TcpServer.step] at hstep
      split at hstep
      · obtain rfl := Option.some.inj hstep
        exact .nothing rfl rfl
      · exact absurd hstep (by simp)
  | send c' | shutdown c' =>
      simp only [TcpServer.step, TcpServer.test] at hstep
      split at hstep
      · split at hstep <;>
        · obtain rfl := Option.some.inj hstep
          exact .nothing rfl rfl
      · exact absurd hstep (by simp)
  | goOn c' caller =>
      simp only [TcpServer.step, Option.ite_none_right_eq_some, Option.some.injEq] at hstep
      obtain ⟨-, rfl⟩ := hstep
      cases caller <;> exact .nothing rfl rfl
  | queueOther l =>
      obtain rfl := Option.some.inj hstep
      exact .nothing rfl rfl
  | _ =>
      simp only [TcpServer.step, Option.ite_none_right_eq_some, Option.some.injEq] at hstep
      obtain ⟨-, rfl⟩ := hstep
      exact .nothing rfl rfl

/-- A step that works on no freed object is not the one that is at fault. -/
theorem fault_step (h : s.Homes cfg) (hstep : s.step cfg a = some t)
    (hlive : ∀ l answer, a = .next l answer → s.freed cfg l = false) : t.fault = s.fault := by
  cases step_writes h hstep with
  | nothing hbooks | remove _ _ hbooks => exact congrArg (·.2.2.2) hbooks
  | accept _ _ heq =>
      subst heq
      exact congrArg (·.2.2.2) (books_newConnection _).1
  | fault ha hfreed => exact absurd hfreed (by simp [hlive _ _ ha])

/-- Connections are made by the acceptor. -/
theorem step_made (h : s.Homes cfg) (hstep : s.step cfg a = some t) (hc : t.Made c) :
    s.Made c ∨ Handshake.Born c cfg.connectionCallback (view cfg t c) := by
  cases step_writes h hstep with
  | accept hphase hdestructed heq =>
      subst heq
      rcases made_newConnection hc with hold | rfl
      · exact Or.inl hold
      · exact Or.inr (born_newConnection (h.pass hphase) hdestructed)
  | nothing hbooks | remove _ _ hbooks =>
      have hnext : t.nextConnectionId = s.nextConnectionId := congrArg Prod.fst hbooks
      exact Or.inl ⟨hc.1, hnext ▸ hc.2⟩
  | fault _ _ heq =>
      subst heq
      exact Or.inl hc

/-- What a connection is born with and every step of the handshake keeps holds of every connection
    that is made. -/
theorem view_of_reaches {ok : TcpServer → Action → Prop} {as : List Action}
    (Good : ConnId → Handshake → Prop)
    (allowed : ConnId → Handshake → Handshake.Label → Handshake → Prop)
    (run : (machine cfg).Reaches ok as s)
    (hborn : ∀ c v, Handshake.Born c cfg.connectionCallback v → Good c v)
    (hok : ∀ s a t c, ok s a → s.step cfg a = some t →
      allowed c (view cfg s c) (a.label s c) (view cfg t c))
    (hstep : ∀ c v b v', Good c v → v.loop.Orderly → allowed c v b v' →
      Handshake.Step c v b v' → Good c v') : ∀ c, s.Made c → Good c (view cfg s c) := by
  induction run with
  | init hinit =>
      obtain rfl := hinit
      intro c hc
      exact absurd hc.2 (Nat.not_lt.2 hc.1)
  | @step as s t a run guard h ih =>
      intro c hc
      have hhomes := homes_of_reaches run
      obtain ⟨-, h⟩ := of_step_machine h
      rcases step_made hhomes h hc with hold | hnew
      · exact hstep c _ _ _ (ih c hold) (orderly_view hhomes) (hok s a t c guard h)
          (step_view hhomes hold h)
      · exact hborn c _ hnew

end

/-- A base loop and one loop of the pool, every callback set. -/
def twoLoops : Config where
  name := ['e', 'c', 'h', 'o']
  listenAddr := ⟨(127, 0, 0, 1), 7⟩
  loop := 0
  loops := [1]
  connectionCallback := true
  writeCompleteCallback := true
  highWaterMarkCallback := true

end TcpServer
