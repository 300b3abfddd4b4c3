import Muduo.Net.Proofs.TcpServer

set_option autoImplicit false

/-! # The server as its connections see it

Every functor and every function in progress is in the loop of its connection, so what a connection
sees of a server (`TcpServer.view`) is found in two loops. Each function of the server does to the
view of its own connection what the handshake has for it, and nothing to the view of another. -/

namespace TcpServer

variable {cfg : Config} {s t : TcpServer} {l : LoopId} {c c' : ConnId}

/-! ## What is about one connection -/

def Phase.only (c : ConnId) : Phase → Phase
  | .poll => .poll
  | .channels active => .channels (active.filter (·.subject = some c))
  | .callbacks done todo =>
      .callbacks (done.filter (·.subject = some c)) (todo.filter (·.subject = some c))

namespace Loop

variable {loop : Loop}

def only (c : ConnId) (loop : Loop) : Loop where
  functors := loop.functors.filter (·.subject = some c)
  phase := loop.phase.only c
  stack := loop.stack.filter (·.subject = some c)

def removals (c : ConnId) (loop : Loop) : Nat :=
  (loop.functors ++ loop.phase.todo).count (.removeConnectionInLoop c)

@[simp] theorem queue_nil : loop.queue [] = loop := by simp [queue]

@[simp] theorem push_nil : loop.push [] = loop := rfl

@[simp] theorem only_queue (fs : List Functor) :
    (loop.queue fs).only c = (loop.only c).queue (fs.filter (·.subject = some c)) := by
  simp [only, queue]

@[simp] theorem only_push (fs : List Frame) :
    (loop.push fs).only c = (loop.only c).push (fs.filter (·.subject = some c)) := by
  simp [only, push]

@[simp] theorem only_setPhase (phase : Phase) :
    (loop.setPhase phase).only c = (loop.only c).setPhase (phase.only c) := rfl

@[simp] theorem only_setStack (stack : List Frame) :
    (loop.setStack stack).only c = (loop.only c).setStack (stack.filter (·.subject = some c)) := rfl

@[simp] theorem only_functors :
    (loop.only c).functors = loop.functors.filter (·.subject = some c) := rfl

@[simp] theorem only_phase : (loop.only c).phase = loop.phase.only c := rfl

@[simp] theorem only_stack : (loop.only c).stack = loop.stack.filter (·.subject = some c) := rfl

@[simp] theorem inPass_only : (loop.only c).inPass = loop.inPass := by
  cases h : loop.phase <;> simp [inPass, h, Phase.only]

@[simp] theorem removals_queue (fs : List Functor) :
    (loop.queue fs).removals c = loop.removals c + fs.count (.removeConnectionInLoop c) := by
  simp only [removals, queue, List.count_append]
  omega

@[simp] theorem removals_push (fs : List Frame) : (loop.push fs).removals c = loop.removals c := rfl

@[simp] theorem removals_setStack (stack : List Frame) :
    (loop.setStack stack).removals c = loop.removals c := rfl

theorem removals_setPhase {phase : Phase}
    (h : phase.todo.count (.removeConnectionInLoop c)
      = loop.phase.todo.count (.removeConnectionInLoop c)) :
    (loop.setPhase phase).removals c = loop.removals c := by
  simp [removals, setPhase, h]

end Loop

/-- What `c` sees of the server. -/
def view (cfg : Config) (s : TcpServer) (c : ConnId) : Handshake where
  loop := (s.loops (s.loop c)).only c
  onBase := s.loop c = cfg.loop
  removals := (s.loops cfg.loop).removals c
  entry := s.connections.any (·.2 = c)
  conn := s.conn c
  copies := s.users.count c
  callers := (s.callers.filter (·.1 = c)).map (·.2)
  destructed := s.destructed
  announced := s.announced c
  life := s.life c

theorem view_onLoop (f : Loop → Loop) :
    view cfg (s.onLoop l f) c = { view cfg s c with
      loop := if s.loop c = l then (f (s.loops l)).only c else (view cfg s c).loop
      removals :=
        if cfg.loop = l then (f (s.loops l)).removals c else (view cfg s c).removals } := by
  unfold view onLoop
  simp only [Function.update_apply]
  split <;> split <;> rfl

/-- What leaves the number of the `RemoveConnectionInLoop`s as it is. -/
theorem view_onLoop_loop {f : Loop → Loop}
    (hremovals : (f (s.loops l)).removals c = (s.loops l).removals c) :
    view cfg (s.onLoop l f) c = { view cfg s c with
      loop := if s.loop c = l then (f (s.loops l)).only c else (view cfg s c).loop } := by
  have hcount : (if cfg.loop = l then (f (s.loops l)).removals c else (view cfg s c).removals)
      = (view cfg s c).removals := by
    rw [hremovals, ite_eq_right_iff]
    rintro rfl
    rfl
  rw [view_onLoop, hcount]

/-- What is not about `c`. -/
theorem view_onLoop_of_same {f : Loop → Loop} (honly : (f (s.loops l)).only c = (s.loops l).only c)
    (hremovals : (f (s.loops l)).removals c = (s.loops l).removals c) :
    view cfg (s.onLoop l f) c = view cfg s c := by
  have hloop : (if s.loop c = l then (f (s.loops l)).only c else (view cfg s c).loop)
      = (view cfg s c).loop := by
    rw [honly, ite_eq_right_iff]
    rintro rfl
    rfl
  rw [view_onLoop_loop hremovals, hloop]

/-- What is in another loop. -/
theorem view_onLoop_of_ne {f : Loop → Loop} (hl : s.loop c ≠ l)
    (hremovals : (f (s.loops l)).removals c = (s.loops l).removals c) :
    view cfg (s.onLoop l f) c = view cfg s c := by
  rw [view_onLoop_loop hremovals, if_neg hl]

/-- What is about `c`, in its loop. -/
theorem view_onLoop_self {f g : Loop → Loop} (hl : s.loop c = l)
    (honly : (f (s.loops l)).only c = g ((s.loops l).only c))
    (hremovals : (f (s.loops l)).removals c = (s.loops l).removals c) :
    view cfg (s.onLoop l f) c = (view cfg s c).onLoop g := by
  rw [view_onLoop_loop hremovals, if_pos hl, honly, ← hl]
  rfl

/-- Only the innermost function is on its way to a call. -/
def Loop.Orderly (loop : Loop) : Prop := ∀ f ∈ loop.stack.tail, f.waits = true

theorem tail_filter {α : Type} {p : α → Bool} {xs : List α} {x : α}
    (h : x ∈ (xs.filter p).tail) : x ∈ xs.tail := by
  cases xs with
  | nil => simp at h
  | cons y ys =>
      rw [List.filter_cons] at h
      split at h
      · exact (List.mem_filter.1 h).1
      · exact (List.mem_filter.1 (List.mem_of_mem_tail h)).1

theorem orderly_view (h : s.Homes cfg) : (view cfg s c).loop.Orderly := by
  intro f hf
  exact (h.loops (s.loop c)).waits f (tail_filter hf)

/-! ## What queueing and calling do to a view -/

section

variable {f : Functor} {frame : Frame} {stack stack' : List Frame}

theorem view_queueInLoop_self (hl : s.loop c = l) (hf : f.subject = some c) :
    view cfg (s.queueInLoop l f) c = (view cfg s c).onLoop (·.queue [f]) := by
  have hne : f ≠ .removeConnectionInLoop c := by
    rintro rfl
    cases hf
  exact view_onLoop_self hl (by simp [hf]) (by simp [hne])

theorem view_queueInLoop_of_ne (hf : f.subject ≠ some c) (hne : f ≠ .removeConnectionInLoop c) :
    view cfg (s.queueInLoop l f) c = view cfg s c :=
  view_onLoop_of_same (by simp [hf]) (by simp [hne])

theorem view_queueInLoop_removal :
    view cfg (s.queueInLoop cfg.loop (.removeConnectionInLoop c)) c
      = { view cfg s c with removals := (view cfg s c).removals + 1 } := by
  have hloop : (if s.loop c = cfg.loop then
        ((s.loops cfg.loop).queue [.removeConnectionInLoop c]).only c
      else (view cfg s c).loop) = (view cfg s c).loop := by
    rw [ite_eq_right_iff]
    intro h
    simp [Functor.subject, view, h]
  rw [queueInLoop, view_onLoop, hloop]
  simp [view]

variable (cfg stack) in
theorem view_setStack_self (hl : s.loop c = l) :
    view cfg (s.onLoop l (·.setStack stack)) c
      = (view cfg s c).onLoop (·.setStack (stack.filter (·.subject = some c))) :=
  view_onLoop_self hl (by simp) (by simp)

/-- The innermost function goes on, and is not one of `c`. -/
theorem view_setStack_of_ne
    (hstack : (s.loops l).stack = frame :: stack) (hne : frame.subject ≠ some c)
    (hsame : stack'.filter (·.subject = some c) = stack.filter (·.subject = some c)) :
    view cfg (s.onLoop l (·.setStack stack')) c = view cfg s c := by
  refine view_onLoop_of_same ?_ (by simp)
  simp [Loop.only, Loop.setStack, hstack, hsame, hne]

theorem view_push_self (hl : s.loop c = l) (hf : frame.subject = some c) :
    view cfg (s.onLoop l (·.push [frame])) c = (view cfg s c).onLoop (·.push [frame]) :=
  view_onLoop_self hl (by simp [hf]) (by simp)

theorem view_push_of_ne (hf : frame.subject ≠ some c) :
    view cfg (s.onLoop l (·.push [frame])) c = view cfg s c :=
  view_onLoop_of_same (by simp [hf]) (by simp)

end

/-! ## What the functions of a connection do to a view -/

section

variable {r : TcpConnection × List TcpConnection.Effect} {f : Functor} {m : Milestone}

/-- What `c'` leaves behind is about `c'`. -/
theorem filter_of_subject {α β : Type} {g : α → Option β} {subject : β → Option ConnId}
    (hg : ∀ {a b}, g a = some b → subject b = some c') (as : List α) :
    (as.filterMap g).filter (subject · = some c) = if c' = c then as.filterMap g else [] := by
  split
  · next h =>
      subst h
      refine List.filter_eq_self.2 ?_
      intro b hb
      obtain ⟨a, -, ha⟩ := List.mem_filterMap.1 hb
      simpa using hg ha
  · next h =>
      refine List.filter_eq_nil_iff.2 ?_
      intro b hb
      obtain ⟨a, -, ha⟩ := List.mem_filterMap.1 hb
      simpa [hg ha] using h

theorem filter_queuedBy (es : List TcpConnection.Effect) :
    (es.filterMap (queuedBy c')).filter (·.subject = some c)
      = if c' = c then es.filterMap (queuedBy c') else [] :=
  filter_of_subject subject_of_queuedBy es

theorem filter_calledBy (es : List TcpConnection.Effect) :
    (es.filterMap (calledBy c')).filter (·.subject = some c)
      = if c' = c then es.filterMap (calledBy c') else [] :=
  filter_of_subject subject_of_calledBy es

theorem count_queuedBy (es : List TcpConnection.Effect) :
    (es.filterMap (queuedBy c')).count (.removeConnectionInLoop c) = 0 := by
  refine List.count_eq_zero.2 ?_
  intro hmem
  obtain ⟨e, -, he⟩ := List.mem_filterMap.1 hmem
  exact absurd (subject_of_queuedBy he) (by simp [Functor.subject])

theorem view_perform_self : view cfg (s.perform c r) c = (view cfg s c).perform c r := by
  unfold perform
  rw [view_onLoop_self rfl (g := fun loop => (loop.queue (r.2.filterMap (queuedBy c))).push
      (r.2.filterMap (calledBy c))) (by simp [filter_queuedBy, filter_calledBy])
    (by simp [count_queuedBy])]
  simp only [view, Function.update_self]
  rfl

theorem view_perform_of_ne (h : c' ≠ c) : view cfg (s.perform c' r) c = view cfg s c := by
  unfold perform
  rw [view_onLoop_of_same (by simp [filter_queuedBy, filter_calledBy, h])
    (by simp [count_queuedBy])]
  simp only [view, Function.update_of_ne (Ne.symm h)]

theorem view_addMilestone_self :
    view cfg (s.addMilestone c m) c = (view cfg s c).addMilestone m := by
  simp only [view, addMilestone, Function.update_self]
  rfl

theorem view_addMilestone_of_ne (h : c' ≠ c) :
    view cfg (s.addMilestone c' m) c = view cfg s c := by
  simp only [view, addMilestone, Function.update_of_ne (Ne.symm h)]
  rfl

theorem view_announce_self :
    view cfg (s.announce c) c = { view cfg s c with
      announced := (view cfg s c).announced ++ [(view cfg s c).conn.state] } := by
  simp only [view, announce, Function.update_self]
  rfl

theorem view_announce_of_ne (h : c' ≠ c) : view cfg (s.announce c') c = view cfg s c := by
  simp only [view, announce, Function.update_of_ne (Ne.symm h)]
  rfl

theorem view_connectDestoryed_self :
    view cfg (s.connectDestoryed c) c = (view cfg s c).connectDestoryed c := by
  unfold connectDestoryed Handshake.connectDestoryed
  have hloop : (s.addMilestone c (.connectDestoryed (s.loops (s.loop c)).inPass)).loop c
      = s.loop c := rfl
  rw [view_push_self hloop rfl, view_addMilestone_self]
  simp [view]

theorem view_connectDestoryed_of_ne (h : c' ≠ c) :
    view cfg (s.connectDestoryed c') c = view cfg s c := by
  unfold connectDestoryed
  rw [view_push_of_ne (by simpa [Frame.subject] using h), view_addMilestone_of_ne h]

theorem view_handleClose_self :
    view cfg (s.handleClose c) c = ((view cfg s c).addMilestone .handleClose).perform c
      (s.conn c).handleClose := by
  rw [handleClose, view_perform_self, view_addMilestone_self]

theorem view_handleClose_of_ne (h : c' ≠ c) :
    view cfg (s.handleClose c') c = view cfg s c := by
  rw [handleClose, view_perform_of_ne h, view_addMilestone_of_ne h]

end

/-! ## What the functions of the server do to a view -/

section

variable {f : Functor} {fd : Nat}

/-- Entries go. -/
theorem view_filterConnections (p : List Char × ConnId → Bool)
    (erased : List (ConnId × List ConnId)) (hp : ∀ e ∈ s.connections, e.2 = c → p e = true) :
    view cfg { s with connections := s.connections.filter p, erased := erased } c
      = view cfg s c := by
  have hentry : (s.connections.filter p).any (·.2 = c) = s.connections.any (·.2 = c) := by
    rw [Bool.eq_iff_iff, List.any_eq_true, List.any_eq_true]
    constructor
    · rintro ⟨e, he, heq⟩
      exact ⟨e, (List.mem_filter.1 he).1, heq⟩
    · rintro ⟨e, he, heq⟩
      exact ⟨e, List.mem_filter.2 ⟨he, hp e he (of_decide_eq_true heq)⟩, heq⟩
  simp only [view, hentry]

theorem view_eraseConnections (p : List Char × ConnId → Bool) (erased : List (ConnId × List ConnId))
    (hp : ∀ e ∈ s.connections, e.2 = c → p e = false) :
    view cfg { s with connections := s.connections.filter p, erased := erased } c
      = { view cfg s c with entry := false } := by
  have hentry : (s.connections.filter p).any (·.2 = c) = false := by
    rw [List.any_eq_false]
    intro e he
    obtain ⟨hmem, hpe⟩ := List.mem_filter.1 he
    intro heq
    exact absurd hpe (by simp [hp e hmem (of_decide_eq_true heq)])
  simp only [view, hentry]

theorem view_removeConnectionInLoop_self (h : s.Homes cfg) (hc : s.Made c) :
    view cfg (s.removeConnectionInLoop cfg c) c = (view cfg s c).removeEntry c := by
  unfold removeConnectionInLoop eraseConnection
  rw [view_queueInLoop_self (s := { s with
      connections := _
      erased := _ }) rfl rfl, view_eraseConnections]
  · rfl
  · rintro e he rfl
    simpa using (h.entries e he).2

theorem view_removeConnectionInLoop_of_ne (h : s.Homes cfg) (hc : s.Made c) (hc' : s.Made c')
    (hne : c' ≠ c) : view cfg (s.removeConnectionInLoop cfg c') c = view cfg s c := by
  unfold removeConnectionInLoop eraseConnection
  rw [view_queueInLoop_of_ne (by simpa [Functor.subject] using hne) (by simp),
    view_filterConnections]
  rintro e he rfl
  have hname := (h.entries e he).2
  have hdiff : cfg.connectionName e.2 ≠ cfg.connectionName c' := by
    intro heq
    exact hne (connectionName_injective (Nat.lt_of_lt_of_le hc.2 h.next_le)
      (Nat.lt_of_lt_of_le hc'.2 h.next_le) heq).symm
  simpa [hname] using hdiff

theorem view_destroyConnection_self (hentry : s.loop c = l) :
    view cfg (s.destroyConnection l c) c
      = { view cfg s c with entry := false }.connectDestoryed c := by
  simp only [destroyConnection]
  rw [if_pos hentry, view_connectDestoryed_self,
    view_eraseConnections (fun e => e.2 ≠ c) s.erased (by simp)]

theorem view_destroyConnection_there (hl : s.loop c ≠ l) :
    view cfg (s.destroyConnection l c) c = (view cfg s c).removeEntry c := by
  simp only [destroyConnection]
  rw [if_neg hl, view_queueInLoop_self (by rfl) rfl,
    view_eraseConnections (fun e => e.2 ≠ c) s.erased (by simp)]
  rfl

theorem view_destroyConnection_of_ne (hne : c' ≠ c) :
    view cfg (s.destroyConnection l c') c = view cfg s c := by
  have hfilter : view cfg { s with connections := s.connections.filter (·.2 ≠ c') } c
      = view cfg s c :=
    view_filterConnections _ s.erased (by
      rintro e - rfl
      simpa using Ne.symm hne)
  simp only [destroyConnection]
  split
  · rw [view_connectDestoryed_of_ne hne, hfilter]
  · rw [view_queueInLoop_of_ne (by simpa [Functor.subject] using hne) (by simp), hfilter]

theorem view_insertConnection_of_ne (h : s.Homes cfg) (hnext : s.nextConnectionId < 2 ^ 31)
    (hc : s.Made c) : view cfg (s.insertConnection cfg fd) c = view cfg s c := by
  have hne : c ≠ s.nextConnectionId := Nat.ne_of_lt hc.2
  have hentry : (s.insertConnection cfg fd).connections.any (·.2 = c)
      = s.connections.any (·.2 = c) := by
    have hfilter : view cfg { s with
        connections := s.connections.filter (·.1 ≠ cfg.connectionName s.nextConnectionId) } c
          = view cfg s c := view_filterConnections _ s.erased ?_
    · have hany := congrArg Handshake.entry hfilter
      simpa [insertConnection, view, Ne.symm hne] using hany
    · rintro e he rfl
      have hname := (h.entries e he).2
      have hdiff : cfg.connectionName e.2 ≠ cfg.connectionName s.nextConnectionId := by
        intro heq
        exact hne (connectionName_injective (Nat.lt_of_lt_of_le hc.2 h.next_le) hnext heq)
      simpa [hname] using hdiff
  have hconn : (s.insertConnection cfg fd).conn c = s.conn c := Function.update_of_ne hne _ _
  have hloop : (s.insertConnection cfg fd).loop c = s.loop c := Function.update_of_ne hne _ _
  simp only [view, hentry, hconn, hloop]
  rfl

theorem view_newConnection_of_ne (h : s.Homes cfg) (hnext : s.nextConnectionId < 2 ^ 31)
    (hc : s.Made c) : view cfg (s.newConnection cfg fd) c = view cfg s c := by
  have hne : s.nextConnectionId ≠ c := Nat.ne_of_gt hc.2
  simp only [newConnection]
  split
  · rw [connectEstablished, view_perform_of_ne hne, view_insertConnection_of_ne h hnext hc]
  · rw [view_queueInLoop_of_ne (by simpa [Functor.subject] using hne) (by simp),
      view_insertConnection_of_ne h hnext hc]

theorem made_newConnection (hc : (s.newConnection cfg fd).Made c) :
    s.Made c ∨ c = s.nextConnectionId := by
  have hlt : c < s.nextConnectionId + 1 := by
    simp only [newConnection] at hc
    split at hc <;> exact hc.2
  rcases Nat.lt_succ_iff_lt_or_eq.1 hlt with hlt | heq
  · exact Or.inl ⟨hc.1, hlt⟩
  · exact Or.inr heq

/-- Nothing is about a connection that is not made. -/
theorem only_of_not_made (h : s.Homes cfg) (hc : ¬ s.Made c) :
    ∃ phase : Phase, phase.active = [] ∧ phase.functors = [] ∧
      (s.loops l).only c = ⟨[], phase, []⟩ := by
  have hloop := h.loops l
  have hfunctor : ∀ f ∈ (s.loops l).functors ++ (s.loops l).phase.functors, f.subject ≠ some c :=
    fun f hf hsubject => hc (hloop.subject f hf c hsubject).1
  have hfunctors : (s.loops l).functors.filter (·.subject = some c) = [] := by
    rw [List.filter_eq_nil_iff]
    intro f hf
    simpa using hfunctor f (List.mem_append_left _ hf)
  have hstack : (s.loops l).stack.filter (·.subject = some c) = [] := by
    rw [List.filter_eq_nil_iff]
    intro f hf hsubject
    exact hc (hloop.frame f hf c (of_decide_eq_true hsubject)).1
  refine ⟨(s.loops l).phase.only c, ?_, ?_, ?_⟩
  · cases hphase : (s.loops l).phase with
    | channels active =>
        simp only [Phase.only, Phase.active, List.filter_eq_nil_iff]
        intro a ha hsubject
        exact hc (hloop.active a (by simpa [hphase, Phase.active] using ha) c
          (of_decide_eq_true hsubject)).1
    | poll | callbacks => rfl
  · cases hphase : (s.loops l).phase with
    | callbacks done todo =>
        simp only [Phase.only, Phase.functors, ← List.filter_append, List.filter_eq_nil_iff]
        intro f hf
        simpa using hfunctor f
          (List.mem_append_right _ (by simpa [hphase, Phase.functors] using hf))
    | poll | channels => rfl
  · simp only [Loop.only, hfunctors, hstack]

theorem mem_functors_of_mem_todo {phase : Phase} (h : f ∈ phase.todo) : f ∈ phase.functors := by
  cases phase with
  | callbacks done todo => exact List.mem_append_right done h
  | poll | channels => exact absurd h (by simp [Phase.todo])

/-- What is put into `connections_`, before `ConnectEstablished`. -/
theorem view_insertConnection_self (h : s.Homes cfg) (fd : Nat)
    (hdestructed : s.destructed = false) :
    ∃ phase : Phase, phase.active = [] ∧ phase.functors = [] ∧
      view cfg (s.insertConnection cfg fd) s.nextConnectionId
        = .newborn ((cfg.getNextLoop s.next).1 = cfg.loop) phase
            (.new fd cfg.connectionCallback cfg.writeCompleteCallback true
              cfg.highWaterMarkCallback) := by
  have hnot : ¬ s.Made s.nextConnectionId := fun hmade => Nat.lt_irrefl _ hmade.2
  obtain ⟨phase, hactive, hfunctors, honly⟩ :=
    only_of_not_made (l := (cfg.getNextLoop s.next).1) h hnot
  refine ⟨phase, hactive, hfunctors, ?_⟩
  have hremovals : (s.loops cfg.loop).removals s.nextConnectionId = 0 := by
    refine List.count_eq_zero.2 ?_
    intro hmem
    refine hnot ((h.loops cfg.loop).removal _ ?_).1
    rcases List.mem_append.1 hmem with hmem | hmem
    · exact List.mem_append_left _ hmem
    · exact List.mem_append_right _ (mem_functors_of_mem_todo hmem)
  have hcopies : s.users.count s.nextConnectionId = 0 :=
    List.count_eq_zero.2 fun hmem => hnot (h.users _ hmem)
  have hcallers : s.callers.filter (·.1 = s.nextConnectionId) = [] := by
    rw [List.filter_eq_nil_iff]
    intro e he heq
    exact hnot (of_decide_eq_true heq ▸ h.callers e he)
  obtain ⟨hannounced, hlife⟩ := h.fresh _ hnot
  simp [view, insertConnection, Handshake.newborn, honly, hremovals, hcopies, hcallers,
    hannounced, hlife, hdestructed]

theorem born_newConnection (h : s.Homes cfg) (hdestructed : s.destructed = false) :
    Handshake.Born s.nextConnectionId cfg.connectionCallback
      (view cfg (s.newConnection cfg fd) s.nextConnectionId) := by
  obtain ⟨phase, hactive, hfunctors, hview⟩ := view_insertConnection_self h fd hdestructed
  have hloop : (s.insertConnection cfg fd).loop s.nextConnectionId = (cfg.getNextLoop s.next).1 :=
    Function.update_self _ _ _
  have hconn : (s.insertConnection cfg fd).conn s.nextConnectionId
      = .new fd cfg.connectionCallback cfg.writeCompleteCallback true cfg.highWaterMarkCallback :=
    Function.update_self _ _ _
  simp only [newConnection]
  split
  · next hbase =>
      rw [connectEstablished, view_perform_self, hview, hconn, decide_eq_true hbase]
      exact .here hactive hfunctors rfl
  · next hbase =>
      rw [view_queueInLoop_self hloop rfl, hview, decide_eq_false hbase]
      exact .queued hactive hfunctors

end

end TcpServer
