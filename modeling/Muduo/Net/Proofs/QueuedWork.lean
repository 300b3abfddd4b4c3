import Muduo.Net.Proofs.Routine

set_option autoImplicit false

/-! # Queued work and the life of its connection

The functors of `SendInLoop` and `ShutdownInLoop` hold nothing, so it takes another owner to keep
the connection until they have run. The protocol of the teardown never fails them: where it takes
the entry of `connections_` away it queues `ConnectDestoryed` behind them, which `DoCallback` keeps
until its batch is over. What fails them is a user that gives up the last copy when no such owner
is left, be it before they run or while they do (`HoldsGivenUpCovered`). -/

namespace TcpServer

/-- The functors that call back with the connection. -/
def Functor.callsBack : Functor → Bool
  | .writeComplete _ => true
  | .highWaterMark _ _ => true
  | _ => false

variable {c : ConnId}

namespace Handshake

variable {v v' : Handshake} {a : Label} {f : Functor} {loop : Loop}

/-- An owner of the connection that the teardown does not take away: the entry of `connections_`,
    the users, or one of these functors. -/
def covers (c : ConnId) (v : Handshake) (functors : List Functor) : Bool :=
  v.entry || v.used || functors.any (·.holds = some c)

/-- A callback of the connection is in progress or comes in this batch, and its code may make a
    copy. -/
def mayCopy (c : ConnId) (v : Handshake) : Bool :=
  v.loop.stack.any (· = .callback c) || v.loop.phase.todo.any Functor.callsBack

/-- A function that is bound to the connection is in progress or comes in this batch. -/
def runs (c : ConnId) (v : Handshake) : Bool :=
  v.loop.stack.any (·.bindsThis = some c) || v.loop.phase.todo.any (·.bindsThis = some c)

/-- Whatever is bound to the connection and has not returned has an owner that is kept until then,
    or may still get one. A functor of the batch has run before the batch is destroyed, one of
    `functors_` is run in the next batch. -/
def Covered (c : ConnId) (v : Handshake) : Prop :=
  (∀ f ∈ v.loop.functors, f.bindsThis = some c →
      v.covers c v.loop.functors = true ∨ v.mayCopy c = true) ∧
    (v.runs c = true → v.covers c (v.loop.functors ++ v.loop.phase.functors) = true)

instance : Decidable (Covered c v) := by
  unfold Covered
  infer_instance

theorem covers_of_kept (h : v.entry = true ∨ v.used = true) (functors : List Functor) :
    v.covers c functors = true := by
  unfold covers
  rw [Bool.or_eq_true, Bool.or_eq_true]
  exact Or.inl h

theorem covers_of_mem {functors : List Functor} (hmem : f ∈ functors) (hholds : f.holds = some c) :
    v.covers c functors = true := by
  unfold covers
  rw [Bool.or_eq_true, List.any_eq_true]
  exact Or.inr ⟨f, hmem, by simp [hholds]⟩

theorem covers_mono {functors functors' : List Functor}
    (hkept : v.entry = true ∨ v.used = true → v'.entry = true ∨ v'.used = true)
    (hsub : functors ⊆ functors') (h : v.covers c functors = true) :
    v'.covers c functors' = true := by
  unfold covers at h ⊢
  rw [Bool.or_eq_true, Bool.or_eq_true, List.any_eq_true] at h ⊢
  refine h.imp hkept ?_
  rintro ⟨f, hf, hholds⟩
  exact ⟨f, hsub hf, hholds⟩

theorem mayCopy_iff : v.mayCopy c = true ↔
    .callback c ∈ v.loop.stack ∨ ∃ f ∈ v.loop.phase.todo, f.callsBack = true := by
  unfold mayCopy
  rw [Bool.or_eq_true, List.any_eq_true, List.any_eq_true]
  simp

theorem runs_iff : v.runs c = true ↔ (∃ f ∈ v.loop.stack, f.bindsThis = some c) ∨
    ∃ f ∈ v.loop.phase.todo, f.bindsThis = some c := by
  unfold runs
  rw [Bool.or_eq_true, List.any_eq_true, List.any_eq_true]
  simp

theorem covered_of_kept (h : v.entry = true ∨ v.used = true) : Covered c v :=
  ⟨fun _ _ _ => Or.inl (covers_of_kept h _), fun _ => covers_of_kept h _⟩

/-- A functor that owns the connection is queued. -/
theorem covered_of_mem (hmem : f ∈ v.loop.functors) (hholds : f.holds = some c) : Covered c v :=
  ⟨fun _ _ _ => Or.inl (covers_of_mem hmem hholds),
    fun _ => covers_of_mem (List.mem_append_left _ hmem) hholds⟩

/-- No owner goes, and what is queued is not bound to the connection. -/
theorem Covered.mono {functors : List Functor} (h : Covered c v)
    (hkept : v.entry = true ∨ v.used = true → v'.entry = true ∨ v'.used = true)
    (hcopy : v.mayCopy c = true → v'.mayCopy c = true)
    (hqueued : v'.loop.functors = v.loop.functors ++ functors)
    (hfree : ∀ f ∈ functors, f.bindsThis = none)
    (hruns : v'.runs c = true →
      v.runs c = true ∧ v.loop.phase.functors ⊆ v'.loop.phase.functors) : Covered c v' := by
  have hsub : v.loop.functors ⊆ v'.loop.functors := by
    rw [hqueued]
    exact List.subset_append_left _ _
  constructor
  · intro f hf hbinds
    rw [hqueued] at hf
    rcases List.mem_append.1 hf with hf | hf
    · exact (h.1 f hf hbinds).imp (covers_mono hkept hsub) hcopy
    · simp [hfree f hf] at hbinds
  · intro hrun
    obtain ⟨hbefore, hfunctors⟩ := hruns hrun
    refine covers_mono hkept ?_ (h.2 hbefore)
    exact List.append_subset.2 ⟨List.subset_append_of_subset_left _ hsub,
      List.subset_append_of_subset_right _ hfunctors⟩

theorem Takes.functors_eq (h : v.Takes f loop) :
    loop.functors = v.loop.functors ∧ loop.phase.functors = v.loop.phase.functors ∧
      v.loop.phase.todo = f :: loop.phase.todo := by
  obtain ⟨-, done, todo, hphase, rfl⟩ := h
  refine ⟨rfl, ?_, ?_⟩
  · simp [Loop.setPhase, Phase.functors, hphase]
  · simp [Loop.setPhase, Phase.todo, hphase]

/-- A functor of the batch is taken. What it calls is bound to the connection only if it is. -/
theorem Covered.take (h : Covered c v) (htakes : v.Takes f loop) (frames : List Frame)
    (hback : f.callsBack = true → .callback c ∈ frames)
    (hbinds : ∀ frame ∈ frames, frame.bindsThis = some c → f.bindsThis = some c) :
    Covered c ({ v with loop }.onLoop (·.push frames)) := by
  obtain ⟨hsame, hbatch, htodo⟩ := htakes.functors_eq
  have hstack : ({ v with loop }.onLoop (·.push frames)).loop.stack = frames := by
    simp [onLoop, Loop.push, htakes.stack_eq]
  refine h.mono id ?_ (hsame.trans (List.append_nil _).symm) (by simp) ?_
  · rw [mayCopy_iff, mayCopy_iff, htakes.stack, htodo]
    rintro (hmem | ⟨g, hg, hcalls⟩)
    · simp at hmem
    · rcases List.mem_cons.1 hg with rfl | hg
      · exact Or.inl (hstack.symm ▸ hback hcalls)
      · exact Or.inr ⟨g, hg, hcalls⟩
  · rw [runs_iff, runs_iff, htodo]
    refine fun hrun => ⟨Or.inr ?_, fun g hg => hbatch.symm ▸ hg⟩
    rcases hrun with ⟨frame, hframe, hbound⟩ | ⟨g, hg, hbound⟩
    · exact ⟨f, List.mem_cons_self, hbinds frame (hstack ▸ hframe) hbound⟩
    · exact ⟨g, List.mem_cons_of_mem _ hg, hbound⟩

/-- The innermost function goes on or returns, and is no callback. -/
theorem Covered.inner {frame : Frame} {stack : List Frame} (h : Covered c v)
    (hinner : v.Inner frame stack) (hframe : frame ≠ .callback c) (frames : List Frame)
    (hbinds : ∀ g ∈ frames, g.bindsThis = some c → frame.bindsThis = some c) :
    Covered c (v.onLoop (·.setStack (frames ++ stack))) := by
  have hstack : v.loop.stack = frame :: stack := hinner
  refine h.mono id ?_ (List.append_nil _).symm (by simp) ?_
  · rw [mayCopy_iff, mayCopy_iff, hstack]
    refine Or.imp_left fun hmem => List.mem_append_right _ ?_
    exact List.mem_of_ne_of_mem (Ne.symm hframe) hmem
  · rw [runs_iff, runs_iff, hstack]
    refine fun hrun => ⟨hrun.imp_left ?_, List.Subset.refl _⟩
    rintro ⟨g, hg, hbound⟩
    rcases List.mem_append.1 hg with hg | hg
    · exact ⟨frame, List.mem_cons_self, hbinds g hg hbound⟩
    · exact ⟨g, List.mem_cons_of_mem _ hg, hbound⟩

theorem unbound_calledBy {e : TcpConnection.Effect} {frame : Frame}
    (h : calledBy c e = some frame) : frame.bindsThis = none := by
  cases e with
  | connectionCallback | closeCallback =>
      obtain rfl := Option.some.inj h
      rfl
  | _ => cases h

/-- What a function of the connection queues and calls is not bound to it. -/
theorem Covered.perform {r : TcpConnection × List TcpConnection.Effect} (h : Covered c v) :
    Covered c (v.perform c r) := by
  have hqueued : (v.perform c r).loop.functors
      = v.loop.functors ++ r.2.filterMap (queuedBy c) := rfl
  refine h.mono id ?_ hqueued ?_ ?_
  · rw [mayCopy_iff, mayCopy_iff]
    exact Or.imp_left (List.mem_append_right _)
  · intro f hf
    obtain ⟨e, -, he⟩ := List.mem_filterMap.1 hf
    exact (ofLife_queuedBy he).2
  · rw [runs_iff, runs_iff]
    refine fun hrun => ⟨hrun.imp_left ?_, List.Subset.refl _⟩
    rintro ⟨g, hg, hbound⟩
    rcases List.mem_append.1 hg with hg | hg
    · obtain ⟨e, -, he⟩ := List.mem_filterMap.1 hg
      simp [unbound_calledBy he] at hbound
    · exact ⟨g, hg, hbound⟩

/-- Nothing is in progress and no batch is being run. -/
theorem mayCopy_eq_false (hstack : v.loop.stack = []) (htodo : v.loop.phase.todo = []) :
    v.mayCopy c = false := by
  simp [mayCopy, hstack, htodo]

/-- The loop goes on outside of any function and of any batch. -/
theorem Covered.idle {phase : Phase} (h : Covered c v) (hstack : v.loop.stack = [])
    (htodo : v.loop.phase.todo = []) (hphase : phase.todo = []) :
    Covered c (v.onLoop (·.setPhase phase)) := by
  refine h.mono id ?_ (List.append_nil _).symm (by simp) ?_
  · rw [mayCopy_eq_false hstack htodo]
    intro hcopy
    exact absurd hcopy (by simp)
  · intro hrun
    simp [runs, onLoop, Loop.setPhase, hstack, hphase] at hrun

theorem Covered.routine (h : Covered c v) (hstep : Routine c v v') : Covered c v' := by
  cases hstep with
  | poll hstack hphase | passDone hstack hphase | batchDone hstack hphase =>
      exact h.idle hstack (by simp [hphase, Phase.todo]) rfl
  | @handleEvent readable writable active hstack hphase =>
      have hpass : Covered c (v.onLoop (·.setPhase (.channels active))) :=
        h.idle hstack (by simp [hphase, Phase.todo]) rfl
      refine hpass.mono id ?_ (List.append_nil _).symm (by simp) ?_
      · rw [mayCopy_iff, mayCopy_iff]
        exact Or.imp_left (List.mem_cons_of_mem _)
      · intro hrun
        simp [runs, onLoop, Loop.setPhase, Loop.push, hstack, Phase.todo, Frame.bindsThis] at hrun
  | doCallback hstack hphase =>
      refine ⟨fun f hf => absurd hf (by simp [onLoop]), ?_⟩
      rw [runs_iff]
      rintro (⟨f, hf, -⟩ | ⟨f, hf, hbinds⟩)
      · exact absurd hf (by simp [onLoop, hstack])
      · have hcopy : v.mayCopy c = false := mayCopy_eq_false hstack (by simp [hphase, Phase.todo])
        refine covers_mono id ?_ ((h.1 f hf hbinds).resolve_right (by simp [hcopy]))
        exact List.subset_append_of_subset_right _ (List.subset_append_right _ _)
  | runCallback htakes =>
      exact h.take htakes _ (fun _ => List.mem_cons_self) (by simp [Frame.bindsThis])
  | runSend htakes | runShutdown htakes =>
      exact h.take htakes _ (by simp [Functor.callsBack]) (by simp [Functor.bindsThis])
  | readMessage hinner =>
      exact h.inner hinner (by simp) [.callback c, .handleEvent c false _]
        (by simp [Frame.bindsThis])
  | readError hinner =>
      exact h.inner hinner (by simp) [.handleEvent c false _] (by simp [Frame.bindsThis])
  | handleWrite hinner =>
      exact (h.inner hinner (by simp) [.handleEvent c false false]
        (by simp [Frame.bindsThis])).perform
  | handled hinner => exact h.inner hinner (by simp) [] (by simp)
  | sendInLoop hinner =>
      exact (h.inner hinner (by simp) [.sendInLoop c true] (by simp [Frame.bindsThis])).perform
  | shutdownInLoop hinner =>
      exact (h.inner hinner (by simp) [.shutdownInLoop c true] (by simp [Frame.bindsThis])).perform
  | returned hinner hframe =>
      refine h.inner hinner ?_ [] (by simp)
      obtain rfl | rfl := hframe <;> simp
  | loopSend => exact h.perform
  | copy => exact covered_of_kept (Or.inr (by simp [used]))
  | shutdown => exact covered_of_kept (Or.inr (by simp [used]))

theorem Covered.step (h : Covered c v) (hthere : v.destructed = false)
    (hallowed : a ≠ .destruct ∧ (a = .release → Covered c v')) (hstep : Step c v a v') :
    Covered c v' ∧ v'.destructed = false := by
  cases hstep with
  | nothing => exact ⟨h, hthere⟩
  | routine hroutine => exact ⟨h.routine hroutine, hroutine.calm.destructed.trans hthere⟩
  | runEstablished htakes =>
      exact ⟨(h.take htakes [] (by simp [Functor.callsBack]) (by simp)).perform, hthere⟩
  | runDestoryed htakes =>
      exact ⟨h.take htakes [.connectDestoryed c] (by simp [Functor.callsBack])
        (by simp [Frame.bindsThis]), hthere⟩
  | @readClose writable stack hinner =>
      have hread := h.inner hinner (by simp) [.handleEvent c false writable]
        (by simp [Frame.bindsThis])
      exact ⟨Covered.perform (v := addMilestone _ .handleClose) hread, hthere⟩
  | disconnect hinner =>
      exact ⟨(h.inner hinner (by simp) [.remove c] (by simp [Frame.bindsThis])).perform, hthere⟩
  | remove hinner => exact ⟨(h.inner hinner (by simp) [] (by simp)).perform, hthere⟩
  | loopShutdown => exact ⟨h.perform, hthere⟩
  | announce hinner =>
      exact ⟨h.inner hinner (by simp) [.callback c] (by simp [Frame.bindsThis]), hthere⟩
  | testConnected hinner =>
      exact ⟨h.inner hinner (by simp) [.disconnect c] (by simp [Frame.bindsThis]), hthere⟩
  | testOther hinner =>
      exact ⟨h.inner hinner (by simp) [.remove c] (by simp [Frame.bindsThis]), hthere⟩
  | removeThere hinner => exact ⟨h.inner hinner (by simp) [] (by simp), hthere⟩
  | removeHere =>
      refine ⟨covered_of_mem (f := .connectDestoryed c) ?_ rfl, hthere⟩
      exact List.mem_append_right _ List.mem_cons_self
  | removal =>
      refine ⟨covered_of_mem (f := .connectDestoryed c) ?_ rfl, hthere⟩
      exact List.mem_append_right _ List.mem_cons_self
  | destroyHere hdestructed | destroyThere hdestructed => simp [hthere] at hdestructed
  | destruct => exact absurd rfl hallowed.1
  | «return» | drop => exact ⟨hallowed.2 rfl, hthere⟩
  | send | store => exact ⟨covered_of_kept (Or.inr (by simp [used])), hthere⟩
  | queueSend | queueShutdown =>
      exact ⟨covered_of_kept (Or.inr (by simp [used, onLoop])), hthere⟩

theorem Born.covered {connection : Bool} (h : Born c connection v) :
    Covered c v ∧ v.destructed = false := by
  cases h with
  | queued | here => exact ⟨covered_of_kept (Or.inl rfl), rfl⟩

end Handshake

/-! ## Every function that is run -/

variable {cfg : Config} {s t : TcpServer} {l : LoopId} {a : Action} {as : List Action}

theorem used_of_view (h : (view cfg s c).used = true) : s.used c = true := by
  unfold Handshake.used at h
  unfold used
  rw [Bool.or_eq_true] at h ⊢
  refine h.imp ?_ ?_
  · intro hpos
    have hmem : c ∈ s.users := List.count_pos_iff.1 (of_decide_eq_true hpos)
    exact List.any_eq_true.2 ⟨c, hmem, by simp⟩
  · intro hcallers
    obtain ⟨caller, hcaller⟩ := List.exists_mem_of_ne_nil _ (by simpa using hcallers)
    obtain ⟨e, he, -⟩ := List.mem_map.1 hcaller
    obtain ⟨hmem, heq⟩ := List.mem_filter.1 he
    exact List.any_eq_true.2 ⟨e, hmem, heq⟩

/-- A connection with such an owner is not dead. -/
theorem dead_of_covers (h : s.Homes cfg) (hc : s.Made c)
    (hcovers : (view cfg s c).covers c
      ((view cfg s c).loop.functors ++ (view cfg s c).loop.phase.functors) = true) :
    s.dead cfg c = false := by
  unfold Handshake.covers at hcovers
  rw [Bool.or_eq_true, Bool.or_eq_true] at hcovers
  unfold dead
  rw [Bool.not_eq_false', Bool.or_eq_true]
  rcases hcovers with (hentry | hused) | howner
  · refine Or.inl (held_of_view h hc ?_)
    simp [Handshake.held, hentry]
  · exact Or.inr (used_of_view hused)
  · refine Or.inl (held_of_view h hc ?_)
    unfold Handshake.held Loop.owns
    rw [howner]
    simp

/-- A callback that returns leaves what is queued covered. -/
def ReturnsCovered (cfg : Config) (s : TcpServer) (l : LoopId) : Prop :=
  match (s.loops l).stack.head? with
  | some (.callback c) => (view cfg (s.onLoop l (·.setStack (s.loops l).stack.tail)) c).Covered c
  | _ => True

instance (s : TcpServer) (l : LoopId) : Decidable (ReturnsCovered cfg s l) := by
  unfold ReturnsCovered
  split <;> infer_instance

/-- The users give up a copy, or return from a callback, only if what is queued stays covered. The
    server is not destroyed. -/
def HoldsGivenUpCovered (cfg : Config) (s : TcpServer) : Action → Prop
  | .drop c => (view cfg (s.setUsers (s.users.erase c) s.callers) c).Covered c
  | .next l _ => ReturnsCovered cfg s l
  | .destruct => False
  | _ => True

instance (s : TcpServer) : (a : Action) → Decidable (HoldsGivenUpCovered cfg s a)
  | .drop c =>
      inferInstanceAs (Decidable ((view cfg (s.setUsers (s.users.erase c) s.callers) c).Covered c))
  | .next l _ => inferInstanceAs (Decidable (ReturnsCovered cfg s l))
  | .destruct => .isFalse id
  | .poll _ _ | .outside _ | .loopSend _ _ _ | .loopShutdown _ | .copy _ | .clone _ | .send _
  | .shutdown _ | .goOn _ _ | .queueOther _ => .isTrue trivial

theorem allowed_of_holdsGivenUpCovered (h : HoldsGivenUpCovered cfg s a)
    (hstep : s.step cfg a = some t) :
    a.label s c ≠ .destruct ∧ (a.label s c = .release → (view cfg t c).Covered c) := by
  have hlabel := label_of s c a
  refine ⟨?_, ?_⟩
  · intro heq
    rw [heq] at hlabel
    obtain rfl : a = .destruct := hlabel
    exact h
  · intro heq
    rw [heq] at hlabel
    obtain rfl | ⟨l, answer, stack, rfl, hstack⟩ := hlabel
    · simp only [TcpServer.step, Option.ite_none_right_eq_some, Option.some.injEq] at hstep
      obtain ⟨-, rfl⟩ := hstep
      exact h
    · simp only [HoldsGivenUpCovered, ReturnsCovered, hstack, List.head?_cons, List.tail_cons] at h
      have hfreed : s.freed cfg l = false := by
        simp [freed, hstack, Frame.bindsThis]
      simp only [TcpServer.step, hfreed, hstack, Bool.false_eq_true, if_false] at hstep
      obtain rfl := Option.some.inj hstep
      exact h

theorem covered_of_reaches (run : (machine cfg).Reaches (HoldsGivenUpCovered cfg) as s) :
    ∀ c, s.Made c → (view cfg s c).Covered c ∧ (view cfg s c).destructed = false := by
  refine view_of_reaches (fun c v => v.Covered c ∧ v.destructed = false)
    (fun c _ b v' => b ≠ .destruct ∧ (b = .release → v'.Covered c)) run ?_ ?_ ?_
  · exact fun c v h => h.covered
  · exact fun s a t c h hstep => allowed_of_holdsGivenUpCovered h hstep
  · rintro c v b v' ⟨h, hthere⟩ - hallowed hstep
    exact h.step hthere hallowed hstep

/-- The thread of `l` runs a function that is bound to `c`: it is in progress, or `DoCallback` calls
    its functor next. -/
def executes (s : TcpServer) (l : LoopId) (c : ConnId) : Bool :=
  (s.loops l).stack.any (·.bindsThis = some c) ||
    (s.loops l).stack.isEmpty && (s.loops l).phase.todo.head?.any (·.bindsThis = some c)

theorem Functor.subject_of_bindsThis {f : Functor} (h : f.bindsThis = some c) :
    f.subject = some c := by
  cases f <;> first | exact h | cases h

theorem Frame.subject_of_bindsThis {f : Frame} (h : f.bindsThis = some c) :
    f.subject = some c := by
  cases f <;> first | exact h | cases h

theorem todo_only (phase : Phase) :
    (phase.only c).todo = phase.todo.filter (·.subject = some c) := by
  cases phase <;> rfl

/-- Such a function belongs to the loop of its connection, and that sees it. -/
theorem runs_of_executes (h : s.Homes cfg) (hexec : s.executes l c = true) :
    s.Made c ∧ (view cfg s c).runs c = true := by
  have hloop := h.loops l
  unfold executes at hexec
  rw [Bool.or_eq_true, Bool.and_eq_true, List.any_eq_true] at hexec
  rcases hexec with ⟨f, hf, hbinds⟩ | ⟨-, hhead⟩
  · have hsubject := Frame.subject_of_bindsThis (of_decide_eq_true hbinds)
    obtain ⟨hmade, rfl⟩ := hloop.frame f hf c hsubject
    refine ⟨hmade, Handshake.runs_iff.2 (Or.inl ⟨f, ?_, of_decide_eq_true hbinds⟩)⟩
    exact List.mem_filter.2 ⟨hf, decide_eq_true hsubject⟩
  · obtain ⟨f, hf, hbinds⟩ := (Option.any_eq_true _ _).1 hhead
    have htodo : f ∈ (s.loops l).phase.todo := List.mem_of_head? hf
    have hsubject := Functor.subject_of_bindsThis (of_decide_eq_true hbinds)
    obtain ⟨hmade, rfl⟩ :=
      hloop.subject f (List.mem_append_right _ (mem_functors_of_mem_todo htodo)) c hsubject
    refine ⟨hmade, Handshake.runs_iff.2 (Or.inr ⟨f, ?_, of_decide_eq_true hbinds⟩)⟩
    show f ∈ ((s.loops (s.loop c)).phase.only c).todo
    rw [todo_only]
    exact List.mem_filter.2 ⟨htodo, decide_eq_true hsubject⟩

/-- No function that is bound to a connection is run when that is dead, from the call of its functor
    until it has returned. -/
theorem executed_alive (run : (machine cfg).Reaches (HoldsGivenUpCovered cfg) as s)
    (hexec : s.executes l c = true) : s.dead cfg c = false := by
  have hhomes := homes_of_reaches run
  obtain ⟨hmade, hruns⟩ := runs_of_executes hhomes hexec
  exact dead_of_covers hhomes hmade ((covered_of_reaches run c hmade).1.2 hruns)

/-- The users drop their copy while the connection is up and `SendInLoop` is in progress. -/
def dropsBeforeClose : List Action :=
  [.poll 0 [.acceptor], .next 0 { fd := some 5 }, .next 0 {},
    -- `ConnectEstablished`
    .poll 1 [], .next 1 {}, .next 1 {}, .next 1 {}, .copy 1, .next 1 {}, .next 1 {},
    -- `send` of another thread
    .send 1, .goOn 1 .sendTested,
    -- `SendInLoop`, up to its work
    .poll 1 [], .next 1 {}, .next 1 {}, .drop 1]

theorem executed_alive_dropsBeforeClose :
    ∃ s, (machine twoLoops).Reaches (HoldsGivenUpCovered twoLoops) dropsBeforeClose s ∧
      s.executes 1 1 = true ∧ s.dead twoLoops 1 = false := by
  obtain ⟨s, run, hexec⟩ := Machine.exists_reaches_of_exec (machine twoLoops)
    (HoldsGivenUpCovered twoLoops) new dropsBeforeClose (fun s => s.executes 1 1 = true) rfl
    (by decide)
  exact ⟨s, run, hexec, executed_alive run hexec⟩

/-- The server is not destroyed. -/
def Undestroyed : TcpServer → Action → Prop
  | _, .destruct => False
  | _, _ => True

instance (s : TcpServer) (a : Action) : Decidable (Undestroyed s a) := by
  unfold Undestroyed
  split <;> infer_instance

/-- `SendInLoop` is queued behind the batch of `ConnectDestoryed`, and the copy that it was called
    through is dropped. -/
def dropsBehindClose : List Action :=
  [.poll 0 [.acceptor], .next 0 { fd := some 5 }, .next 0 {},
    -- `ConnectEstablished`
    .poll 1 [], .next 1 {}, .next 1 {}, .next 1 {}, .copy 1, .next 1 {}, .next 1 {},
    -- `send` of another thread, up to its test
    .send 1,
    -- `HandleClose`
    .poll 1 [.connection 1 true false], .next 1 {}, .next 1 { read := .eof }, .next 1 {},
    .next 1 {}, .next 1 {}, .next 1 {}, .next 1 {},
    -- `RemoveConnectionInLoop`
    .poll 0 [], .next 0 {}, .next 0 {}, .next 0 {},
    -- the batch of `ConnectDestoryed` is taken
    .poll 1 [], .next 1 {}, .goOn 1 .sendTested, .drop 1,
    .next 1 {}, .next 1 {}, .next 1 {}, .next 1 {},
    -- `SendInLoop`
    .poll 1 [], .next 1 {}, .next 1 {}]

theorem executed_dead_dropsBehindClose :
    ¬ ∀ (cfg : Config) (as : List Action) (s : TcpServer), (machine cfg).Reaches Undestroyed as s →
      ∀ l c, s.executes l c = true → s.dead cfg c = false := by
  intro h
  obtain ⟨s, run, hexec, hdead⟩ := Machine.exists_reaches_of_exec (machine twoLoops) Undestroyed new
    dropsBehindClose (fun s => s.executes 1 1 = true ∧ s.dead twoLoops 1 = true) rfl (by decide)
  have halive := h twoLoops dropsBehindClose s run 1 1 hexec
  rw [hdead] at halive
  exact absurd halive (by decide)

end TcpServer
