import Muduo.Net.Handshake
import Muduo.Net.Proofs.ConnectionCalls
import Mathlib.Data.List.Basic

set_option autoImplicit false

/-! # Everything is where it belongs

A functor of a connection is queued in its loop, a `RemoveConnectionInLoop` in the base loop, and a
function of a connection is in progress on the thread of its loop (`Homes`). The entries of
`connections_` carry the names that the server gives, which are different for different
connections. -/

namespace TcpServer

open TcpConnection (Runs Plain)

variable {cfg : Config} {s t : TcpServer} {l : LoopId} {c c' : ConnId}

/-! ## Names and loops -/

/-- The buffer of `NewConnection` is large enough. -/
theorem connectionName_eq (h : c < 2 ^ 31) :
    cfg.connectionName c
      = cfg.name ++ ('-' :: cfg.listenAddr.ipPort ++ '#' :: Address.decimal c) := by
  unfold Config.connectionName
  rw [List.take_of_length_le]
  have haddr := cfg.listenAddr.length_ipPort_le
  have hid : (Address.decimal c).length ≤ 10 :=
    Address.length_decimal_le (by omega) (Nat.lt_of_lt_of_le h (by decide))
  simp only [List.length_append, List.length_cons]
  omega

theorem connectionName_injective (h : c < 2 ^ 31) (h' : c' < 2 ^ 31)
    (heq : cfg.connectionName c = cfg.connectionName c') : c = c' := by
  rw [connectionName_eq h, connectionName_eq h'] at heq
  have hrest := List.append_cancel_left heq
  rw [List.cons_append, List.cons_append, List.cons.injEq] at hrest
  have hid := List.append_cancel_left hrest.2
  rw [List.cons.injEq] at hid
  exact Address.decimal_injective hid.2

theorem getNextLoop_mem (next : Nat) : (cfg.getNextLoop next).1 ∈ cfg.loop :: cfg.loops := by
  unfold Config.getNextLoop
  split
  · exact List.mem_cons_self
  · rw [List.getD_eq_getElem?_getD]
    cases hget : cfg.loops[next]? with
    | none => exact List.mem_cons_self
    | some l => exact List.mem_cons_of_mem _ (List.mem_of_getElem? hget)

/-! ## Homes -/

/-- The connection in whose loop a functor belongs. -/
def Functor.subject : Functor → Option ConnId
  | .connectEstablished c => some c
  | .connectDestoryed c => some c
  | .writeComplete c => some c
  | .highWaterMark c _ => some c
  | .sendInLoop c => some c
  | .shutdownInLoop c => some c
  | .removeConnectionInLoop _ => none
  | .other => none

def Made (s : TcpServer) (c : ConnId) : Prop := 0 < c ∧ c < s.nextConnectionId

/-- `c` is made and belongs to the loop `l`. -/
def At (s : TcpServer) (l : LoopId) (c : ConnId) : Prop := s.Made c ∧ s.loop c = l

/-- What is in a loop belongs there, and only the innermost function is on its way to a call. -/
structure Loop.Home (cfg : Config) (s : TcpServer) (l : LoopId) (loop : Loop) : Prop where
  subject : ∀ f ∈ loop.functors ++ loop.phase.functors, ∀ c, f.subject = some c → s.At l c
  removal : ∀ c, .removeConnectionInLoop c ∈ loop.functors ++ loop.phase.functors →
    s.Made c ∧ l = cfg.loop
  active : ∀ a ∈ loop.phase.active, ∀ c, a.subject = some c → s.At l c
  acceptor : .acceptor ∈ loop.phase.active → l = cfg.loop
  frame : ∀ f ∈ loop.stack, ∀ c, f.subject = some c → s.At l c
  destructor : .destructor ∈ loop.stack → l = cfg.loop ∧ s.destructed = true
  waits : ∀ f ∈ loop.stack.tail, f.waits = true

structure Homes (cfg : Config) (s : TcpServer) : Prop where
  loops : ∀ l, (s.loops l).Home cfg s l
  next_pos : 0 < s.nextConnectionId
  next_le : s.nextConnectionId ≤ 2 ^ 31
  users : ∀ c ∈ s.users, s.Made c
  callers : ∀ e ∈ s.callers, s.Made e.1
  entries : ∀ e ∈ s.connections, s.Made e.2 ∧ e.1 = cfg.connectionName e.2
  nodup : (s.connections.map (·.2)).Nodup
  pool : ∀ c, s.Made c → s.loop c ∈ cfg.loop :: cfg.loops
  fresh : ∀ c, ¬ s.Made c → s.announced c = [] ∧ s.life c = []
  registered : ∀ l c, Registered c (s.conn c).channel (s.channels l)
  registeredAt : ∀ l fd c, s.channels l fd = some c → s.At l c

section

variable {loop : Loop}

theorem Loop.Home.mono (h : loop.Home cfg s l) (hat : ∀ l c, s.At l c → t.At l c)
    (hmade : ∀ c, s.Made c → t.Made c) (hdestructed : s.destructed = true → t.destructed = true) :
    loop.Home cfg t l where
  subject f hf c hc := hat _ _ (h.subject f hf c hc)
  removal c hc := ⟨hmade _ (h.removal c hc).1, (h.removal c hc).2⟩
  active a ha c hc := hat _ _ (h.active a ha c hc)
  acceptor := h.acceptor
  frame f hf c hc := hat _ _ (h.frame f hf c hc)
  destructor hmem := ⟨(h.destructor hmem).1, hdestructed (h.destructor hmem).2⟩
  waits := h.waits

theorem Loop.Home.queue {fs : List Functor} (h : loop.Home cfg s l)
    (hsubject : ∀ f ∈ fs, ∀ c, f.subject = some c → s.At l c)
    (hremoval : ∀ c, .removeConnectionInLoop c ∈ fs → s.Made c ∧ l = cfg.loop) :
    (loop.queue fs).Home cfg s l where
  subject f hf := by
    simp only [Loop.queue, List.mem_append] at hf
    rcases hf with (hf | hf) | hf
    · exact h.subject f (List.mem_append_left _ hf)
    · exact hsubject f hf
    · exact h.subject f (List.mem_append_right _ hf)
  removal c hc := by
    simp only [Loop.queue, List.mem_append] at hc
    rcases hc with (hc | hc) | hc
    · exact h.removal c (List.mem_append_left _ hc)
    · exact hremoval c hc
    · exact h.removal c (List.mem_append_right _ hc)
  active := h.active
  acceptor := h.acceptor
  frame := h.frame
  destructor := h.destructor
  waits := h.waits

theorem Loop.Home.setStack {stack : List Frame} (h : loop.Home cfg s l)
    (hframe : ∀ f ∈ stack, f ∈ loop.stack ∨ (∀ c, f.subject = some c → s.At l c) ∧
      (f = .destructor → l = cfg.loop ∧ s.destructed = true))
    (hwaits : ∀ f ∈ stack.tail, f.waits = true) : (loop.setStack stack).Home cfg s l where
  subject := h.subject
  removal := h.removal
  active := h.active
  acceptor := h.acceptor
  frame f hf := (hframe f hf).elim (h.frame f) (·.1)
  destructor hmem := (hframe _ hmem).elim h.destructor fun hnew => hnew.2 rfl
  waits := hwaits

theorem Loop.Home.setPhase {phase : Phase} (h : loop.Home cfg s l)
    (hfunctors : ∀ f ∈ phase.functors, f ∈ loop.phase.functors)
    (hactive : ∀ a ∈ phase.active, ∀ c, a.subject = some c → s.At l c)
    (hacceptor : .acceptor ∈ phase.active → l = cfg.loop) :
    (loop.setPhase phase).Home cfg s l where
  subject f hf := by
    refine h.subject f ?_
    simp only [Loop.setPhase, List.mem_append] at hf ⊢
    exact hf.imp_right (hfunctors f)
  removal c hc := by
    refine h.removal c ?_
    simp only [Loop.setPhase, List.mem_append] at hc ⊢
    exact hc.imp_right (hfunctors _)
  active := hactive
  acceptor := hacceptor
  frame := h.frame
  destructor := h.destructor
  waits := h.waits

theorem Loop.Home.doCallback (h : loop.Home cfg s l) : loop.doCallback.Home cfg s l := by
  unfold Loop.doCallback
  split
  · exact h.setPhase (by simp [Phase.functors]) (by simp [Phase.active]) (by simp [Phase.active])
  · refine ⟨?_, ?_, by simp [Phase.active], by simp [Phase.active], h.frame, h.destructor,
      h.waits⟩
    · intro f hf
      exact h.subject f (List.mem_append_left _ (by simpa [Phase.functors] using hf))
    · intro c hc
      exact h.removal c (List.mem_append_left _ (by simpa [Phase.functors] using hc))

theorem Homes.onLoop {f : Loop → Loop} (h : s.Homes cfg) (hf : (f (s.loops l)).Home cfg s l) :
    (s.onLoop l f).Homes cfg := by
  refine { h with loops := ?_ }
  intro l'
  show (Function.update s.loops l (f (s.loops l)) l').Home cfg (s.onLoop l f) l'
  by_cases heq : l' = l
  · subst heq
    rw [Function.update_self]
    exact hf.mono (fun _ _ hat => hat) (fun _ hmade => hmade) id
  · rw [Function.update_of_ne heq]
    exact (h.loops l').mono (fun _ _ hat => hat) (fun _ hmade => hmade) id

theorem Homes.queueInLoop {f : Functor} (h : s.Homes cfg)
    (hsubject : ∀ c, f.subject = some c → s.At l c)
    (hremoval : ∀ c, f = .removeConnectionInLoop c → s.Made c ∧ l = cfg.loop) :
    (s.queueInLoop l f).Homes cfg := by
  refine h.onLoop ((h.loops l).queue ?_ ?_)
  · intro g hg
    rw [List.mem_singleton.1 hg]
    exact hsubject
  · intro c hc
    exact hremoval c (List.mem_singleton.1 hc).symm

end

/-! ## The functions of a connection -/

section

variable {r : TcpConnection × List TcpConnection.Effect} {m : Milestone}

theorem subject_of_queuedBy {e : TcpConnection.Effect} {f : Functor}
    (h : queuedBy c e = some f) : f.subject = some c := by
  cases e with
  | queueWriteComplete | queueHighWaterMark =>
      obtain rfl := Option.some.inj h
      rfl
  | _ => cases h

theorem subject_of_calledBy {e : TcpConnection.Effect} {frame : Frame}
    (h : calledBy c e = some frame) : frame.subject = some c := by
  cases e with
  | connectionCallback | closeCallback =>
      obtain rfl := Option.some.inj h
      rfl
  | _ => cases h

theorem Homes.setConn (h : s.Homes cfg) (hc : s.Made c) (hr : Runs (s.conn c) r) :
    Homes cfg { s with
      conn := Function.update s.conn c r.1
      channels := Function.update s.channels (s.loop c)
        (r.2.foldl (register c) (s.channels (s.loop c))) } := by
  obtain ⟨hself, hother⟩ := (h.registered (s.loop c) c).update hr.update
  rw [← foldl_register] at hself
  simp only [← foldl_register] at hother
  refine { h with loops := ?_, registered := ?_, registeredAt := ?_ }
  · intro l
    exact (h.loops l).mono (fun _ _ hat => hat) (fun _ hmade => hmade) id
  · intro l c'
    by_cases hl : l = s.loop c <;> by_cases hc' : c' = c
    · subst hl hc'
      simpa using hself
    · subst hl
      intro fd hfd
      simp only [Function.update_self, Function.update_of_ne hc'] at hfd ⊢
      exact h.registered _ _ fd (hother fd c' hc' hfd)
    · subst hc'
      intro fd hfd
      simp only [Function.update_of_ne hl] at hfd
      exact absurd (h.registeredAt l fd c' hfd).2.symm hl
    · intro fd hfd
      simp only [Function.update_of_ne hl, Function.update_of_ne hc'] at hfd ⊢
      exact h.registered l c' fd hfd
  · intro l fd c' hfd
    by_cases hl : l = s.loop c
    · subst hl
      by_cases hc' : c' = c
      · subst hc'
        exact ⟨hc, rfl⟩
      · simp only [Function.update_self] at hfd
        exact h.registeredAt _ fd c' (hother fd c' hc' hfd)
    · simp only [Function.update_of_ne hl] at hfd
      exact h.registeredAt l fd c' hfd

theorem Homes.perform (h : s.Homes cfg) (hc : s.Made c) (hr : Runs (s.conn c) r)
    (hcalls : ∀ f ∈ (r.2.filterMap (calledBy c)).tail, f.waits = true)
    (hwaits : r.2.filterMap (calledBy c) = [] ∨
      ∀ f ∈ (s.loops (s.loop c)).stack, f.waits = true) : (s.perform c r).Homes cfg := by
  have hqueued : ((s.loops (s.loop c)).queue (r.2.filterMap (queuedBy c))).Home cfg s
      (s.loop c) := by
    refine (h.loops (s.loop c)).queue ?_ ?_
    · intro f hf c' hc'
      obtain ⟨e, -, he⟩ := List.mem_filterMap.1 hf
      obtain rfl : c = c' := by simpa [subject_of_queuedBy he] using hc'
      exact ⟨hc, rfl⟩
    · intro c' hc'
      obtain ⟨e, -, he⟩ := List.mem_filterMap.1 hc'
      exact absurd (subject_of_queuedBy he) (by simp [Functor.subject])
  have hpushed : (((s.loops (s.loop c)).queue (r.2.filterMap (queuedBy c))).push
      (r.2.filterMap (calledBy c))).Home cfg s (s.loop c) := hqueued.setStack ?_ ?_
  · exact Homes.setConn (c := c) (h.onLoop (f := fun loop => (loop.queue _).push _) hpushed) hc hr
  · intro f hf
    rcases List.mem_append.1 hf with hf | hf
    · obtain ⟨e, -, he⟩ := List.mem_filterMap.1 hf
      refine Or.inr ⟨?_, ?_⟩
      · intro c' hc'
        obtain rfl : c = c' := by simpa [subject_of_calledBy he] using hc'
        exact ⟨hc, rfl⟩
      · rintro rfl
        exact absurd (subject_of_calledBy he) (by simp [Frame.subject])
    · exact Or.inl hf
  · intro f hf
    cases hcall : r.2.filterMap (calledBy c) with
    | nil =>
        rw [hcall] at hf
        exact (h.loops (s.loop c)).waits f hf
    | cons g rest =>
        rw [hcall] at hf hcalls hwaits
        rcases List.mem_append.1 hf with hf | hf
        · exact hcalls f hf
        · exact hwaits.resolve_left (by simp) f hf

theorem Homes.perform_plain (h : s.Homes cfg) (hc : s.Made c) (hr : Plain (s.conn c) r) :
    (s.perform c r).Homes cfg := by
  have hcalls := called_of_plain (c := c) hr
  refine h.perform hc hr.toRuns ?_ (Or.inl hcalls)
  simp [hcalls]

theorem waits_announces {conn : TcpConnection} : ∀ f ∈ (announces c conn).tail, f.waits = true := by
  unfold announces
  split <;> simp

theorem Homes.connectEstablished (h : s.Homes cfg) (hc : s.Made c)
    (hwaits : ∀ f ∈ (s.loops (s.loop c)).stack, f.waits = true) :
    (s.connectEstablished c).Homes cfg := by
  refine h.perform hc (TcpConnection.runs_connectEstablished _) ?_ (Or.inr hwaits)
  rw [called_connectEstablished]
  exact waits_announces

theorem Homes.disconnect (h : s.Homes cfg) (hc : s.Made c)
    (hwaits : ∀ f ∈ (s.loops (s.loop c)).stack, f.waits = true) :
    (s.perform c (s.conn c).disconnect).Homes cfg := by
  refine h.perform hc (TcpConnection.runs_disconnect _) ?_ (Or.inr hwaits)
  rw [called_disconnect]
  exact waits_announces

theorem Homes.addMilestone (h : s.Homes cfg) (hc : s.Made c) :
    (s.addMilestone c m).Homes cfg := by
  refine { h with loops := ?_, fresh := ?_ }
  · intro l
    exact (h.loops l).mono (fun _ _ hat => hat) (fun _ hmade => hmade) id
  · intro c' hc'
    have hne : c' ≠ c := by
      rintro rfl
      exact hc' hc
    simp only [TcpServer.addMilestone, Function.update_of_ne hne]
    exact h.fresh c' hc'

theorem Homes.handleClose (h : s.Homes cfg) (hc : s.Made c)
    (hwaits : ∀ f ∈ (s.loops (s.loop c)).stack, f.waits = true) :
    (s.handleClose c).Homes cfg := by
  refine (h.addMilestone hc).perform hc (TcpConnection.runs_handleClose _) ?_ (Or.inr hwaits)
  rw [called_handleClose]
  unfold announces
  split <;> split <;> simp [Frame.waits]

theorem Homes.push {frame : Frame} (h : s.Homes cfg)
    (hframe : ∀ c, frame.subject = some c → s.At l c)
    (hdestructor : frame = .destructor → l = cfg.loop ∧ s.destructed = true)
    (hwaits : ∀ f ∈ (s.loops l).stack, f.waits = true) :
    (s.onLoop l (·.push [frame])).Homes cfg := by
  refine h.onLoop ((h.loops l).setStack ?_ hwaits)
  intro f hf
  rcases List.mem_cons.1 hf with rfl | hf
  · exact Or.inr ⟨hframe, hdestructor⟩
  · exact Or.inl hf

theorem Homes.connectDestoryed (h : s.Homes cfg) (hc : s.Made c)
    (hwaits : ∀ f ∈ (s.loops (s.loop c)).stack, f.waits = true) :
    (s.connectDestoryed c).Homes cfg := by
  refine (h.addMilestone hc).push ?_ (by simp) hwaits
  intro c' hc'
  obtain rfl : c = c' := by simpa [Frame.subject] using hc'
  exact ⟨hc, rfl⟩

end

/-! ## The functions of the server -/

theorem Homes.insertConnection (h : s.Homes cfg) (fd : Nat)
    (hnext : s.nextConnectionId < 2 ^ 31) :
    (s.insertConnection cfg fd).Homes cfg := by
  have hmade : ∀ c, s.Made c → (s.insertConnection cfg fd).Made c := fun c hc =>
    ⟨hc.1, Nat.lt_succ_of_lt hc.2⟩
  have hloop : ∀ c, s.Made c → (s.insertConnection cfg fd).loop c = s.loop c := fun c hc =>
    Function.update_of_ne (Nat.ne_of_lt hc.2) _ _
  have hat : ∀ l c, s.At l c → (s.insertConnection cfg fd).At l c := fun l c hc =>
    ⟨hmade c hc.1, (hloop c hc.1).trans hc.2⟩
  have hnew : (s.insertConnection cfg fd).Made s.nextConnectionId :=
    ⟨h.next_pos, Nat.lt_succ_self _⟩
  have hcases : ∀ c, (s.insertConnection cfg fd).Made c → c = s.nextConnectionId ∨ s.Made c := by
    intro c hc
    rcases Nat.lt_succ_iff_lt_or_eq.1 hc.2 with hlt | heq
    · exact Or.inr ⟨hc.1, hlt⟩
    · exact Or.inl heq
  refine
    { loops := fun l => (h.loops l).mono hat hmade id
      next_pos := Nat.succ_pos _
      next_le := hnext
      users := fun c hc => hmade c (h.users c hc)
      callers := fun e he => hmade e.1 (h.callers e he)
      entries := ?_
      nodup := ?_
      pool := ?_
      fresh := fun c hc => h.fresh c fun hold => hc (hmade c hold)
      registered := ?_
      registeredAt := fun l fd c hfd => hat l c (h.registeredAt l fd c hfd) }
  · intro e he
    rcases List.mem_cons.1 he with rfl | he
    · exact ⟨hnew, rfl⟩
    · have hold := h.entries e (List.mem_filter.1 he).1
      exact ⟨hmade _ hold.1, hold.2⟩
  · refine List.nodup_cons.2 ⟨?_, (List.filter_sublist.map _).nodup h.nodup⟩
    intro hmem
    obtain ⟨e, he, heq⟩ := List.mem_map.1 hmem
    have hold := (h.entries e (List.mem_filter.1 he).1).1
    exact absurd hold.2 (by simp [heq])
  · intro c hc
    rcases hcases c hc with rfl | hold
    · show Function.update s.loop s.nextConnectionId _ s.nextConnectionId ∈ _
      rw [Function.update_self]
      exact getNextLoop_mem s.next
    · rw [hloop c hold]
      exact h.pool c hold
  · intro l c fd' hfd
    have hold := (h.registeredAt l fd' c hfd).1
    have hconn : (s.insertConnection cfg fd).conn c = s.conn c :=
      Function.update_of_ne (Nat.ne_of_lt hold.2) _ _
    rw [hconn]
    exact h.registered l c fd' hfd

theorem Homes.newConnection {fd : Nat} (h : s.Homes cfg) (hnext : s.nextConnectionId < 2 ^ 31)
    (hstack : (s.loops cfg.loop).stack = []) : (s.newConnection cfg fd).Homes cfg := by
  have hinsert := h.insertConnection fd hnext
  have hmade : (s.insertConnection cfg fd).Made s.nextConnectionId :=
    ⟨h.next_pos, Nat.lt_succ_self _⟩
  have hloop : (s.insertConnection cfg fd).loop s.nextConnectionId = (cfg.getNextLoop s.next).1 :=
    Function.update_self _ _ _
  simp only [TcpServer.newConnection]
  split
  · next hbase =>
      refine hinsert.connectEstablished hmade ?_
      have hidle : ((s.insertConnection cfg fd).loops
          ((s.insertConnection cfg fd).loop s.nextConnectionId)).stack = [] := by
        rw [hloop, hbase]
        exact hstack
      simp [hidle]
  · refine hinsert.queueInLoop ?_ (by simp)
    intro c hc
    obtain rfl : s.nextConnectionId = c := by simpa [Functor.subject] using hc
    exact ⟨hmade, hloop⟩

/-- Entries go, everything else stays. -/
theorem Homes.filterConnections (h : s.Homes cfg) (p : List Char × ConnId → Bool)
    (erased : List (ConnId × List ConnId)) :
    Homes cfg { s with connections := s.connections.filter p, erased := erased } := by
  refine { h with loops := ?_, entries := ?_, nodup := ?_ }
  · intro l
    exact (h.loops l).mono (fun _ _ hat => hat) (fun _ hmade => hmade) id
  · intro e he
    exact h.entries e (List.mem_filter.1 he).1
  · exact (List.filter_sublist.map _).nodup h.nodup

theorem Homes.removeConnectionInLoop (h : s.Homes cfg) (hc : s.Made c) :
    (s.removeConnectionInLoop cfg c).Homes cfg := by
  refine (h.filterConnections _ _).queueInLoop ?_ (by simp)
  intro c' hc'
  obtain rfl : c = c' := by simpa [Functor.subject] using hc'
  exact ⟨hc, rfl⟩

theorem Homes.removeConnection (h : s.Homes cfg) (hc : s.Made c) :
    (s.removeConnection cfg l c).Homes cfg := by
  unfold TcpServer.removeConnection
  split
  · exact h.removeConnectionInLoop hc
  · refine h.queueInLoop (by simp [Functor.subject]) ?_
    rintro c' heq
    obtain rfl : c = c' := by simpa using heq
    exact ⟨hc, rfl⟩

theorem Homes.destroyConnection (h : s.Homes cfg) (hc : s.Made c)
    (hwaits : ∀ f ∈ (s.loops l).stack, f.waits = true) :
    (s.destroyConnection l c).Homes cfg := by
  have hfilter := h.filterConnections (fun e => e.2 ≠ c) s.erased
  simp only [TcpServer.destroyConnection]
  split
  · next hl => exact hfilter.connectDestoryed hc (hl ▸ hwaits)
  · refine hfilter.queueInLoop ?_ (by simp)
    intro c' hc'
    obtain rfl : c = c' := by simpa [Functor.subject] using hc'
    exact ⟨hc, rfl⟩

/-! ## Steps -/

section

variable {answer : Answer} {f : Functor} {frame : Frame} {stack : List Frame} {a : Action}

theorem Homes.runFunctor (h : s.Homes cfg) (hsubject : ∀ c, f.subject = some c → s.At l c)
    (hremoval : ∀ c, f = .removeConnectionInLoop c → s.Made c)
    (hstack : (s.loops l).stack = []) : (s.runFunctor cfg l f).Homes cfg := by
  cases f with
  | connectEstablished c =>
      obtain ⟨hmade, rfl⟩ := hsubject c rfl
      exact h.connectEstablished hmade (by simp [hstack])
  | connectDestoryed c =>
      obtain ⟨hmade, rfl⟩ := hsubject c rfl
      exact h.connectDestoryed hmade (by simp [hstack])
  | removeConnectionInLoop c => exact h.removeConnectionInLoop (hremoval c rfl)
  | writeComplete c | highWaterMark c | sendInLoop c | shutdownInLoop c =>
      refine h.push ?_ (by simp) (by simp [hstack])
      intro c' hc'
      obtain rfl : c = c' := by simpa [Frame.subject] using hc'
      exact hsubject c rfl
  | other => exact h.push (by simp [Frame.subject]) (by simp) (by simp [hstack])

/-- A channel of the pass is taken. -/
theorem Homes.pass {active : List Active} {ready : Active} (h : s.Homes cfg)
    (hphase : (s.loops l).phase = .channels (ready :: active)) :
    (s.onLoop l (·.setPhase (.channels active))).Homes cfg := by
  have hloop := h.loops l
  refine h.onLoop (hloop.setPhase (by simp [Phase.functors]) ?_ ?_)
  · intro b hb
    exact hloop.active b (by simpa [hphase, Phase.active] using Or.inr hb)
  · intro hb
    exact hloop.acceptor (by simpa [hphase, Phase.active] using Or.inr hb)

/-- A functor of the batch is taken. -/
theorem Homes.take {done todo : List Functor} (h : s.Homes cfg)
    (hphase : (s.loops l).phase = .callbacks done (f :: todo)) :
    (s.onLoop l (·.setPhase (.callbacks (done ++ [f]) todo))).Homes cfg := by
  refine h.onLoop ((h.loops l).setPhase ?_ (by simp [Phase.active]) (by simp [Phase.active]))
  intro g hg
  simpa [hphase, Phase.functors] using hg

theorem Homes.phaseStep (h : s.Homes cfg) (hstack : (s.loops l).stack = [])
    (hstep : s.phaseStep cfg l answer = some t) : t.Homes cfg := by
  unfold TcpServer.phaseStep at hstep
  have hloop := h.loops l
  split at hstep
  · exact absurd hstep (by simp)
  · obtain rfl := Option.some.inj hstep
    exact h.onLoop hloop.doCallback
  · next a active hphase =>
      have hrest := h.pass hphase
      have hempty : ((s.onLoop l (·.setPhase (.channels active))).loops l).stack = [] := by
        simpa [TcpServer.onLoop, Loop.setPhase] using hstack
      cases a with
      | connection c readable writable =>
          obtain rfl := Option.some.inj hstep
          refine hrest.push ?_ (by simp) (by simp [hempty])
          intro c' hc'
          obtain rfl : c = c' := by simpa [Frame.subject] using hc'
          exact hloop.active (.connection c readable writable)
            (by simp [hphase, Phase.active]) c rfl
      | acceptor =>
          have hl := hloop.acceptor (by simp [hphase, Phase.active])
          simp only [handleActive] at hstep
          unfold handleAccept at hstep
          split at hstep
          · split at hstep
            · next hok =>
                obtain rfl := Option.some.inj hstep
                exact hrest.newConnection hok.1 (hl ▸ hempty)
            · exact absurd hstep (by simp)
          · obtain rfl := Option.some.inj hstep
            exact hrest
      | other =>
          obtain rfl := Option.some.inj hstep
          exact hrest.push (by simp [Frame.subject]) (by simp) (by simp [hempty])
  · obtain rfl := Option.some.inj hstep
    exact h.onLoop (hloop.setPhase (by simp [Phase.functors]) (by simp [Phase.active])
      (by simp [Phase.active]))
  · next done f todo hphase =>
      obtain rfl := Option.some.inj hstep
      have hmem : f ∈ (s.loops l).functors ++ (s.loops l).phase.functors := by
        simp [hphase, Phase.functors]
      refine (h.take hphase).runFunctor (hloop.subject f hmem) ?_ ?_
      · rintro c rfl
        exact (hloop.removal c hmem).1
      · simpa [TcpServer.onLoop, Loop.setPhase] using hstack

theorem Homes.pop (h : s.Homes cfg) (hstack : (s.loops l).stack = frame :: stack) :
    (s.onLoop l (·.setStack stack)).Homes cfg := by
  have hloop := h.loops l
  refine h.onLoop (hloop.setStack ?_ ?_)
  · intro f hf
    exact Or.inl (hstack ▸ List.mem_cons_of_mem _ hf)
  · intro f hf
    exact hloop.waits f (by simpa [hstack] using List.mem_of_mem_tail hf)

/-- The innermost function goes on as another one of the same connection. -/
theorem Homes.replace (h : s.Homes cfg) (next : Frame)
    (hstack : (s.loops l).stack = frame :: stack) (hsame : next.subject = frame.subject)
    (hdestructor : next ≠ .destructor) : (s.onLoop l (·.setStack (next :: stack))).Homes cfg := by
  have hloop := h.loops l
  refine h.onLoop (hloop.setStack ?_ ?_)
  · intro f hf
    rcases List.mem_cons.1 hf with rfl | hf
    · refine Or.inr ⟨?_, fun heq => absurd heq hdestructor⟩
      intro c hc
      exact hloop.frame frame (by simp [hstack]) c (hsame ▸ hc)
    · exact Or.inl (hstack ▸ List.mem_cons_of_mem _ hf)
  · intro f hf
    exact hloop.waits f (by simpa [hstack] using hf)

theorem Homes.frameStep (h : s.Homes cfg) (hstack : (s.loops l).stack = frame :: stack)
    (hstep : s.frameStep cfg l answer stack frame = some t) : t.Homes cfg := by
  have hloop := h.loops l
  have hat : ∀ c, frame.subject = some c → s.At l c := hloop.frame frame (by simp [hstack])
  have hwaits : ∀ f ∈ stack, f.waits = true := by
    intro f hf
    exact hloop.waits f (by simpa [hstack] using hf)
  -- the stack of a loop that was given one
  have hset : ∀ (l' : LoopId) (stack' : List Frame), l' = l →
      (∀ f ∈ stack', f.waits = true) →
      ∀ f ∈ ((s.onLoop l (·.setStack stack')).loops l').stack, f.waits = true := by
    rintro _ stack' rfl hstack' f hf
    exact hstack' f (by simpa [TcpServer.onLoop, Loop.setStack] using hf)
  cases frame with
  | handleEvent c readable writable =>
      obtain ⟨hmade, hl⟩ := hat c rfl
      cases readable with
      | true =>
          obtain rfl := Option.some.inj hstep
          have hnext := h.replace (.handleEvent c false writable) hstack rfl (by simp)
          have hall := hset (s.loop c) (.handleEvent c false writable :: stack) hl
            (by simpa [Frame.waits] using hwaits)
          cases answer.read with
          | message =>
              refine hnext.push ?_ (by simp) (hl ▸ hall)
              intro c' hc'
              obtain rfl : c = c' := by simpa [Frame.subject] using hc'
              exact ⟨hmade, hl⟩
          | eof => exact hnext.handleClose hmade hall
          | error => exact hnext
      | false =>
          cases writable with
          | true =>
              obtain rfl := Option.some.inj hstep
              have hnext := h.replace (.handleEvent c false false) hstack rfl (by simp)
              exact hnext.perform_plain hmade (TcpConnection.plain_handleWrite _ _)
          | false =>
              obtain rfl := Option.some.inj hstep
              exact h.pop hstack
  | announce c =>
      obtain ⟨hmade, -⟩ := hat c rfl
      obtain rfl := Option.some.inj hstep
      have hnext := h.replace (.callback c) hstack rfl (by simp)
      refine { hnext with loops := ?_, fresh := ?_ }
      · intro l'
        exact (hnext.loops l').mono (fun _ _ hat => hat) (fun _ hmade => hmade) id
      · intro c' hc'
        have hne : c' ≠ c := by
          rintro rfl
          exact hc' hmade
        show Function.update s.announced c _ c' = [] ∧ s.life c' = []
        rw [Function.update_of_ne hne]
        exact h.fresh c' hc'
  | callback c | userCode =>
      obtain rfl := Option.some.inj hstep
      exact h.pop hstack
  | closeCallback c =>
      obtain rfl := Option.some.inj hstep
      exact (h.pop hstack).removeConnection (hat c rfl).1
  | connectDestoryed c =>
      obtain rfl := Option.some.inj hstep
      refine h.replace _ hstack ?_ ?_ <;> split <;> simp [Frame.subject]
  | disconnect c =>
      obtain ⟨hmade, hl⟩ := hat c rfl
      obtain rfl := Option.some.inj hstep
      refine (h.replace (.remove c) hstack rfl (by simp)).disconnect hmade ?_
      exact hset (s.loop c) (.remove c :: stack) hl (by simpa [Frame.waits] using hwaits)
  | remove c =>
      obtain ⟨hmade, -⟩ := hat c rfl
      obtain rfl := Option.some.inj hstep
      exact ((h.pop hstack).perform_plain hmade (TcpConnection.plain_remove _)).addMilestone hmade
  | sendInLoop c done =>
      obtain ⟨hmade, -⟩ := hat c rfl
      cases done with
      | false =>
          obtain rfl := Option.some.inj hstep
          exact (h.replace (.sendInLoop c true) hstack rfl (by simp)).perform_plain hmade
            (TcpConnection.plain_sendInLoop _ _ _)
      | true =>
          obtain rfl := Option.some.inj hstep
          exact h.pop hstack
  | shutdownInLoop c done =>
      obtain ⟨hmade, -⟩ := hat c rfl
      cases done with
      | false =>
          obtain rfl := Option.some.inj hstep
          exact (h.replace (.shutdownInLoop c true) hstack rfl (by simp)).perform_plain hmade
            (TcpConnection.plain_shutdownInLoop _)
      | true =>
          obtain rfl := Option.some.inj hstep
          exact h.pop hstack
  | destructor =>
      simp only [TcpServer.frameStep] at hstep
      split at hstep
      · obtain rfl := Option.some.inj hstep
        exact h.pop hstack
      · split at hstep
        · next hany =>
            obtain rfl := Option.some.inj hstep
            obtain ⟨e, he, heq⟩ := List.any_eq_true.1 hany
            have hmade : s.Made answer.entry := of_decide_eq_true heq ▸ (h.entries e he).1
            refine h.destroyConnection hmade ?_
            intro f hf
            rw [hstack] at hf
            rcases List.mem_cons.1 hf with rfl | hf
            · rfl
            · exact hwaits f hf
        · exact absurd hstep (by simp)

theorem Homes.setUsers (h : s.Homes cfg) {users : List ConnId} {callers : List (ConnId × Caller)}
    (husers : ∀ c ∈ users, s.Made c) (hcallers : ∀ e ∈ callers, s.Made e.1) :
    (s.setUsers users callers).Homes cfg := by
  refine { h with loops := ?_, users := husers, callers := hcallers }
  intro l
  exact (h.loops l).mono (fun _ _ hat => hat) (fun _ hmade => hmade) id

theorem Homes.setState (h : s.Homes cfg) (c : ConnId) (state : TcpConnection.State) :
    (s.setState c state).Homes cfg := by
  refine { h with loops := ?_, registered := ?_ }
  · intro l
    exact (h.loops l).mono (fun _ _ hat => hat) (fun _ hmade => hmade) id
  · intro l c'
    by_cases hc' : c' = c
    · subst hc'
      simpa [TcpServer.setState] using h.registered l c'
    · simpa [TcpServer.setState, Function.update_of_ne hc'] using h.registered l c'

theorem Homes.callerStep {caller : Caller} (h : s.Homes cfg) (hmem : (c, caller) ∈ s.callers) :
    (s.callerStep c caller).Homes cfg := by
  have hmade : s.Made c := h.callers _ hmem
  have hcallers : ∀ e ∈ s.callers.erase (c, caller), s.Made e.1 := fun e he =>
    h.callers e (List.mem_of_mem_erase he)
  have husers : ∀ c' ∈ c :: s.users, s.Made c' := by
    intro c' hc'
    rcases List.mem_cons.1 hc' with rfl | hc'
    · exact hmade
    · exact h.users c' hc'
  have hsubject : ∀ f : Functor, f.subject = some c → ∀ c', f.subject = some c' →
      s.At (s.loop c) c' := by
    intro f hf c' hc'
    obtain rfl : c = c' := by simpa [hf] using hc'
    exact ⟨hmade, rfl⟩
  cases caller with
  | sendTested =>
      exact (h.setUsers husers hcallers).queueInLoop (hsubject (.sendInLoop c) rfl) (by simp)
  | shutdownStored =>
      exact (h.setUsers husers hcallers).queueInLoop (hsubject (.shutdownInLoop c) rfl) (by simp)
  | shutdownTested =>
      have hstored : ∀ e ∈ (c, Caller.shutdownStored) :: s.callers.erase (c, .shutdownTested),
          s.Made e.1 := by
        intro e he
        rcases List.mem_cons.1 he with rfl | he
        · exact hmade
        · exact hcallers e he
      exact (h.setUsers h.users hstored).setState c .disconnecting

theorem Homes.test {caller : Caller} (h : s.Homes cfg) (hstep : s.test c caller = some t) :
    t.Homes cfg := by
  unfold TcpServer.test at hstep
  split at hstep
  · next hmem =>
      split at hstep
      · obtain rfl := Option.some.inj hstep
        refine h.setUsers (fun c' hc' => h.users c' (List.mem_of_mem_erase hc')) ?_
        intro e he
        rcases List.mem_cons.1 he with rfl | he
        · exact h.users _ hmem
        · exact h.callers e he
      · obtain rfl := Option.some.inj hstep
        exact h
  · exact absurd hstep (by simp)

theorem Homes.reachableBy (h : s.Homes cfg) (hreach : s.reachableBy c = true) : s.Made c := by
  unfold TcpServer.reachableBy at hreach
  rw [Bool.and_eq_true, Bool.or_eq_true, List.any_eq_true, List.any_eq_true] at hreach
  obtain ⟨-, ⟨c', hc', heq⟩ | ⟨f, hf, heq⟩⟩ := hreach
  · exact of_decide_eq_true heq ▸ h.users c' hc'
  · obtain rfl := of_decide_eq_true heq
    exact ((h.loops _).frame _ hf c rfl).1

theorem polls_connection {active : List Active} {readable writable : Bool}
    (h : s.polls cfg l active = true) (hmem : .connection c readable writable ∈ active) :
    s.At l c ∧ (s.conn c).channel.state = .add ∧
      (readable = true → (s.conn c).channel.isReading = true) ∧
      (writable = true → (s.conn c).channel.isWriting = true) := by
  simp only [polls, Bool.and_eq_true, List.all_eq_true] at h
  have hone := h.1.1 _ hmem
  simp only [pollable, Bool.and_eq_true, Bool.or_eq_true, decide_eq_true_eq,
    Bool.not_eq_true'] at hone
  obtain ⟨⟨⟨⟨⟨hpos, hlt⟩, hl⟩, hstate⟩, hreadable⟩, hwritable⟩ := hone
  refine ⟨⟨⟨hpos, hlt⟩, hl⟩, hstate, ?_, ?_⟩
  · rintro rfl
    exact hreadable.resolve_left (by simp)
  · rintro rfl
    exact hwritable.resolve_left (by simp)

theorem polls_nodup {active : List Active} (h : s.polls cfg l active = true) :
    (active.filterMap Active.subject).Nodup := by
  simp only [polls, Bool.and_eq_true, decide_eq_true_eq] at h
  exact h.1.2

theorem polls_acceptor {active : List Active} (h : s.polls cfg l active = true)
    (hmem : .acceptor ∈ active) : l = cfg.loop := by
  simp only [polls, Bool.and_eq_true, Bool.or_eq_true, Bool.not_eq_true', decide_eq_true_eq,
    List.contains_eq_mem, decide_eq_false_iff_not] at h
  exact (h.2.resolve_left fun hnot => hnot hmem).1

theorem waits_of_inUserCode (h : s.Homes cfg) (huser : (s.loops l).inUserCode = true) :
    ∀ f ∈ (s.loops l).stack, f.waits = true := by
  have htail := (h.loops l).waits
  unfold Loop.inUserCode at huser
  split at huser
  · next c stack hstack =>
      rw [hstack] at htail ⊢
      exact List.forall_mem_cons.2 ⟨rfl, htail⟩
  · next stack hstack =>
      rw [hstack] at htail ⊢
      exact List.forall_mem_cons.2 ⟨rfl, htail⟩
  · exact absurd huser (by simp)

theorem Homes.setFault (h : s.Homes cfg) : Homes cfg { s with fault := true } := by
  refine { h with loops := ?_ }
  intro l
  exact (h.loops l).mono (fun _ _ hat => hat) (fun _ hmade => hmade) id

theorem Homes.step (h : s.Homes cfg) (hstep : s.step cfg a = some t) : t.Homes cfg := by
  cases a with
  | poll l active =>
      simp only [TcpServer.step, Option.ite_none_right_eq_some, Option.some.injEq] at hstep
      obtain ⟨⟨-, -, hpolls⟩, rfl⟩ := hstep
      refine h.onLoop ((h.loops l).setPhase (by simp [Phase.functors]) ?_ (polls_acceptor hpolls))
      intro b hb c hc
      cases b with
      | connection c' readable writable =>
          obtain rfl : c' = c := by simpa [Active.subject] using hc
          exact (polls_connection hpolls hb).1
      | acceptor | other => exact absurd hc (by simp [Active.subject])
  | next l answer =>
      simp only [TcpServer.step] at hstep
      split at hstep
      · obtain rfl := Option.some.inj hstep
        exact h.setFault
      · split at hstep
        · next hstack => exact h.phaseStep hstack hstep
        · next frame stack hstack => exact h.frameStep hstack hstep
  | outside l =>
      simp only [TcpServer.step, Option.ite_none_right_eq_some, Option.some.injEq] at hstep
      obtain ⟨⟨hstack, -⟩, rfl⟩ := hstep
      exact h.push (by simp [Frame.subject]) (by simp) (by simp [hstack])
  | loopSend c data w =>
      simp only [TcpServer.step, Option.ite_none_right_eq_some, Option.some.injEq] at hstep
      obtain ⟨hreach, rfl⟩ := hstep
      exact h.perform_plain (h.reachableBy hreach) (TcpConnection.plain_send _ _ _)
  | loopShutdown c =>
      simp only [TcpServer.step, Option.ite_none_right_eq_some, Option.some.injEq] at hstep
      obtain ⟨hreach, rfl⟩ := hstep
      exact h.perform_plain (h.reachableBy hreach) (TcpConnection.plain_shutdown _)
  | copy l =>
      simp only [TcpServer.step] at hstep
      split at hstep
      · next c stack hstack =>
          obtain rfl := Option.some.inj hstep
          refine h.setUsers ?_ h.callers
          intro c' hc'
          rcases List.mem_cons.1 hc' with rfl | hc'
          · exact ((h.loops l).frame (.callback c') (by simp [hstack]) c' rfl).1
          · exact h.users c' hc'
      · exact absurd hstep (by simp)
  | clone c =>
      simp only [TcpServer.step, Option.ite_none_right_eq_some, Option.some.injEq] at hstep
      obtain ⟨hmem, rfl⟩ := hstep
      refine h.setUsers ?_ h.callers
      intro c' hc'
      rcases List.mem_cons.1 hc' with rfl | hc'
      · exact h.users _ hmem
      · exact h.users c' hc'
  | drop c =>
      simp only [TcpServer.step, Option.ite_none_right_eq_some, Option.some.injEq] at hstep
      obtain ⟨hmem, rfl⟩ := hstep
      exact h.setUsers (fun c' hc' => h.users c' (List.mem_of_mem_erase hc')) h.callers
  | send c => exact h.test hstep
  | shutdown c => exact h.test hstep
  | goOn c caller =>
      simp only [TcpServer.step, Option.ite_none_right_eq_some, Option.some.injEq] at hstep
      obtain ⟨hmem, rfl⟩ := hstep
      exact h.callerStep hmem
  | queueOther l =>
      obtain rfl := Option.some.inj hstep
      exact h.queueInLoop (by simp [Functor.subject]) (by simp)
  | destruct =>
      simp only [TcpServer.step, Option.ite_none_right_eq_some, Option.some.injEq] at hstep
      obtain ⟨⟨huser, -⟩, rfl⟩ := hstep
      have hnext : Homes cfg { s with destructed := true } := by
        refine { h with loops := ?_ }
        intro l
        exact (h.loops l).mono (fun _ _ hat => hat) (fun _ hmade => hmade) fun _ => rfl
      have hwaits := waits_of_inUserCode h huser
      exact hnext.push (by simp [Frame.subject]) (fun _ => ⟨rfl, rfl⟩) hwaits

theorem of_step_machine (h : (machine cfg).step s a = some t) :
    s.fault = false ∧ s.step cfg a = some t := by
  simpa [machine] using h

theorem homes_of_reaches {ok : TcpServer → Action → Prop} {as : List Action}
    (run : (machine cfg).Reaches ok as s) : s.Homes cfg := by
  refine run.invariant ?_ ?_
  · intro s hinit
    obtain rfl := hinit
    have hidle : ∀ l, Loop.Home cfg new l ⟨[], .poll, []⟩ := by
      intro l
      refine ⟨?_, ?_, ?_, ?_, ?_, ?_, ?_⟩ <;> simp [Phase.functors, Phase.active]
    refine ⟨hidle, by simp [new], by simp [new], by simp [new], by simp [new], by simp [new],
      by simp [new], ?_, fun _ _ => ⟨rfl, rfl⟩, ?_, by simp [new]⟩
    · rintro c ⟨hpos, hlt⟩
      exact absurd hlt (Nat.not_lt.2 hpos)
    · intro l c fd hfd
      exact absurd hfd (by simp [new])
  · intro s a t h _ hstep
    exact h.step (of_step_machine hstep).2

end

end TcpServer
