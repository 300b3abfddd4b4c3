import Muduo.Lib.Machine
import Muduo.Lib.Trace
import Muduo.Net.TcpConnection

set_option autoImplicit false

/-! # The outgoing stream of a connection

What each function of the loop thread does to the bytes on their way out, and from that the
integrity of the stream over every run on the loop thread. -/

/-- Not an error that makes `SendInLoop` drop the data. -/
def WriteResult.Benign (w : WriteResult) : Prop := w ≠ .error .epipe ∧ w ≠ .error .econnreset

instance (w : WriteResult) : Decidable w.Benign :=
  inferInstanceAs (Decidable (w ≠ .error .epipe ∧ w ≠ .error .econnreset))

/-- The kernel takes everything it is offered. -/
def WriteResult.TakesAll (w : WriteResult) (data : Bytes) : Prop :=
  match w with
  | .room n => data.length ≤ n
  | .error _ => False

instance (data : Bytes) : (w : WriteResult) → Decidable (w.TakesAll data)
  | .room n => inferInstanceAs (Decidable (data.length ≤ n))
  | .error _ => isFalse id

namespace TcpConnection

/-! ## What the effects say -/

namespace Effect

/-- The bytes that the socket took. -/
def accepted : Effect → Bytes
  | .write data => data
  | _ => []

/-- A call of `::write`, successful or not. -/
def isWrite : Effect → Bool
  | .write _ => true
  | .writeError _ => true
  | _ => false

/-- The bytes that the socket took or the output buffer keeps. -/
def handled : Effect → Bytes
  | .write data => data
  | .append data => data
  | _ => []

/-- What the functions that send do, half-closing apart. -/
def isSending : Effect → Bool
  | .shutdownWrite => false
  | .connectionCallback => false
  | .closeCallback => false
  | .disconnected => false
  | _ => true

end Effect

/-- Nothing is written behind a half-close, which is not repeated either. -/
def HalfClosedOnce (trace : List Effect) : Prop :=
  Trace.NeverAfter (· = .shutdownWrite) (fun e => e = .shutdownWrite ∨ e.isWrite = true) trace

/-- The bytes that the socket took, in order. -/
def written (es : List Effect) : Bytes := es.flatMap Effect.accepted

@[simp] theorem written_nil : written [] = [] := rfl

@[simp] theorem written_cons (e : Effect) (es : List Effect) :
    written (e :: es) = e.accepted ++ written es := List.flatMap_cons

@[simp] theorem written_append (es es' : List Effect) :
    written (es ++ es') = written es ++ written es' := List.flatMap_append

@[simp] theorem written_poller (es : List Poller.Effect) : written (es.map .poller) = [] := by
  induction es with
  | nil => rfl
  | cons e es ih => rw [List.map_cons, written_cons, ih]; rfl

/-- What the effects do with the bytes they are given, in order. -/
def handled (es : List Effect) : Bytes := es.flatMap Effect.handled

@[simp] theorem handled_nil : handled [] = [] := rfl

@[simp] theorem handled_cons (e : Effect) (es : List Effect) :
    handled (e :: es) = e.handled ++ handled es := List.flatMap_cons

@[simp] theorem handled_append (es es' : List Effect) :
    handled (es ++ es') = handled es ++ handled es' := List.flatMap_append

/-- The writing mode shows whether bytes are pending. -/
def Balanced (c : TcpConnection) : Prop := c.channel.isWriting = true ↔ c.outputBuffer ≠ []

theorem balanced_new (fd : Nat) (connection writeComplete close highWaterMark : Bool) :
    Balanced (new fd connection writeComplete close highWaterMark) :=
  ⟨fun h => absurd h (by simp [new, Channel.new, Channel.isWriting, Events.none]),
    fun h => absurd rfl h⟩

/-! ## Calls of the channel -/

section

variable (c : TcpConnection) (f : Channel → Channel × List Poller.Effect)

@[simp] theorem onChannel_state : (c.onChannel f).1.state = c.state := rfl

@[simp] theorem onChannel_outputBuffer : (c.onChannel f).1.outputBuffer = c.outputBuffer := rfl

@[simp] theorem onChannel_channel : (c.onChannel f).1.channel = (f c.channel).1 := rfl

@[simp] theorem onChannel_effects : (c.onChannel f).2 = (f c.channel).2.map .poller := rfl

variable {c f} in
theorem mem_onChannel {e : Effect} (he : e ∈ (c.onChannel f).2) : ∃ p, e = .poller p := by
  obtain ⟨p, -, rfl⟩ := List.mem_map.1 he
  exact ⟨p, rfl⟩

end

/-! ## SendInLoop -/

section

variable {c : TcpConnection} {data : Bytes} {w : WriteResult}

/-- The two ways in which the writing mode and the output buffer agree. -/
theorem Balanced.cases (h : Balanced c) :
    (c.channel.isWriting = false ∧ c.outputBuffer = []) ∨
      (c.channel.isWriting = true ∧ c.outputBuffer ≠ []) := by
  by_cases hw : c.channel.isWriting = true
  · exact Or.inr ⟨hw, h.1 hw⟩
  · refine Or.inl ⟨by simpa using hw, ?_⟩
    by_contra hne
    exact hw (h.2 hne)

@[simp] theorem sendInLoop_state : (c.sendInLoop data w).1.state = c.state := by
  simp only [sendInLoop]
  split
  · split <;> rfl
  · rfl

@[simp] theorem send_state : (c.send data w).1.state = c.state := by
  simp only [send]
  split
  · exact sendInLoop_state
  · rfl

/-- The bytes of `data` that the direct write takes, and no others, are written. -/
theorem written_writeDirect :
    written (c.writeDirect data w).2.2 = data.take (c.writeDirect data w).1 := by
  simp only [writeDirect]
  split
  · cases w with
    | room n =>
        dsimp only
        split <;> simp [Effect.accepted]
    | error errno => simp [Effect.accepted]
  · simp

theorem writeDirect_err (hw : w.Benign) : (c.writeDirect data w).2.1 = false := by
  simp only [writeDirect]
  split
  · cases w with
    | room n => rfl
    | error errno => simpa [WriteResult.Benign] using hw
  · rfl

/-- With bytes pending nothing is written directly. -/
theorem writeDirect_pending (h : c.outputBuffer ≠ []) : c.writeDirect data w = (0, false, []) := by
  have hlen : c.outputBuffer.length ≠ 0 := by simpa using h
  simp [writeDirect, hlen]

/-- Unless the direct write fails for good, nothing is lost, repeated or put in another order. -/
theorem stream_of_no_err (hc : Balanced c) (h : (c.writeDirect data w).2.1 = false) :
    written (c.sendInLoop data w).2 ++ (c.sendInLoop data w).1.outputBuffer
      = c.outputBuffer ++ data := by
  have hsplit : c.outputBuffer ++ data
      = written (c.writeDirect data w).2.2 ++
          (c.outputBuffer ++ data.drop (c.writeDirect data w).1) := by
    -- either nothing was pending, or nothing is written directly
    rcases hc.cases with ⟨-, hempty⟩ | ⟨-, hpending⟩
    · rw [hempty, List.nil_append, List.nil_append, written_writeDirect, List.take_append_drop]
    · rw [writeDirect_pending hpending, written_nil, List.nil_append, List.drop_zero]
  rw [hsplit]
  simp only [sendInLoop, h]
  split
  · split <;> split <;> simp [Effect.accepted]
  · rename_i hnone
    have hdone : ¬ data.length - (c.writeDirect data w).1 > 0 := fun hmore => hnone ⟨rfl, hmore⟩
    have hall : data.drop (c.writeDirect data w).1 = [] := by
      rw [List.drop_eq_nil_iff]
      omega
    rw [hall, List.append_nil]

/-- Nothing that is sent is lost, repeated or put in another order. -/
theorem sendInLoop_stream (hc : Balanced c) (hw : w.Benign) :
    written (c.sendInLoop data w).2 ++ (c.sendInLoop data w).1.outputBuffer
      = c.outputBuffer ++ data :=
  stream_of_no_err hc (writeDirect_err hw)

theorem sendInLoop_balanced (hc : Balanced c) : Balanced (c.sendInLoop data w).1 := by
  simp only [sendInLoop]
  split
  · rename_i hmore
    have hne : c.outputBuffer ++ data.drop (c.writeDirect data w).1 ≠ [] := by
      intro hnil
      have := List.drop_eq_nil_iff.1 (List.append_eq_nil_iff.1 hnil).2
      omega
    split
    · simp [Balanced, hne]
    · rename_i hwriting
      simpa [Balanced, hne] using hwriting
  · exact hc

theorem isSending_writeDirect : ∀ e ∈ (c.writeDirect data w).2.2, e.isSending = true := by
  simp only [writeDirect]
  split
  · cases w with
    | room n =>
        dsimp only
        split <;> simp [Effect.isSending]
    | error errno => simp [Effect.isSending]
  · simp

theorem isSending_onChannel {f : Channel → Channel × List Poller.Effect} :
    ∀ e ∈ (c.onChannel f).2, e.isSending = true := by
  intro e he
  obtain ⟨p, rfl⟩ := mem_onChannel he
  rfl

theorem isWrite_onChannel (c : TcpConnection) (f : Channel → Channel × List Poller.Effect) :
    ∀ e ∈ (c.onChannel f).2, e.isWrite = false := by
  intro e he
  obtain ⟨p, rfl⟩ := mem_onChannel he
  rfl

theorem isSending_sendInLoop : ∀ e ∈ (c.sendInLoop data w).2, e.isSending = true := by
  have hmore (high : List Effect) (hhigh : ∀ e ∈ high, e.isSending = true) (rest : Bytes)
      (enabled : List Effect) (henabled : ∀ e ∈ enabled, e.isSending = true) :
      ∀ e ∈ (c.writeDirect data w).2.2 ++ high ++ [.append rest] ++ enabled,
        e.isSending = true := by
    simp only [List.forall_mem_append, List.forall_mem_singleton]
    exact ⟨⟨⟨isSending_writeDirect, hhigh⟩, rfl⟩, henabled⟩
  simp only [sendInLoop]
  split
  · refine hmore _ ?_ _ _ ?_
    · split <;> simp [Effect.isSending]
    · split
      · exact isSending_onChannel
      · simp
  · exact isSending_writeDirect

theorem shutdownWrite_notMem_sendInLoop : .shutdownWrite ∉ (c.sendInLoop data w).2 := fun hmem =>
  absurd (isSending_sendInLoop _ hmem) (by simp [Effect.isSending])

theorem handled_writeDirect :
    handled (c.writeDirect data w).2.2 = data.take (c.writeDirect data w).1 := by
  simp only [writeDirect]
  split
  · cases w with
    | room n =>
        dsimp only
        split <;> simp [Effect.handled]
    | error errno => simp [Effect.handled]
  · simp

/-- Unless the direct write fails for good, `SendInLoop` takes charge of all the data. -/
theorem handled_of_no_err (h : (c.writeDirect data w).2.1 = false) :
    handled (c.sendInLoop data w).2 = data := by
  have hdirect : handled (c.writeDirect data w).2.2 = data.take (c.writeDirect data w).1 :=
    handled_writeDirect
  simp only [sendInLoop, h]
  split
  · have henabled (enabled : List Poller.Effect) : handled (enabled.map .poller) = [] := by
      simp [handled, List.flatMap_map, Effect.handled]
    split <;> split <;> simp [hdirect, henabled, Effect.handled]
  · rename_i hnone
    have hdone : ¬ data.length - (c.writeDirect data w).1 > 0 := fun hmore => hnone ⟨rfl, hmore⟩
    rw [hdirect, List.take_of_length_le]
    omega

/-- `SendInLoop` takes charge of the data it is given, and of nothing else. -/
theorem handled_sendInLoop (hw : w.Benign) : handled (c.sendInLoop data w).2 = data :=
  handled_of_no_err (writeDirect_err hw)

/-! ## HandleWrite -/

theorem handleWrite_of_idle (h : c.channel.isWriting = false) : c.handleWrite w = (c, []) := by
  simp [handleWrite, h]

@[simp] theorem drained_state : c.drained.1.state = c.state := rfl

@[simp] theorem drained_outputBuffer : c.drained.1.outputBuffer = c.outputBuffer := rfl

@[simp] theorem drained_isWriting : c.drained.1.channel.isWriting = false :=
  Channel.isWriting_disableWriting c.channel

/-- Draining ends with the half-close, if somebody asked for it. -/
theorem drained_effects (c : TcpConnection) :
    ∃ es, c.drained.2 = es ++ (if c.state = .disconnecting then [.shutdownWrite] else []) ∧
      ∀ e ∈ es, e.isWrite = false ∧ e.isSending = true := by
  refine ⟨(c.onChannel Channel.disableWriting).2 ++
    if c.writeCompleteCallback then [.queueWriteComplete] else [], ?_, fun e he => ?_⟩
  · have hidle : (c.onChannel Channel.disableWriting).1.shutdownInLoop = [.shutdownWrite] := by
      simp [shutdownInLoop]
    simp only [drained, hidle, onChannel_state]
    rfl
  · rcases List.mem_append.1 he with he | he
    · obtain ⟨p, -, rfl⟩ := List.mem_map.1 he
      exact ⟨rfl, rfl⟩
    · split at he
      · rw [List.mem_singleton.1 he]
        exact ⟨rfl, rfl⟩
      · exact absurd he (by simp)

/-- What `HandleWrite` does. -/
theorem handleWrite_cases (c : TcpConnection) (w : WriteResult) :
    (c.channel.isWriting = false ∧ c.handleWrite w = (c, [])) ∨
    (c.channel.isWriting = true ∧
      ∃ e, e.isWrite = true ∧ e.accepted = [] ∧ c.handleWrite w = (c, [e])) ∨
    (c.channel.isWriting = true ∧ ∃ n, n < c.outputBuffer.length ∧
      c.handleWrite w = ({ c with outputBuffer := c.outputBuffer.drop n },
        [.write (c.outputBuffer.take n)])) ∨
    (c.channel.isWriting = true ∧ w.TakesAll c.outputBuffer ∧
      c.handleWrite w = (({ c with outputBuffer := [] } : TcpConnection).drained.1,
        .write c.outputBuffer :: ({ c with outputBuffer := [] } : TcpConnection).drained.2)) := by
  cases hwriting : c.channel.isWriting with
  | false => exact Or.inl ⟨rfl, handleWrite_of_idle hwriting⟩
  | true =>
      right
      cases w with
      | error errno =>
          exact Or.inl ⟨rfl, .writeError errno, rfl, rfl, by simp [handleWrite, hwriting]⟩
      | room room =>
          simp only [handleWrite, hwriting, if_true]
          by_cases hnone : min room c.outputBuffer.length = 0
          · left
            exact ⟨trivial, .write [], rfl, rfl, by simp [hnone]⟩
          · rw [if_pos (Nat.pos_of_ne_zero hnone)]
            right
            by_cases hall : c.outputBuffer.length ≤ room
            · right
              rw [Nat.min_eq_right hall]
              exact ⟨trivial, hall, by simp⟩
            · left
              rw [Nat.min_eq_left (Nat.le_of_not_le hall)]
              refine ⟨trivial, room, by omega, ?_⟩
              rw [if_neg]
              rw [List.length_drop]
              omega

@[simp] theorem handleWrite_state : (c.handleWrite w).1.state = c.state := by
  obtain ⟨-, h⟩ | ⟨-, e, -, -, h⟩ | ⟨-, n, -, h⟩ | ⟨-, -, h⟩ := handleWrite_cases c w <;> rw [h]
  rfl

theorem written_of_no_write {es : List Effect} (h : ∀ e ∈ es, e.isWrite = false) :
    written es = [] := by
  rw [written, List.flatMap_eq_nil_iff]
  intro e he
  have := h e he
  cases e <;> first | rfl | exact absurd this (by simp [Effect.isWrite])

theorem written_drained (c : TcpConnection) : written c.drained.2 = [] := by
  obtain ⟨es, hes, hfree⟩ := drained_effects c
  rw [hes, written_append, written_of_no_write fun e he => (hfree e he).1]
  split <;> rfl

/-- What is taken from the output buffer is written, and nothing else. -/
theorem handleWrite_stream :
    written (c.handleWrite w).2 ++ (c.handleWrite w).1.outputBuffer = c.outputBuffer := by
  obtain ⟨-, h⟩ | ⟨-, e, -, haccepted, h⟩ | ⟨-, n, -, h⟩ | ⟨-, -, h⟩ := handleWrite_cases c w <;>
    rw [h]
  · rfl
  · simp [haccepted]
  · simp [Effect.accepted]
  · simp [Effect.accepted, written_drained]

theorem handleWrite_balanced (hc : Balanced c) : Balanced (c.handleWrite w).1 := by
  obtain ⟨-, h⟩ | ⟨-, e, -, -, h⟩ | ⟨hwriting, n, hn, h⟩ | ⟨-, -, h⟩ := handleWrite_cases c w <;>
    rw [h]
  · exact hc
  · exact hc
  · have hne : c.outputBuffer.drop n ≠ [] := by
      rw [ne_eq, List.drop_eq_nil_iff]
      omega
    exact ⟨fun _ => hne, fun _ => hwriting⟩
  · simp [Balanced]

theorem isSending_handleWrite :
    ∀ e ∈ (c.handleWrite w).2, e.isSending = true ∨ e = .shutdownWrite := by
  intro e he
  obtain ⟨-, h⟩ | ⟨-, f, hwrite, -, h⟩ | ⟨-, n, -, h⟩ | ⟨-, -, h⟩ := handleWrite_cases c w <;>
    rw [h] at he
  · exact absurd he (by simp)
  · obtain rfl := List.mem_singleton.1 he
    cases e <;> first | exact Or.inl rfl | exact absurd hwrite (by simp [Effect.isWrite])
  · obtain rfl := List.mem_singleton.1 he
    exact Or.inl rfl
  · obtain ⟨es, hes, hfree⟩ := drained_effects { c with outputBuffer := [] }
    rcases List.mem_cons.1 he with rfl | he
    · exact Or.inl rfl
    · rcases List.mem_append.1 (hes ▸ he) with he | he
      · exact Or.inl (hfree e he).2
      · split at he
        · exact Or.inr (List.mem_singleton.1 he)
        · exact absurd he (by simp)

theorem shutdownInLoop_eq (c : TcpConnection) :
    c.shutdownInLoop = if c.channel.isWriting = false then [.shutdownWrite] else [] := by
  simp [shutdownInLoop]

theorem eq_of_mem_shutdownInLoop {e : Effect} (he : e ∈ c.shutdownInLoop) : e = .shutdownWrite := by
  rw [shutdownInLoop_eq] at he
  split at he
  · exact List.mem_singleton.1 he
  · exact absurd he (by simp)

theorem isWrite_shutdownInLoop (c : TcpConnection) : ∀ e ∈ c.shutdownInLoop, e.isWrite = false := by
  intro e he
  rw [eq_of_mem_shutdownInLoop he]
  rfl

end

/-! ## Half-closing -/

theorem sendInLoop_halfClosedOnce (c : TcpConnection) (data : Bytes) (w : WriteResult) :
    HalfClosedOnce (c.sendInLoop data w).2 :=
  Trace.neverAfter_of_absent fun _ he heq => shutdownWrite_notMem_sendInLoop (heq ▸ he)

theorem shutdown_halfClosedOnce (c : TcpConnection) : HalfClosedOnce c.shutdown.2 := by
  simp only [shutdown, shutdownInLoop_eq]
  split
  · split
    · exact List.pairwise_singleton _ _
    · exact Trace.neverAfter_nil
  · exact Trace.neverAfter_nil

theorem handleWrite_halfClosedOnce (c : TcpConnection) (w : WriteResult) :
    HalfClosedOnce (c.handleWrite w).2 := by
  obtain ⟨-, h⟩ | ⟨-, e, -, -, h⟩ | ⟨-, n, -, h⟩ | ⟨-, -, h⟩ := handleWrite_cases c w <;> rw [h]
  · exact Trace.neverAfter_nil
  · exact List.pairwise_singleton _ _
  · exact List.pairwise_singleton _ _
  · obtain ⟨es, hes, hfree⟩ := drained_effects { c with outputBuffer := [] }
    have habsent : ∀ e ∈ Effect.write c.outputBuffer :: es, ¬ e = .shutdownWrite := by
      intro e he
      rcases List.mem_cons.1 he with rfl | he
      · simp
      · rintro rfl
        exact absurd (hfree _ he).2 (by simp [Effect.isSending])
    rw [hes, ← List.cons_append]
    split
    · exact .concat_of_absent _ habsent
    · rw [List.append_nil]
      exact Trace.neverAfter_of_absent habsent

/-- `HandleWrite` half-closes only a connection that is shutting down, with nothing left to send. -/
theorem handleWrite_half {c : TcpConnection} {w : WriteResult}
    (hhalf : .shutdownWrite ∈ (c.handleWrite w).2) :
    c.state = .disconnecting ∧ w.TakesAll c.outputBuffer ∧
      (c.handleWrite w).1.outputBuffer = [] := by
  obtain ⟨-, h⟩ | ⟨-, e, hwrite, -, h⟩ | ⟨-, n, -, h⟩ | ⟨-, hall, h⟩ := handleWrite_cases c w <;>
    rw [h] at hhalf ⊢
  · exact absurd hhalf (by simp)
  · rw [← List.mem_singleton.1 hhalf] at hwrite
    exact absurd hwrite (by simp [Effect.isWrite])
  · exact absurd hhalf (by simp)
  · obtain ⟨es, hes, hfree⟩ := drained_effects { c with outputBuffer := [] }
    refine ⟨?_, hall, rfl⟩
    by_contra hstate
    rw [hes, if_neg hstate, List.append_nil] at hhalf
    rcases List.mem_cons.1 hhalf with heq | hmem
    · exact absurd heq (by simp)
    · exact absurd (hfree _ hmem).2 (by simp [Effect.isSending])

/-- `shutdown` half-closes only an idle connection. -/
theorem shutdown_half {c : TcpConnection} (hc : Balanced c)
    (hhalf : .shutdownWrite ∈ c.shutdown.2) :
    c.shutdown.1.state = .disconnecting ∧ c.shutdown.1.outputBuffer = [] := by
  simp only [shutdown, shutdownInLoop_eq] at hhalf ⊢
  split at hhalf
  · rename_i hconnected
    split at hhalf
    · rename_i hidle
      rcases hc.cases with ⟨-, hempty⟩ | ⟨hwriting, -⟩
      · rw [if_pos hconnected]
        exact ⟨rfl, hempty⟩
      · exact absurd (hidle.symm.trans hwriting) (by simp)
    · exact absurd hhalf (by simp)
  · exact absurd hhalf (by simp)

theorem shutdown_stream (c : TcpConnection) :
    written c.shutdown.2 ++ c.shutdown.1.outputBuffer = c.outputBuffer := by
  simp only [shutdown, shutdownInLoop_eq]
  split
  · split <;> simp [Effect.accepted]
  · rfl

theorem shutdown_balanced {c : TcpConnection} (hc : Balanced c) : Balanced c.shutdown.1 := by
  simp only [shutdown]
  split <;> exact hc

/-! ## Opening and closing -/

theorem connectEstablished_balanced {c : TcpConnection} (hc : Balanced c) :
    Balanced c.connectEstablished.1 := by
  have hwriting : c.connectEstablished.1.channel.isWriting = c.channel.isWriting :=
    Channel.isWriting_enableReading c.channel
  rw [Balanced, hwriting]
  exact hc

/-- Establishing a connection touches the poller and calls back. -/
theorem connectEstablished_effects (c : TcpConnection) :
    ∀ e ∈ c.connectEstablished.2, (∃ p, e = .poller p) ∨ e = .connectionCallback := by
  have heffects : c.connectEstablished.2 =
      (({ c with state := .connected } : TcpConnection).onChannel Channel.enableReading).2 ++
        if c.connectionCallback then [.connectionCallback] else [] := rfl
  intro e he
  rw [heffects, List.mem_append] at he
  rcases he with he | he
  · exact Or.inl (mem_onChannel he)
  · split at he
    · exact Or.inr (List.mem_singleton.1 he)
    · exact absurd he (by simp)

theorem isWrite_connectEstablished (c : TcpConnection) :
    ∀ e ∈ c.connectEstablished.2, e.isWrite = false := by
  intro e he
  rcases connectEstablished_effects c e he with ⟨p, rfl⟩ | rfl <;> rfl

/-- Writing, keeping data, or coming back to the poller. -/
def Effect.revives : Effect → Bool
  | .write _ => true
  | .writeError _ => true
  | .append _ => true
  | .poller (.setChannel _) => true
  | .poller (.epollCtl op _ _) => decide (op ≠ .del)
  | _ => false

/-- A connection that is down does not come back. -/
def Inert (trace : List Effect) : Prop :=
  Trace.NeverAfter (· = .disconnected) (fun e => e.revives = true) trace

@[simp] theorem disconnect_state (c : TcpConnection) : c.disconnect.1.state = .disconnected := rfl

@[simp] theorem disconnect_events (c : TcpConnection) :
    c.disconnect.1.channel.events = .none := Channel.events_disableAll c.channel

@[simp] theorem handleClose_state (c : TcpConnection) : c.handleClose.1.state = .disconnected := rfl

@[simp] theorem handleClose_events (c : TcpConnection) :
    c.handleClose.1.channel.events = .none := Channel.events_disableAll c.channel

theorem inert_disconnect (c : TcpConnection) : Inert c.disconnect.2 := by
  have hdisabled : ∀ e ∈ (({ c with state := .disconnected } : TcpConnection).onChannel
      Channel.disableAll).2, ¬ e = .disconnected := fun e he heq =>
    absurd (isSending_onChannel e he) (by simp [heq, Effect.isSending])
  refine Trace.NeverAfter.append_of_quiet (.concat_of_absent _ hdisabled) ?_
  split <;> simp [Effect.revives]

theorem inert_handleClose (c : TcpConnection) : Inert c.handleClose.2 := by
  refine Trace.NeverAfter.append_of_quiet (inert_disconnect c) ?_
  split <;> simp [Effect.revives]

theorem revives_shutdownInLoop (c : TcpConnection) :
    ∀ e ∈ c.shutdownInLoop, ¬ e.revives = true := by
  intro e he
  rw [eq_of_mem_shutdownInLoop he]
  simp [Effect.revives]

theorem revives_remove (c : TcpConnection) :
    ∀ e ∈ (c.onChannel Channel.remove).2, e.revives = false := by
  intro e he
  obtain ⟨p, hp, rfl⟩ := List.mem_map.1 he
  rcases List.mem_cons.1 hp with rfl | hp
  · rfl
  · split at hp
    · rw [List.mem_singleton.1 hp]
      rfl
    · exact absurd hp (by simp)

/-! Closing writes nothing. -/

theorem isWrite_disconnect (c : TcpConnection) : ∀ e ∈ c.disconnect.2, e.isWrite = false := by
  simp only [disconnect, List.forall_mem_append, List.forall_mem_singleton]
  refine ⟨⟨isWrite_onChannel _ _, rfl⟩, ?_⟩
  split <;> simp [Effect.isWrite]

theorem written_handleClose (c : TcpConnection) : written c.handleClose.2 = [] := by
  refine written_of_no_write ?_
  simp only [handleClose, List.forall_mem_append]
  refine ⟨isWrite_disconnect c, ?_⟩
  split <;> simp [Effect.isWrite]

theorem written_connectDestoryed (c : TcpConnection) : written c.connectDestoryed.2 = [] := by
  refine written_of_no_write ?_
  simp only [connectDestoryed, List.forall_mem_append]
  refine ⟨?_, isWrite_onChannel _ _⟩
  split
  · exact isWrite_disconnect c
  · simp

/-! ## Established connections -/

/-- What `ConnectEstablished` makes of a new connection. -/
def Established (c : TcpConnection) : Prop :=
  ∃ fd connection writeComplete close highWaterMark,
    c = (new fd connection writeComplete close highWaterMark).connectEstablished.1

namespace Established

variable {c : TcpConnection}

theorem state_eq (h : Established c) : c.state = .connected := by
  obtain ⟨_, _, _, _, _, rfl⟩ := h
  rfl

theorem outputBuffer_eq (h : Established c) : c.outputBuffer = [] := by
  obtain ⟨_, _, _, _, _, rfl⟩ := h
  rfl

theorem isWriting_eq (h : Established c) : c.channel.isWriting = false := by
  obtain ⟨_, _, _, _, _, rfl⟩ := h
  rfl

theorem balanced (h : Established c) : Balanced c := by
  simp [Balanced, h.outputBuffer_eq, h.isWriting_eq]

end Established

/-! ## Runs on the loop thread -/

/-- A connection used on its loop thread: its effects so far, and the data passed to `send` while
    the connection was `kConnected`. -/
structure OnLoop where
  conn : TcpConnection
  trace : List Effect
  passed : Bytes

namespace OnLoop

inductive Action
  | send (data : Bytes) (w : WriteResult)
  | shutdown
  | handleWrite (w : WriteResult)

/-- The call goes through. -/
def perform (s : OnLoop) (r : TcpConnection × List Effect) : OnLoop :=
  { s with conn := r.1, trace := s.trace ++ r.2 }

def step (s : OnLoop) : Action → OnLoop
  | .send data w =>
      { s.perform (s.conn.send data w) with
        passed := s.passed ++ if s.conn.state = .connected then data else [] }
  | .shutdown => s.perform s.conn.shutdown
  | .handleWrite w => s.perform (s.conn.handleWrite w)

def machine : Machine OnLoop Action where
  init s := Established s.conn ∧ s.trace = [] ∧ s.passed = []
  step s a := some (s.step a)

/-- No write fails with `EPIPE` or `ECONNRESET`. -/
def BenignWrites (_ : OnLoop) : Action → Prop
  | .send _ w => w.Benign
  | .shutdown => True
  | .handleWrite w => w.Benign

instance (s : OnLoop) : (a : Action) → Decidable (BenignWrites s a)
  | .send _ w => inferInstanceAs (Decidable w.Benign)
  | .shutdown => isTrue trivial
  | .handleWrite w => inferInstanceAs (Decidable w.Benign)

/-- What the runs keep. -/
structure Inv (s : OnLoop) : Prop where
  balanced : Balanced s.conn
  stream : written s.trace ++ s.conn.outputBuffer = s.passed
  once : HalfClosedOnce s.trace
  half_closed : .shutdownWrite ∈ s.trace → s.conn.state ≠ .connected ∧ s.conn.outputBuffer = []

variable {s : OnLoop} {a : Action}

/-- Behind the half-close nothing happens any more. -/
theorem Inv.step_half_closed (h : Inv s) (hhalf : .shutdownWrite ∈ s.trace) : s.step a = s := by
  obtain ⟨hstate, hempty⟩ := h.half_closed hhalf
  have hidle : s.conn.channel.isWriting = false := by
    rcases h.balanced.cases with ⟨hidle, -⟩ | ⟨-, hpending⟩
    · exact hidle
    · exact absurd hempty hpending
  cases a with
  | send data w => simp [step, perform, TcpConnection.send, hstate]
  | shutdown => simp [step, perform, TcpConnection.shutdown, hstate]
  | handleWrite w => simp [step, perform, handleWrite_of_idle hidle]

/-- Before the half-close a call keeps the invariant when it passes on `more` without loss. -/
theorem Inv.perform {r : TcpConnection × List Effect} {more : Bytes} (h : Inv s)
    (hopen : .shutdownWrite ∉ s.trace) (hbalanced : Balanced r.1)
    (hstream : written r.2 ++ r.1.outputBuffer = s.conn.outputBuffer ++ more)
    (honce : HalfClosedOnce r.2)
    (hhalf : .shutdownWrite ∈ r.2 → r.1.state ≠ .connected ∧ r.1.outputBuffer = []) :
    Inv { s.perform r with passed := s.passed ++ more } where
  balanced := hbalanced
  stream := by
    simp only [OnLoop.perform, written_append, List.append_assoc]
    rw [hstream, ← h.stream, List.append_assoc]
  once := .append_of_absent (fun e he heq => hopen (heq ▸ he)) honce
  half_closed hmem := hhalf ((List.mem_append.1 hmem).resolve_left hopen)

theorem Inv.step (h : Inv s) (hok : BenignWrites s a) : Inv (s.step a) := by
  -- behind the half-close the state does not change, so only runs without one are of interest
  by_cases hopen : .shutdownWrite ∈ s.trace
  · rw [h.step_half_closed hopen]
    exact h
  have hkeep (s' : OnLoop) : { s' with passed := s'.passed ++ [] } = s' := by
    rw [List.append_nil]
  cases a with
  | send data w =>
      simp only [OnLoop.step, TcpConnection.send]
      split
      · exact h.perform hopen (sendInLoop_balanced h.balanced) (sendInLoop_stream h.balanced hok)
          (sendInLoop_halfClosedOnce _ _ _)
          fun hhalf => absurd hhalf shutdownWrite_notMem_sendInLoop
      · exact h.perform hopen h.balanced (by simp) Trace.neverAfter_nil (by simp)
  | shutdown =>
      rw [← hkeep (s.step _)]
      refine h.perform hopen (shutdown_balanced h.balanced) ?_ (shutdown_halfClosedOnce _)
        fun hhalf => ?_
      · rw [shutdown_stream, List.append_nil]
      · obtain ⟨hstate, hempty⟩ := shutdown_half h.balanced hhalf
        exact ⟨by simp [hstate], hempty⟩
  | handleWrite w =>
      rw [← hkeep (s.step _)]
      refine h.perform hopen (handleWrite_balanced h.balanced) ?_ (handleWrite_halfClosedOnce _ _)
        fun hhalf => ?_
      · rw [handleWrite_stream, List.append_nil]
      · obtain ⟨hstate, -, hempty⟩ := handleWrite_half hhalf
        exact ⟨by simp [hstate], hempty⟩

theorem Inv.of_established (h : machine.init s) : Inv s := by
  obtain ⟨hconn, htrace, hpassed⟩ := h
  constructor
  · exact hconn.balanced
  · rw [htrace, hpassed, hconn.outputBuffer_eq]
    rfl
  · rw [htrace]
    exact Trace.neverAfter_nil
  · simp [htrace]

theorem step_state : (s.step a).conn.state = s.conn.state ∨ a = .shutdown := by
  cases a with
  | send data w =>
      left
      simp only [step, TcpConnection.send]
      split <;> simp [OnLoop.perform]
  | shutdown => exact Or.inr rfl
  | handleWrite w => exact Or.inl (by simp [step, OnLoop.perform])

/-- Only `shutdown` takes a connection out of `kConnected`. -/
theorem connected_or_shutdown_mem {as : List Action} (run : machine.Reaches BenignWrites as s) :
    s.conn.state = .connected ∨ .shutdown ∈ as := by
  refine run.history (I := fun as s => s.conn.state = .connected ∨ .shutdown ∈ as)
    (fun s h => Or.inl h.1.state_eq) ?_
  rintro as s a t ih - hstep
  obtain rfl : s.step a = t := Option.some.inj hstep
  rcases ih with hstate | hmem
  · rcases step_state (s := s) (a := a) with hsame | rfl
    · exact Or.inl (hsame.trans hstate)
    · exact Or.inr (by simp)
  · exact Or.inr (List.mem_append_left _ hmem)

theorem inv_of_reaches {as : List Action} (run : machine.Reaches BenignWrites as s) : Inv s :=
  run.invariant (fun _ => Inv.of_established) fun s a t h hok hstep => by
    obtain rfl : s.step a = t := Option.some.inj hstep
    exact h.step hok

/-- Every run on the loop thread keeps the outgoing stream and half-closes it gracefully. -/
theorem outgoing_stream {as : List Action} (run : machine.Reaches BenignWrites as s) :
    written s.trace ++ s.conn.outputBuffer = s.passed ∧
    (s.conn.channel.isWriting = true ↔ s.conn.outputBuffer ≠ []) ∧
    HalfClosedOnce s.trace ∧
    (.shutdownWrite ∈ s.trace → s.conn.outputBuffer = [] ∧ .shutdown ∈ as) := by
  have hinv := inv_of_reaches run
  refine ⟨hinv.stream, hinv.balanced, hinv.once, ?_⟩
  intro hhalf
  obtain ⟨hstate, hempty⟩ := hinv.half_closed hhalf
  exact ⟨hempty, (connected_or_shutdown_mem run).resolve_left hstate⟩

/-- Two texts sent through short writes, with a shutdown before the rest is out. -/
def shortWrites : List Action :=
  [.send (bytes "hello ") (.room 2), .send (bytes "world") (.room 9), .shutdown,
    .handleWrite (.room 3), .handleWrite (.error .eagain), .handleWrite (.room 100)]

/-- A connection on descriptor 7, with every callback set. -/
def start : OnLoop := ⟨(new 7 true true true true).connectEstablished.1, [], []⟩

theorem outgoing_stream_shortWrites :
    .shutdownWrite ∈ (shortWrites.foldl step start).trace ∧
      written (shortWrites.foldl step start).trace ++
        (shortWrites.foldl step start).conn.outputBuffer = bytes "hello world" ∧
      HalfClosedOnce (shortWrites.foldl step start).trace := by
  have run : machine.Reaches BenignWrites shortWrites (shortWrites.foldl step start) :=
    Machine.reaches_of_exec ⟨⟨7, true, true, true, true, rfl⟩, rfl, rfl⟩ rfl
  obtain ⟨hstream, -, honce, -⟩ := outgoing_stream run
  exact ⟨by decide, hstream.trans (by decide), honce⟩

end OnLoop

end TcpConnection
