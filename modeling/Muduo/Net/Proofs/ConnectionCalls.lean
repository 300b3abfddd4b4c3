import Muduo.Net.TcpServer
import Muduo.Net.Proofs.TcpConnection

set_option autoImplicit false

/-! # What the functions of a connection ask for

Each function of a connection makes at most one call to the poller, and the ones that send,
half-close or leave the poller call none of the callbacks that are about the connection itself. -/

namespace Channel

/-- A call to the poller for a channel, or none, with what it does outside of the channel. -/
inductive Update (c : Channel) : Channel → List Poller.Effect → Prop
  | same : Update c c []
  | update (events : Events) : Update c { c with events }.update.1 { c with events }.update.2
  | remove : Update c c.remove.1 c.remove.2

end Channel

namespace TcpConnection

/-- The effects in the poller. -/
def Effect.poller? : Effect → Option Poller.Effect
  | .poller p => some p
  | _ => none

@[simp] theorem filterMap_poller (es : List Poller.Effect) :
    (es.map Effect.poller).filterMap Effect.poller? = es := by
  rw [List.filterMap_map]
  exact List.filterMap_some

/-- What every function of a connection keeps. -/
structure Runs (c : TcpConnection) (r : TcpConnection × List Effect) : Prop where
  update : c.channel.Update r.1.channel (r.2.filterMap Effect.poller?)
  connectionCallback : r.1.connectionCallback = c.connectionCallback
  closeCallback : r.1.closeCallback = c.closeCallback

/-- A function that announces nothing and does not change what is read. -/
structure Plain (c : TcpConnection) (r : TcpConnection × List Effect) : Prop extends Runs c r where
  isReading : r.1.channel.isReading = c.channel.isReading
  silent : ∀ e ∈ r.2, e.isSending = true ∨ e = .shutdownWrite

variable {c : TcpConnection} {data : Bytes} {w : WriteResult}

theorem plain_of_nothing (c : TcpConnection) : Plain c (c, []) :=
  ⟨⟨.same, rfl, rfl⟩, rfl, by simp⟩

@[simp] theorem poller?_writeDirect :
    (c.writeDirect data w).2.2.filterMap Effect.poller? = [] := by
  simp only [writeDirect]
  split
  · cases w with
    | room n =>
        dsimp only
        split <;> simp [Effect.poller?]
    | error errno => simp [Effect.poller?]
  · simp

theorem plain_sendInLoop (c : TcpConnection) (data : Bytes) (w : WriteResult) :
    Plain c (c.sendInLoop data w) := by
  refine ⟨?_, ?_, fun e he => Or.inl (isSending_sendInLoop e he)⟩
  · simp only [sendInLoop]
    split
    · have hhigh (size : Nat) (p : Prop) [Decidable p] :
          (if p then [Effect.queueHighWaterMark size] else []).filterMap Effect.poller? = [] := by
        split <;> rfl
      split
      · refine ⟨?_, rfl, rfl⟩
        simp only [List.filterMap_append, poller?_writeDirect, hhigh, onChannel_effects,
          filterMap_poller]
        exact .update _
      · refine ⟨?_, rfl, rfl⟩
        simp only [List.filterMap_append, poller?_writeDirect, hhigh]
        exact .same
    · refine ⟨?_, rfl, rfl⟩
      simp only [poller?_writeDirect]
      exact .same
  · simp only [sendInLoop]
    split
    · split
      · simp [Channel.enableWriting, Channel.isReading]
      · rfl
    · rfl

theorem plain_send (c : TcpConnection) (data : Bytes) (w : WriteResult) :
    Plain c (c.send data w) := by
  unfold send
  split
  · exact plain_sendInLoop c data w
  · exact plain_of_nothing c

theorem poller?_shutdownInLoop (c : TcpConnection) :
    c.shutdownInLoop.filterMap Effect.poller? = [] := by
  rw [shutdownInLoop_eq]
  split <;> rfl

theorem plain_shutdownInLoop (c : TcpConnection) : Plain c (c, c.shutdownInLoop) := by
  refine ⟨⟨?_, rfl, rfl⟩, rfl, fun e he => Or.inr (eq_of_mem_shutdownInLoop he)⟩
  rw [poller?_shutdownInLoop]
  exact .same

theorem plain_shutdown (c : TcpConnection) : Plain c c.shutdown := by
  unfold shutdown
  split
  · refine ⟨⟨?_, rfl, rfl⟩, rfl, fun e he => Or.inr (eq_of_mem_shutdownInLoop he)⟩
    rw [poller?_shutdownInLoop]
    exact .same
  · exact plain_of_nothing c

theorem poller?_drained (c : TcpConnection) :
    c.drained.2.filterMap Effect.poller? = c.channel.disableWriting.2 := by
  have heffects : c.drained.2 = (c.onChannel Channel.disableWriting).2 ++
      (if c.writeCompleteCallback then [.queueWriteComplete] else []) ++
      (if c.state = .disconnecting then
        (c.onChannel Channel.disableWriting).1.shutdownInLoop else []) := rfl
  have hcomplete : (if c.writeCompleteCallback then [Effect.queueWriteComplete] else []).filterMap
      Effect.poller? = [] := by
    split <;> rfl
  have hhalf : (if c.state = .disconnecting then
      (c.onChannel Channel.disableWriting).1.shutdownInLoop else []).filterMap
      Effect.poller? = [] := by
    split
    · exact poller?_shutdownInLoop _
    · rfl
  simp only [heffects, List.filterMap_append, hcomplete, hhalf, onChannel_effects,
    filterMap_poller, List.append_nil]

theorem plain_handleWrite (c : TcpConnection) (w : WriteResult) : Plain c (c.handleWrite w) := by
  refine ⟨?_, ?_, isSending_handleWrite⟩
  · obtain ⟨-, h⟩ | ⟨-, e, hwrite, -, h⟩ | ⟨-, n, -, h⟩ | ⟨-, -, h⟩ := handleWrite_cases c w <;>
      rw [h]
    · exact (plain_of_nothing c).toRuns
    · refine ⟨?_, rfl, rfl⟩
      have hpoller : [e].filterMap Effect.poller? = [] := by
        cases e <;> first | rfl | exact absurd hwrite (by simp [Effect.isWrite])
      rw [hpoller]
      exact .same
    · exact ⟨.same, rfl, rfl⟩
    · refine ⟨?_, rfl, rfl⟩
      rw [List.filterMap_cons_none rfl, poller?_drained]
      exact .update _
  · obtain ⟨-, h⟩ | ⟨-, e, -, -, h⟩ | ⟨-, n, -, h⟩ | ⟨-, -, h⟩ := handleWrite_cases c w <;> rw [h]
    simp [drained, Channel.disableWriting, Channel.isReading]

theorem plain_remove (c : TcpConnection) : Plain c (c.onChannel Channel.remove) := by
  refine ⟨⟨?_, rfl, rfl⟩, rfl, fun e he => Or.inl (isSending_onChannel e he)⟩
  rw [onChannel_effects, filterMap_poller]
  exact .remove

/-! ## The functions that announce -/

theorem poller?_callback (p : Prop) [Decidable p] (e : Effect) (he : e.poller? = none) :
    (if p then [e] else []).filterMap Effect.poller? = [] := by
  split
  · simp [he]
  · rfl

theorem runs_connectEstablished (c : TcpConnection) : Runs c c.connectEstablished := by
  have heffects : c.connectEstablished.2 =
      (({ c with state := .connected } : TcpConnection).onChannel Channel.enableReading).2 ++
        if c.connectionCallback then [.connectionCallback] else [] := rfl
  refine ⟨?_, rfl, rfl⟩
  rw [heffects, List.filterMap_append, onChannel_effects, filterMap_poller,
    poller?_callback _ _ rfl, List.append_nil]
  exact .update _

theorem disconnect_effects (c : TcpConnection) :
    c.disconnect.2 = c.channel.disableAll.2.map .poller ++ [.disconnected] ++
      if c.connectionCallback then [.connectionCallback] else [] := rfl

theorem handleClose_effects (c : TcpConnection) :
    c.handleClose.2 = c.disconnect.2 ++ if c.closeCallback then [.closeCallback] else [] := rfl

theorem runs_disconnect (c : TcpConnection) : Runs c c.disconnect := by
  refine ⟨?_, rfl, rfl⟩
  rw [disconnect_effects, List.filterMap_append, List.filterMap_append, filterMap_poller,
    poller?_callback _ _ rfl, List.append_nil]
  simp only [List.filterMap_cons_none (f := Effect.poller?) (a := .disconnected) rfl,
    List.filterMap_nil, List.append_nil]
  exact .update _

theorem runs_handleClose (c : TcpConnection) : Runs c c.handleClose := by
  refine ⟨?_, rfl, rfl⟩
  rw [handleClose_effects, List.filterMap_append, poller?_callback _ _ rfl, List.append_nil]
  exact (runs_disconnect c).update

end TcpConnection

namespace TcpServer

open TcpConnection (Plain)

variable {c : ConnId} {conn : TcpConnection} {r : TcpConnection × List TcpConnection.Effect}

/-- The two callbacks that a connection's own functions call. -/
theorem called_of_plain (h : Plain conn r) : r.2.filterMap (calledBy c) = [] := by
  refine List.filterMap_eq_nil_iff.2 ?_
  intro e he
  rcases h.silent e he with hsending | rfl
  · cases e <;> first | rfl | exact absurd hsending (by simp [TcpConnection.Effect.isSending])
  · rfl

/-- `announce` if the callback is set. -/
def announces (c : ConnId) (conn : TcpConnection) : List Frame :=
  if conn.connectionCallback then [.announce c] else []

theorem called_poller (es : List Poller.Effect) :
    (es.map TcpConnection.Effect.poller).filterMap (calledBy c) = [] := by
  rw [List.filterMap_map]
  exact List.filterMap_eq_nil_iff.2 fun _ _ => rfl

theorem called_connectEstablished :
    conn.connectEstablished.2.filterMap (calledBy c) = announces c conn := by
  have heffects : conn.connectEstablished.2 =
      (({ conn with state := .connected } : TcpConnection).onChannel Channel.enableReading).2 ++
        if conn.connectionCallback then [.connectionCallback] else [] := rfl
  rw [heffects, List.filterMap_append, TcpConnection.onChannel_effects, called_poller]
  unfold announces
  split <;> rfl

theorem called_disconnect :
    conn.disconnect.2.filterMap (calledBy c) = announces c conn := by
  rw [TcpConnection.disconnect_effects, List.filterMap_append, List.filterMap_append,
    called_poller]
  unfold announces
  split <;> rfl

theorem called_handleClose :
    conn.handleClose.2.filterMap (calledBy c) =
      announces c conn ++ if conn.closeCallback then [.closeCallback c] else [] := by
  rw [TcpConnection.handleClose_effects, List.filterMap_append, called_disconnect]
  split <;> rfl

theorem queued_poller (es : List Poller.Effect) :
    (es.map TcpConnection.Effect.poller).filterMap (queuedBy c) = [] := by
  rw [List.filterMap_map]
  exact List.filterMap_eq_nil_iff.2 fun _ _ => rfl

theorem queued_connectEstablished :
    conn.connectEstablished.2.filterMap (queuedBy c) = [] := by
  refine List.filterMap_eq_nil_iff.2 ?_
  intro e he
  rcases TcpConnection.connectEstablished_effects conn e he with ⟨p, rfl⟩ | rfl <;> rfl

theorem queued_disconnect : conn.disconnect.2.filterMap (queuedBy c) = [] := by
  rw [TcpConnection.disconnect_effects, List.filterMap_append, List.filterMap_append,
    queued_poller]
  split <;> rfl

theorem queued_handleClose : conn.handleClose.2.filterMap (queuedBy c) = [] := by
  rw [TcpConnection.handleClose_effects, List.filterMap_append, queued_disconnect]
  split <;> rfl

theorem queued_shutdownInLoop : conn.shutdownInLoop.filterMap (queuedBy c) = [] := by
  rw [TcpConnection.shutdownInLoop_eq]
  split <;> rfl

/-! ## Registration -/

theorem foldl_register (es : List TcpConnection.Effect) (channels : Nat → Option ConnId) :
    es.foldl (register c) channels
      = (es.filterMap TcpConnection.Effect.poller?).foldl
          (fun channels p => register c channels (.poller p)) channels := by
  induction es generalizing channels with
  | nil => rfl
  | cons e es ih => cases e <;> exact ih _

/-- `channels_` names `c` under its descriptor only, and only while the channel is not new. -/
def Registered (c : ConnId) (channel : Channel) (channels : Nat → Option ConnId) : Prop :=
  ∀ fd, channels fd = some c → channel.fd = fd ∧ channel.state ≠ .new

theorem Registered.update {channel channel' : Channel} {es : List Poller.Effect}
    {channels : Nat → Option ConnId} (h : Registered c channel channels)
    (hupdate : channel.Update channel' es) :
    Registered c channel' (es.foldl (fun channels p => register c channels (.poller p)) channels) ∧
      ∀ fd c', c' ≠ c →
        es.foldl (fun channels p => register c channels (.poller p)) channels fd = some c' →
        channels fd = some c' := by
  cases hupdate with
  | same => exact ⟨h, fun _ _ _ h => h⟩
  | update events =>
      unfold Channel.update Poller.updateChannel
      split
      · constructor
        · intro fd hfd
          refine ⟨?_, by simp⟩
          by_cases heq : fd = channel.fd
          · exact heq.symm
          · refine (h fd ?_).1
            simpa [register, Poller.update, Function.update_of_ne heq] using hfd
        · intro fd c' hne hfd
          by_cases heq : fd = channel.fd
          · subst heq
            have hsome : some c = some c' := by
              simpa [register, Poller.update] using hfd
            exact absurd (Option.some.inj hsome).symm hne
          · simpa [register, Poller.update, Function.update_of_ne heq] using hfd
      · exact ⟨fun fd hfd => ⟨(h fd hfd).1, by simp⟩, fun _ _ _ h => h⟩
      · split
        · exact ⟨fun fd hfd => ⟨(h fd hfd).1, by simp⟩, fun _ _ _ h => h⟩
        · exact ⟨h, fun _ _ _ h => h⟩
  | remove =>
      -- the descriptor is deleted from the kernel's set, too, if it is there
      have hdeleted (channels : Nat → Option ConnId) :
          (if channel.state = .add then Poller.update .del channel else []).foldl
            (fun channels p => register c channels (.poller p)) channels = channels := by
        split <;> rfl
      have herase : channel.remove.2.foldl
          (fun channels p => register c channels (.poller p)) channels
            = Function.update channels channel.fd none := hdeleted _
      rw [herase]
      constructor
      · intro fd hfd
        by_cases heq : fd = channel.fd
        · simp [heq] at hfd
        · rw [Function.update_of_ne heq] at hfd
          exact absurd (h fd hfd).1.symm heq
      · intro fd c' _ hfd
        by_cases heq : fd = channel.fd
        · simp [heq] at hfd
        · rwa [Function.update_of_ne heq] at hfd

end TcpServer
