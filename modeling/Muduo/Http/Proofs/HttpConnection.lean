import Muduo.Http.HttpConnection
import Muduo.Http.Proofs.BufferParse

set_option autoImplicit false

/-! # Replies on a connection over queues

A message is answered once at most. A reply that closes the connection takes it out of `kConnected`,
and only there `send` takes anything. -/

namespace TcpConnection

variable {c : TcpConnection} {w : WriteResult} {data : Bytes} {es : List HttpEvent}

/-! ## Calls of the message handler -/

theorem writeDirect_failed (h : (c.writeDirect data w).2.1 = true) :
    (c.writeDirect data w).1 = 0 := by
  simp only [writeDirect] at h ⊢
  split at h
  · cases w with
    | room n => exact absurd h (by simp)
    | error errno => split <;> rfl
  · exact absurd h (by simp)

/-- `SendInLoop` takes all of the data or, when the write fails for good, nothing. -/
theorem handled_sendInLoop_or (c : TcpConnection) (data : Bytes) (w : WriteResult) :
    handled (c.sendInLoop data w).2 = data ∨ handled (c.sendInLoop data w).2 = [] := by
  cases herr : (c.writeDirect data w).2.1 with
  | false => exact Or.inl (handled_of_no_err herr)
  | true =>
      right
      have hnone : handled (c.writeDirect data w).2.2 = [] := by
        rw [handled_writeDirect, writeDirect_failed herr, List.take_zero]
      simpa [sendInLoop, herr] using hnone

theorem handled_send (c : TcpConnection) (data : Bytes) (w : WriteResult) :
    handled (c.send data w).2 = data ∨ handled (c.send data w).2 = [] := by
  simp only [send]
  split
  · exact handled_sendInLoop_or c data w
  · exact Or.inr rfl

theorem shutdown_state (c : TcpConnection) : c.shutdown.1.state ≠ .connected := by
  simp only [shutdown]
  split
  · simp
  · assumption

@[simp] theorem handled_shutdown (c : TcpConnection) : handled c.shutdown.2 = [] := by
  simp only [shutdown, shutdownInLoop_eq]
  split
  · split <;> rfl
  · rfl

@[simp] theorem serve_shutdown (c : TcpConnection) : c.serve w .shutdown = c.shutdown := rfl

/-- Outside `kConnected` nothing that the message handler calls has an effect. -/
theorem serveAll_of_not_connected (h : c.state ≠ .connected) (es : List HttpEvent) :
    c.serveAll w es = (c, []) := by
  induction es with
  | nil => rfl
  | cons e es ih =>
      have hserve : c.serve w e = (c, []) := by
        cases e <;> simp [serve, send, shutdown, h]
      rw [serveAll, hserve]
      simp [ih]

end TcpConnection

/-! ## What one message does -/

namespace HttpReply

/-- What is called behind the sending of a reply. -/
def followUp (reply : HttpReply) : List HttpEvent := if reply.keepAlive then [] else [.shutdown]

theorem text_ne_nil (reply : HttpReply) : reply.text ≠ [] := by
  cases reply with
  | badRequest => decide
  | response iterate res => simp [text, HttpResponse.response, crlf]

/-- A reply is taken as a whole or not at all, and one that closes ends `kConnected`. -/
theorem serveAll_reply (reply : HttpReply) (c : TcpConnection) (w : WriteResult)
    (send : HttpEvent) (hsend : c.serve w send = c.send reply.text w) :
    (TcpConnection.handled (c.serveAll w (send :: reply.followUp)).2 = reply.text ∨
      TcpConnection.handled (c.serveAll w (send :: reply.followUp)).2 = []) ∧
    (reply.keepAlive = false →
      (c.serveAll w (send :: reply.followUp)).1.state ≠ .connected) := by
  have htaken := TcpConnection.handled_send c reply.text w
  cases hkeep : reply.keepAlive with
  | true => simpa [followUp, hkeep, TcpConnection.serveAll, hsend] using htaken
  | false =>
      refine ⟨?_, fun _ => ?_⟩
      · simpa [followUp, hkeep, TcpConnection.serveAll, hsend] using htaken
      · simpa [followUp, hkeep, TcpConnection.serveAll, hsend] using TcpConnection.shutdown_state _

end HttpReply

namespace HttpServer

variable (httpCallback : HttpRequest → HttpResponse → HttpResponse)
variable (iterate : HeaderMap → HeaderMap)

/-- The header that `response` sets leaves `KeepAlive()` as it is. -/
theorem keepAlive_response (res : HttpResponse) :
    (res.response iterate).1.keepAlive = res.keepAlive := by
  have hget : HeaderMap.get? (res.response iterate).1.headers kConnection
      = HeaderMap.get? res.headers kConnection := by
    refine (HeaderMap.get?_set _ _ _ _).trans (if_neg ?_)
    decide
  simp only [HttpResponse.keepAlive, hget]

theorem onRequest_eq (req : HttpRequest) :
    onRequest httpCallback iterate req
      = .httpCallback req ::
          .sendBuffer (HttpReply.response iterate (httpCallback req .new)).text ::
          (HttpReply.response iterate (httpCallback req .new)).followUp := by
  have hbranch : ∀ keep : Bool, (if !keep then [HttpEvent.shutdown] else [])
      = if keep then [] else [HttpEvent.shutdown] := by decide
  simp only [onRequest, keepAlive_response, hbranch]
  rfl

/-- A message gets no reply, or one 400, or one response of `HttpCallback_`. -/
theorem onMessage_cases (buf : Bytes) (t : Timestamp) :
    ((onMessage httpCallback iterate buf t).1 = [] ∧ reply? httpCallback iterate buf t = none) ∨
    ((onMessage httpCallback iterate buf t).1 = [.sendString badRequest, .shutdown] ∧
      reply? httpCallback iterate buf t = some .badRequest) ∨
    ∃ req reply, reply = HttpReply.response iterate (httpCallback req .new) ∧
      (onMessage httpCallback iterate buf t).1
        = .httpCallback req :: .sendBuffer reply.text :: reply.followUp ∧
      reply? httpCallback iterate buf t = some reply := by
  have hleaves := HttpRequest.parse_leaves t HttpRequest.new buf
  cases hok : (HttpRequest.new.parse buf t).1 with
  | false =>
      obtain ⟨-, hstate⟩ := hleaves.rejected hok
      have hnot := HttpRequest.acceptable_of_parseLine hstate
      exact Or.inr (Or.inl ⟨by simp [onMessage, hok, hnot], by simp [reply?, hok]⟩)
  | true =>
      cases hdown : (HttpRequest.new.parse buf t).2.1.acceptable with
      | false => exact Or.inl ⟨by simp [onMessage, hok, hdown], by simp [reply?, hok, hdown]⟩
      | true =>
          refine Or.inr (Or.inr ⟨(HttpRequest.new.parse buf t).2.1, _, rfl, ?_, ?_⟩)
          · rw [← onRequest_eq]
            simp [onMessage, hok, hdown]
          · simp [reply?, hok, hdown]

/-- What a message leaves of the connection: the reply is taken as a whole or not at all. -/
theorem serveAll_onMessage (c : TcpConnection) (w : WriteResult) (buf : Bytes) (t : Timestamp) :
    TcpConnection.handled (c.serveAll w (onMessage httpCallback iterate buf t).1).2 = [] ∨
    ∃ reply, reply? httpCallback iterate buf t = some reply ∧
      TcpConnection.handled (c.serveAll w (onMessage httpCallback iterate buf t).1).2
        = reply.text ∧
      (reply.keepAlive = false →
        (c.serveAll w (onMessage httpCallback iterate buf t).1).1.state ≠ .connected) := by
  obtain ⟨hcalls, -⟩ | ⟨hcalls, hreply⟩ | ⟨req, reply, -, hcalls, hreply⟩ :=
    onMessage_cases httpCallback iterate buf t <;> rw [hcalls]
  · exact Or.inl rfl
  · obtain ⟨htaken | htaken, hdown⟩ :=
      HttpReply.badRequest.serveAll_reply c w (.sendString badRequest) rfl
    · exact Or.inr ⟨_, hreply, htaken, hdown⟩
    · exact Or.inl htaken
  · obtain ⟨htaken | htaken, hdown⟩ := reply.serveAll_reply c w (.sendBuffer reply.text) rfl
    · exact Or.inr ⟨_, hreply, htaken, hdown⟩
    · exact Or.inl htaken

end HttpServer

/-! ## Runs -/

namespace HttpConnection

variable {s : HttpConnection}

/-- A step takes the one reply of a message, or nothing. -/
theorem step_cases (s : HttpConnection) (a : Action) :
    ((s.step a).accepted = s.accepted ∧ (s.step a).replies = s.replies) ∨
    s.conn.state = .connected ∧ ∃ reply, (s.step a).accepted = s.accepted ++ reply.text ∧
      (s.step a).replies = s.replies ++ [reply] ∧
      (reply.keepAlive = false → (s.step a).conn.state ≠ .connected) := by
  cases a with
  | handleWrite w => exact Or.inl ⟨rfl, rfl⟩
  | handleClose => exact Or.inl ⟨rfl, rfl⟩
  | connectDestoryed => exact Or.inl ⟨rfl, rfl⟩
  | onMessage httpCallback iterate t chunk w =>
      by_cases hconnected : s.conn.state = .connected
      · obtain htaken | ⟨reply, hreply, htaken, hdown⟩ := HttpServer.serveAll_onMessage httpCallback
          iterate s.conn w (s.inputBuffer ++ chunk) t
        · exact Or.inl ⟨by simp [step, htaken], by simp [step, htaken]⟩
        · refine Or.inr ⟨hconnected, reply, by simp [step, htaken], ?_, hdown⟩
          simp [step, htaken, hreply, reply.text_ne_nil]
      · have hnone := TcpConnection.serveAll_of_not_connected (w := w) hconnected
        exact Or.inl ⟨by simp [step, hnone], by simp [step, hnone]⟩

/-- No step leads back to `kConnected`. -/
theorem step_not_connected (h : s.conn.state ≠ .connected) (a : Action) :
    (s.step a).conn.state ≠ .connected := by
  cases a with
  | onMessage httpCallback iterate t chunk w =>
      have hnone := TcpConnection.serveAll_of_not_connected (w := w) h
      simpa [step, hnone] using h
  | handleWrite w => simpa [step] using h
  | handleClose => simp [step]
  | connectDestoryed => simp [step, TcpConnection.connectDestoryed, h]

/-- Outside `kConnected` the connection takes nothing any more. -/
theorem foldl_of_not_connected (h : s.conn.state ≠ .connected) (as : List Action) :
    (as.foldl step s).accepted = s.accepted ∧ (as.foldl step s).replies = s.replies := by
  induction as generalizing s with
  | nil => exact ⟨rfl, rfl⟩
  | cons a as ih =>
      obtain ⟨haccepted, hreplies⟩ := ih (step_not_connected h a)
      obtain ⟨hsame, hsame'⟩ | ⟨hconnected, -⟩ := step_cases s a
      · exact ⟨haccepted.trans hsame, hreplies.trans hsame'⟩
      · exact absurd hconnected h

theorem accepted_eq {as : List Action} (run : machine.Reaches Machine.anyStep as s) :
    s.accepted = s.replies.flatMap HttpReply.text := by
  refine run.invariant (I := fun s => s.accepted = s.replies.flatMap HttpReply.text) ?_ ?_
  · rintro s ⟨-, -, haccepted, hreplies⟩
    rw [haccepted, hreplies]
    rfl
  · rintro s a t h - hstep
    obtain rfl : s.step a = t := Option.some.inj hstep
    obtain ⟨hsame, hsame'⟩ | ⟨-, reply, hmore, hmore', -⟩ := step_cases s a
    · rw [hsame, hsame', h]
    · rw [hmore, hmore', h, List.flatMap_append, List.flatMap_singleton]

/-- Behind a reply that closes there is no other reply, and the connection is not `kConnected`. -/
theorem closing_last {as : List Action} (run : machine.Reaches Machine.anyStep as s) :
    Trace.NeverAfter (fun r : HttpReply => r.keepAlive = false) (fun _ => True) s.replies ∧
      ∀ r ∈ s.replies, r.keepAlive = false → s.conn.state ≠ .connected := by
  have hdown (s : HttpConnection) (a : Action) (t : HttpConnection) (_ : True)
      (hdown : s.conn.state ≠ .connected) (_ : Machine.anyStep s a)
      (hstep : machine.step s a = some t) : t.conn.state ≠ .connected ∧
        ∃ es, t.replies = s.replies ++ es ∧ ∀ r ∈ es, ¬ True := by
    obtain rfl : s.step a = t := Option.some.inj hstep
    obtain ⟨-, hsame⟩ | ⟨hconnected, -⟩ := step_cases s a
    · exact ⟨step_not_connected hdown a, [], by simp [hsame], by simp⟩
    · exact absurd hconnected hdown
  refine run.neverAfter replies (fun s h => h.2.2.2) (fun _ _ _ => trivial) hdown ?_
  rintro s a t - - hstep
  obtain rfl : s.step a = t := Option.some.inj hstep
  obtain ⟨-, hsame⟩ | ⟨-, reply, -, hmore, hdown⟩ := step_cases s a
  · exact ⟨[], by simp [hsame], Trace.neverAfter_nil, by simp⟩
  · exact ⟨[reply], hmore, List.pairwise_singleton _ _, by simpa using hdown⟩

theorem keepAlive_of_mem_dropLast {as : List Action}
    (run : machine.Reaches Machine.anyStep as s) {r : HttpReply} (hr : r ∈ s.replies.dropLast) :
    r.keepAlive = true := by
  have hlast := (closing_last run).1
  have hne : s.replies ≠ [] := fun hnil => by
    rw [hnil] at hr
    exact absurd hr (by simp)
  rw [← List.dropLast_append_getLast hne] at hlast
  by_contra hclosing
  exact (List.pairwise_append.1 hlast).2.2 r hr _ (List.mem_singleton_self _)
    (by simpa using hclosing) trivial

end HttpConnection
