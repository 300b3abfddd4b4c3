import Muduo.Http.ServedConnection
import Muduo.Http.Proofs.HttpConnection
import Muduo.Net.Proofs.BufferedConnection

set_option autoImplicit false

/-! # Nothing is sent behind a closing reply

A connection on its buffers answers as the connection on queues does, as long as it stays inside of
its vectors. There a message is answered once at most, and a reply that closes is the last. -/

/-! ## The parser -/

namespace HttpRequest

variable {b : Buffer}

/-- The passes are enough for the loop to end. -/
theorem parses_parseBufferLoop (t : Timestamp) (r : HttpRequest) (h : b.InRange) {fuel : Nat}
    (hfuel : b.readableBytes < fuel) : Parses t r b (parseBufferLoop t fuel r b) := by
  induction fuel generalizing r b with
  | zero => exact absurd hfuel (Nat.not_lt_zero _)
  | succ fuel ih =>
      unfold parseBufferLoop
      cases hpass : parseBufferPass t r b with
      | again r' b' =>
          obtain ⟨hin, hshorter⟩ := readableBytes_of_again h hpass
          exact .again hpass (ih r' hin (by omega))
      | stop ok r' b' => exact .stop hpass

/-- It leaves what `parse` leaves of the readable bytes. -/
theorem parseBuffer_spec (t : Timestamp) (r : HttpRequest) (h : b.InRange) :
    ∃ b', r.parseBuffer b t = ((r.parse b.readable t).1, (r.parse b.readable t).2.1, b') ∧
      b'.InRange ∧ b'.readable = (r.parse b.readable t).2.2 := by
  obtain ⟨b', hparses, hin, hreadable⟩ := parses_parse t r h
  exact ⟨b', (parses_parseBufferLoop t r h (Nat.lt_succ_self _)).unique hparses, hin, hreadable⟩

end HttpRequest

/-! ## The response -/

namespace HttpResponse

theorem flatten_strings (iterate : HeaderMap → HeaderMap) (res : HttpResponse) :
    (res.strings iterate).flatten = (res.response iterate).2 := by
  have hlines (m : HeaderMap) : (m.flatMap fun s => [s.1, bytes ": ", s.2, crlf]).flatten
      = m.flatMap fun s => s.1 ++ bytes ": " ++ s.2 ++ crlf := by
    induction m with
    | nil => rfl
    | cons s m ih =>
        rw [List.flatMap_cons, List.flatMap_cons, List.flatten_append, ih]
        simp
  have hbody (body : Bytes) :
      (if body.isEmpty = true then [] else [body] : List Bytes).flatten = body := by
    cases hempty : body.isEmpty with
    | true => simp [List.isEmpty_iff.1 hempty]
    | false => simp
  simp only [strings, response, List.flatten_append, hlines, List.flatten_singleton, hbody]

/-- The response fits into the buffer in which `OnRequest` builds it. -/
def BuildsInside (iterate : HeaderMap → HeaderMap) (res : HttpResponse) : Prop :=
  (Buffer.new Buffer.kInitialSize).AppendsAll (res.strings iterate)

theorem responseBuffer_inv {iterate : HeaderMap → HeaderMap} {res res' : HttpResponse}
    {output : Buffer}
    (h : res.responseBuffer iterate (.new Buffer.kInitialSize) = some (res', output)) :
    res' = (res.response iterate).1 ∧ output.readable = (res.response iterate).2 := by
  obtain ⟨b, hb, heq⟩ := Option.map_eq_some_iff.1 h
  obtain ⟨rfl, rfl⟩ := Prod.mk.injEq .. ▸ heq
  obtain ⟨-, hreadable⟩ := Buffer.appendAll_inv (Buffer.inRange_new _) hb
  refine ⟨rfl, ?_⟩
  rw [hreadable, Buffer.readable_new, List.nil_append, flatten_strings]

theorem isSome_responseBuffer_iff (iterate : HeaderMap → HeaderMap) (res : HttpResponse) :
    (res.responseBuffer iterate (.new Buffer.kInitialSize)).isSome ↔ res.BuildsInside iterate := by
  rw [responseBuffer, Option.isSome_map]
  exact Buffer.isSome_appendAll_iff (Buffer.inRange_new _) _

end HttpResponse

/-! ## One message -/

namespace HttpReply

/-- A 400 is a text of its own. -/
def BuildsInside : HttpReply → Prop
  | .badRequest => True
  | .response iterate res => res.BuildsInside iterate

end HttpReply

namespace HttpServer

variable {httpCallback : HttpRequest → HttpResponse → HttpResponse}
variable {iterate : HeaderMap → HeaderMap} {b : Buffer} {t : Timestamp}

theorem onRequestBuffer_inv {req : HttpRequest} {events : List HttpEvent}
    (h : onRequestBuffer httpCallback iterate req = some events) :
    events = onRequest httpCallback iterate req := by
  simp only [onRequestBuffer] at h
  obtain ⟨⟨res, output⟩, hres, hevents⟩ := Option.map_eq_some_iff.1 h
  obtain ⟨hsame, hreadable⟩ := HttpResponse.responseBuffer_inv hres
  rw [← hevents, hsame, hreadable]
  rfl

theorem isSome_onRequestBuffer_iff (req : HttpRequest) :
    (onRequestBuffer httpCallback iterate req).isSome
      ↔ (httpCallback req .new).BuildsInside iterate := by
  rw [onRequestBuffer, Option.isSome_map]
  exact HttpResponse.isSome_responseBuffer_iff iterate _

/-- What `OnMessage` does on a buffer is what it does on the readable bytes. -/
theorem onMessageBuffer_inv (h : b.InRange) {events : List HttpEvent} {b' : Buffer}
    (hmessage : onMessageBuffer httpCallback iterate b t = some (events, b')) :
    b'.InRange ∧ onMessage httpCallback iterate b.readable t = (events, b'.readable) := by
  obtain ⟨b₁, hparse, hin, hreadable⟩ := HttpRequest.parseBuffer_spec t .new h
  simp only [onMessageBuffer, hparse] at hmessage
  obtain ⟨dispatched, hdispatched, heq⟩ := Option.map_eq_some_iff.1 hmessage
  obtain rfl : _ = events := congrArg Prod.fst heq
  obtain rfl : b₁ = b' := congrArg Prod.snd heq
  refine ⟨hin, ?_⟩
  simp only [onMessage, hreadable]
  split at hdispatched
  · rename_i hdown
    rw [if_pos hdown, onRequestBuffer_inv hdispatched]
  · rename_i hup
    rw [if_neg hup, Option.some.inj hdispatched]

/-- It stays inside of the vectors when the reply to the message does. -/
theorem isSome_onMessageBuffer_iff (h : b.InRange) :
    (onMessageBuffer httpCallback iterate b t).isSome ↔
      ∀ reply, reply? httpCallback iterate b.readable t = some reply → reply.BuildsInside := by
  obtain ⟨b₁, hparse, -, -⟩ := HttpRequest.parseBuffer_spec t .new h
  have hleaves := HttpRequest.parse_leaves t HttpRequest.new b.readable
  simp only [onMessageBuffer, hparse, Option.isSome_map, reply?]
  cases hok : (HttpRequest.new.parse b.readable t).1 with
  | false =>
      have hnot := HttpRequest.acceptable_of_parseLine (hleaves.rejected hok).2
      simp [hnot, HttpReply.BuildsInside]
  | true =>
      cases hdown : (HttpRequest.new.parse b.readable t).2.1.acceptable with
      | false => simp
      | true => simp [isSome_onRequestBuffer_iff, HttpReply.BuildsInside]

end HttpServer

namespace BufferedConnection

variable {c : BufferedConnection} {w : WriteResult}
variable {r : BufferedConnection × List TcpConnection.Effect}

theorem serve_matches (h : c.outputBuffer.InRange) {e : HttpEvent} (hserve : c.serve w e = some r) :
    c.Matches r (c.queue.serve w e) := by
  cases e with
  | httpCallback req =>
      obtain rfl := Option.some.inj hserve
      exact ⟨rfl, rfl, rfl, h⟩
  | sendString data => exact send_matches h hserve
  | sendBuffer data => exact send_matches h hserve
  | shutdown =>
      obtain rfl := Option.some.inj hserve
      exact shutdown_matches h

theorem serveAll_matches {es : List HttpEvent} (h : c.outputBuffer.InRange)
    (hserve : serveAll w c es = some r) : c.Matches r (c.queue.serveAll w es) := by
  induction es generalizing c r with
  | nil =>
      obtain rfl := Option.some.inj hserve
      exact ⟨rfl, rfl, rfl, h⟩
  | cons e es ih =>
      obtain ⟨⟨c₁, first⟩, hfirst, hserve⟩ := Option.bind_eq_some_iff.1 hserve
      obtain ⟨⟨c₂, rest⟩, hrest, rfl⟩ := Option.map_eq_some_iff.1 hserve
      have hmatches := serve_matches h hfirst
      have hmatches' := ih hmatches.output hrest
      have hconn : c₁.queue = (c.queue.serve w e).1 := hmatches.conn
      have heffects : first = (c.queue.serve w e).2 := hmatches.effects
      have hqueue : c.queue.serveAll w (e :: es) = ((c₁.queue.serveAll w es).1,
          first ++ (c₁.queue.serveAll w es).2) := by
        rw [hconn, heffects]
        rfl
      rw [hqueue]
      exact ⟨hmatches'.conn, congrArg (first ++ ·) hmatches'.effects,
        hmatches'.input.trans hmatches.input, hmatches'.output⟩

/-- Of a reply only the sending can leave the vector. -/
theorem isSome_serveAll_reply (c : BufferedConnection) (w : WriteResult) (reply : HttpReply)
    (send : HttpEvent) (hsend : c.serve w send = c.send reply.text w) :
    (serveAll w c (send :: reply.followUp)).isSome ↔ (c.send reply.text w).isSome := by
  rw [serveAll, hsend]
  cases c.send reply.text w with
  | none => simp
  | some r =>
      obtain ⟨c', first⟩ := r
      cases hkeep : reply.keepAlive with
      | true => simp [HttpReply.followUp, hkeep, serveAll]
      | false => simp [HttpReply.followUp, hkeep, serveAll, serve]

theorem connectDestoryed_matches (h : c.outputBuffer.InRange) :
    c.Matches c.connectDestoryed c.queue.connectDestoryed := by
  unfold connectDestoryed TcpConnection.connectDestoryed
  by_cases hstate : c.state = .connected
  · have hqueue : c.queue.state = .connected := hstate
    rw [if_pos hstate, if_pos hqueue]
    exact ⟨rfl, rfl, rfl, h⟩
  · have hqueue : ¬ c.queue.state = .connected := hstate
    rw [if_neg hstate, if_neg hqueue]
    exact ⟨rfl, rfl, rfl, h⟩

theorem handleClose_matches (h : c.outputBuffer.InRange) :
    c.Matches c.handleClose c.queue.handleClose := ⟨rfl, rfl, rfl, h⟩

end BufferedConnection

/-! ## A connection on its buffers and on queues -/

namespace ServedConnection

open BufferedConnection

variable {s t : ServedConnection} {a : Action} {as : List Action} {o : Option ServedConnection}

structure InRange (s : ServedConnection) : Prop where
  input : s.conn.inputBuffer.InRange
  output : s.conn.outputBuffer.InRange

/-- The connection with the bytes of its buffers. -/
def queue (s : ServedConnection) : HttpConnection where
  conn := s.conn.queue
  inputBuffer := s.conn.inputBuffer.readable
  accepted := s.accepted
  replies := s.replies

/-- What a step is on queues; a read that fails is nothing there. -/
def Action.onQueue : Action → Option HttpConnection.Action
  | .headleRead httpCallback iterate t (.ok data) w =>
      if data = [] then some .handleClose else some (.onMessage httpCallback iterate t data w)
  | .headleRead _ _ _ (.error _) _ => none
  | .handleWrite w => some (.handleWrite w)
  | .connectDestoryed => some .connectDestoryed

/-- `t` comes of `s` by the step on queues. -/
def Follows (s t : ServedConnection) : Option HttpConnection.Action → Prop
  | none => t.queue = s.queue ∧ t.wire = s.wire
  | some q => t.queue = s.queue.step q ∧
      t.wire = s.wire ++ TcpConnection.written (s.queue.effects q)

theorem wire_append (s : ServedConnection) (effects : List TcpConnection.Effect) :
    TcpConnection.written (s.trace ++ effects) = s.wire ++ TcpConnection.written effects :=
  TcpConnection.written_append _ _

theorem perform_follows {r : BufferedConnection × List TcpConnection.Effect}
    {p : TcpConnection × List TcpConnection.Effect} (h : s.InRange)
    (hmatches : s.conn.Matches r p) :
    (s.perform r).InRange ∧ (s.perform r).queue = { s.queue with conn := p.1 } ∧
      (s.perform r).wire = s.wire ++ TcpConnection.written p.2 := by
  have hinput : r.1.inputBuffer = s.conn.inputBuffer := hmatches.input
  refine ⟨⟨hinput.symm ▸ h.input, hmatches.output⟩, ?_, ?_⟩
  · simp only [queue, perform, hmatches.conn, hinput]
  · rw [wire, perform, wire_append, hmatches.effects]

theorem onMessage_follows {httpCallback : HttpRequest → HttpResponse → HttpResponse}
    {iterate : HeaderMap → HeaderMap} {time : Timestamp} {w : WriteResult} (h : s.InRange)
    (hmessage : s.onMessage httpCallback iterate time w = some t) :
    t.InRange ∧ t.queue = s.queue.step (.onMessage httpCallback iterate time [] w) ∧
      t.wire = s.wire ++ TcpConnection.written
        (s.queue.effects (.onMessage httpCallback iterate time [] w)) ∧
      t.messages = s.messages
        ++ [(HttpServer.onMessage httpCallback iterate s.conn.inputBuffer.readable time).1] := by
  obtain ⟨⟨events, inputBuffer⟩, hevents, hserved⟩ := Option.bind_eq_some_iff.1 hmessage
  obtain ⟨⟨conn, effects⟩, hserve, rfl⟩ := Option.map_eq_some_iff.1 hserved
  obtain ⟨hin, honQueue⟩ := HttpServer.onMessageBuffer_inv h.input hevents
  have hmatches := serveAll_matches (c := { s.conn with inputBuffer }) h.output hserve
  have hinput : conn.inputBuffer = inputBuffer := hmatches.input
  have hconn : conn.queue = (s.conn.queue.serveAll w events).1 := hmatches.conn
  have heffects : effects = (s.conn.queue.serveAll w events).2 := hmatches.effects
  refine ⟨⟨hinput.symm ▸ hin, hmatches.output⟩, ?_, ?_, by rw [honQueue]⟩
  · simp only [queue, HttpConnection.step, List.append_nil, honQueue, hinput, hconn, ← heffects]
  · rw [wire, wire_append]
    simp only [queue, HttpConnection.effects, List.append_nil, honQueue, heffects]

theorem headleRead_follows {httpCallback : HttpRequest → HttpResponse → HttpResponse}
    {iterate : HeaderMap → HeaderMap} {time : Timestamp} {r : Buffer.Readv} {w : WriteResult}
    (h : s.InRange) (hread : s.headleRead httpCallback iterate time r w = some t) :
    t.InRange ∧ s.Follows t (Action.headleRead httpCallback iterate time r w).onQueue := by
  obtain ⟨⟨n, err, b⟩, hb, hrest⟩ := Option.bind_eq_some_iff.1 hread
  obtain ⟨hin, hreadable⟩ := Buffer.readFromFd_inv h.input hb
  let u : ServedConnection := { s with conn := { s.conn with inputBuffer := b } }
  have hu : u.InRange := ⟨hin, h.output⟩
  cases r with
  | error errno =>
      obtain rfl : n = -1 := congrArg Prod.fst (Option.some.inj hb).symm
      obtain rfl : u = t := Option.some.inj hrest
      refine ⟨hu, ?_, rfl⟩
      simp only [queue, u, hreadable, Buffer.Readv.received, List.append_nil]
      rfl
  | ok data =>
      have hn := Buffer.readFromFd_length hb
      by_cases hdata : data = []
      · subst hdata
        obtain rfl : n = 0 := hn
        obtain rfl : u.perform u.conn.handleClose = t := Option.some.inj hrest
        obtain ⟨hrange, hqueue, hwire⟩ := perform_follows hu (handleClose_matches hu.output)
        refine ⟨hrange, hqueue.trans ?_, hwire⟩
        simp only [HttpConnection.step, queue, u, hreadable, Buffer.Readv.received, List.append_nil]
        rfl
      · have hpos : n > 0 := by
          have hlength := List.length_pos_iff.2 hdata
          omega
        simp only [if_pos hpos] at hrest
        obtain ⟨hrange, hqueue, hwire, -⟩ := onMessage_follows (s := u) hu hrest
        have hbuffer : u.queue = { s.queue with inputBuffer := s.queue.inputBuffer ++ data } := by
          simp only [queue, u, hreadable, Buffer.Readv.received]
          rfl
        rw [hbuffer] at hqueue hwire
        simp only [HttpConnection.step, HttpConnection.effects, List.append_nil] at hqueue hwire
        simp only [Action.onQueue, if_neg hdata]
        exact ⟨hrange, hqueue, hwire⟩

theorem step_follows (h : s.InRange) (hstep : s.step a = some t) :
    t.InRange ∧ s.Follows t a.onQueue := by
  cases a with
  | headleRead httpCallback iterate time r w => exact headleRead_follows h hstep
  | handleWrite w =>
      obtain rfl := Option.some.inj hstep
      obtain ⟨hrange, hqueue, hwire⟩ := perform_follows h (handleWrite_matches h.output)
      exact ⟨hrange, hqueue, hwire⟩
  | connectDestoryed =>
      obtain rfl := Option.some.inj hstep
      obtain ⟨hrange, hqueue, hwire⟩ := perform_follows h (connectDestoryed_matches h.output)
      exact ⟨hrange, hqueue, hwire⟩

theorem of_established (h : s.Established) :
    s.InRange ∧ HttpConnection.onWire.init (s.queue, s.wire) := by
  obtain ⟨fd, connection, writeComplete, close, highWaterMark, rfl⟩ := h
  have hqueue := queue_connectEstablished fd connection writeComplete close highWaterMark
  refine ⟨⟨Buffer.inRange_new _, Buffer.inRange_new _⟩, ⟨?_, ?_, rfl, rfl⟩, rfl⟩
  · exact ⟨fd, connection, writeComplete, close, highWaterMark, hqueue⟩
  · exact Buffer.readable_new _

/-- A connection that has stayed inside of its vectors has had a run on queues. -/
theorem onWire_of_reaches {ok : Option ServedConnection → Action → Prop}
    {ok' : HttpConnection × Bytes → HttpConnection.Action → Prop}
    (hok : ∀ o a q p, ok o a → a.onQueue = some q → ok' p q) (run : machine.Reaches ok as o) :
    ∀ s, o = some s → s.InRange ∧
      HttpConnection.onWire.Reaches ok' (as.filterMap Action.onQueue) (s.queue, s.wire) := by
  refine run.history (I := fun as o => ∀ s, o = some s → s.InRange ∧
    HttpConnection.onWire.Reaches ok' (as.filterMap Action.onQueue) (s.queue, s.wire)) ?_ ?_
  · rintro _ ⟨u, hu, rfl⟩ s hs
    obtain rfl := Option.some.inj hs
    obtain ⟨hrange, hinit⟩ := of_established hu
    exact ⟨hrange, .init hinit⟩
  · rintro as o a o' ih hguard hstep t rfl
    obtain ⟨s, rfl, hnext⟩ := Option.map_eq_some_iff.1 hstep
    obtain ⟨hrange, hrun⟩ := ih s rfl
    obtain ⟨hrange', hfollows⟩ := step_follows hrange hnext
    refine ⟨hrange', ?_⟩
    rw [List.filterMap_append]
    cases hq : a.onQueue with
    | none =>
        rw [hq] at hfollows
        rw [hfollows.1, hfollows.2]
        simpa [hq] using hrun
    | some q =>
        rw [hq] at hfollows
        rw [hfollows.1, hfollows.2]
        simpa [hq] using hrun.step (hok _ _ _ _ hguard hq) rfl

/-! ## Inside of the vectors -/

/-- What `readv` delivers has its place in `InputBuffer_`, and the reply to it, if there is one, in
    the buffer it is built in and in `OutputBuffer_`. -/
def StaysInside (s : ServedConnection) : Action → Prop
  | .headleRead httpCallback iterate time r w =>
      s.conn.inputBuffer.ReadsSafely r ∧ (r.received ≠ [] → ∀ reply,
        HttpServer.reply? httpCallback iterate (s.conn.inputBuffer.readable ++ r.received) time
            = some reply →
          reply.BuildsInside ∧ (s.conn.state = .connected →
            s.conn.outputBuffer.GrowsSafely (s.conn.remaining reply.text w)))
  | .handleWrite _ => True
  | .connectDestoryed => True

/-- The calls of a message stay inside when the sending of its reply does. -/
theorem isSome_serveAll_onMessage (c : BufferedConnection) (w : WriteResult)
    (httpCallback : HttpRequest → HttpResponse → HttpResponse) (iterate : HeaderMap → HeaderMap)
    (buf : Bytes) (time : Timestamp) :
    (serveAll w c (HttpServer.onMessage httpCallback iterate buf time).1).isSome ↔ ∀ reply,
      HttpServer.reply? httpCallback iterate buf time = some reply →
        (c.send reply.text w).isSome := by
  obtain ⟨hcalls, hreply⟩ | ⟨hcalls, hreply⟩ | ⟨req, reply, -, hcalls, hreply⟩ :=
    HttpServer.onMessage_cases httpCallback iterate buf time <;> rw [hcalls, hreply]
  · simp [serveAll]
  · have hsend := isSome_serveAll_reply c w .badRequest (.sendString HttpServer.badRequest) rfl
    exact hsend.trans ⟨fun hsome reply heq => Option.some.inj heq ▸ hsome, fun hall => hall _ rfl⟩
  · have hsend := isSome_serveAll_reply c w reply (.sendBuffer reply.text) rfl
    rw [serveAll, serve, Option.bind_some, Option.isSome_map]
    simpa using hsend

theorem isSome_onMessage_iff (h : s.InRange)
    (httpCallback : HttpRequest → HttpResponse → HttpResponse) (iterate : HeaderMap → HeaderMap)
    (time : Timestamp) (w : WriteResult) :
    (s.onMessage httpCallback iterate time w).isSome ↔ ∀ reply,
      HttpServer.reply? httpCallback iterate s.conn.inputBuffer.readable time = some reply →
        reply.BuildsInside ∧ (s.conn.state = .connected →
          s.conn.outputBuffer.GrowsSafely (s.conn.remaining reply.text w)) := by
  have hbuilt : (HttpServer.onMessageBuffer httpCallback iterate s.conn.inputBuffer time).isSome ↔
      ∀ reply,
        HttpServer.reply? httpCallback iterate s.conn.inputBuffer.readable time = some reply →
          reply.BuildsInside := HttpServer.isSome_onMessageBuffer_iff h.input
  simp only [imp_and, forall_and, ← hbuilt]
  rw [onMessage]
  cases hevents : HttpServer.onMessageBuffer httpCallback iterate s.conn.inputBuffer time with
  | none => simp
  | some p =>
      obtain ⟨events, b⟩ := p
      obtain ⟨-, honQueue⟩ := HttpServer.onMessageBuffer_inv h.input hevents
      have hserve := isSome_serveAll_onMessage { s.conn with inputBuffer := b } w httpCallback
        iterate s.conn.inputBuffer.readable time
      rw [honQueue] at hserve
      rw [Option.bind_some, Option.isSome_map, hserve, Option.isSome_some, eq_self, true_and]
      exact forall₂_congr fun reply _ =>
        send_isSome_iff (c := { s.conn with inputBuffer := b }) h.output reply.text w

/-- A step goes through exactly when it stays inside of the vectors. -/
theorem step_isSome_iff (h : s.InRange) (a : Action) : (s.step a).isSome ↔ s.StaysInside a := by
  cases a with
  | handleWrite w => simp [step, StaysInside]
  | connectDestoryed => simp [step, StaysInside]
  | headleRead httpCallback iterate time r w =>
      rw [step, headleRead, StaysInside, ← Buffer.isSome_readFromFd_iff h.input]
      cases hb : s.conn.inputBuffer.readFromFd r with
      | none => simp
      | some p =>
          obtain ⟨n, err, b⟩ := p
          obtain ⟨hin, hreadable⟩ := Buffer.readFromFd_inv h.input hb
          have hu : InRange { s with conn := { s.conn with inputBuffer := b } } := ⟨hin, h.output⟩
          have hmessage := isSome_onMessage_iff hu httpCallback iterate time w
          rw [hreadable] at hmessage
          rw [Option.bind_some, Option.isSome_some, eq_self, true_and]
          cases r with
          | error errno =>
              obtain rfl : n = -1 := congrArg Prod.fst (Option.some.inj hb).symm
              simp [Buffer.Readv.received]
          | ok data =>
              have hn := Buffer.readFromFd_length hb
              by_cases hdata : data = []
              · subst hdata
                obtain rfl : n = 0 := hn
                simp [Buffer.Readv.received]
              · have hpos : n > 0 := by
                  have hlength := List.length_pos_iff.2 hdata
                  omega
                simp only [if_pos hpos, Buffer.Readv.received, ne_eq, hdata, not_false_eq_true,
                  forall_const]
                exact hmessage

/-! ## Runs -/

/-- What the handler calls in one message: nothing, or what a 400 takes, or what one response of
    `HttpCallback_` takes. -/
def Action.Calls : Action → List HttpEvent → Prop
  | .headleRead httpCallback iterate _ _ _, es =>
      es = [] ∨ es = [.sendString HttpServer.badRequest, .shutdown] ∨
      ∃ req, let res : HttpResponse := httpCallback req .new
        es = .httpCallback req :: .sendBuffer (res.response iterate).2 ::
          if res.keepAlive then [] else [.shutdown]
  | .handleWrite _, _ => False
  | .connectDestoryed, _ => False

/-- The step `a` from `s` to `t` answers one message at most, and once at most. What has been taken
    for output is a sequence of replies, all but the last of which keep the connection alive; behind
    a reply that closes, a 400 or a response with `KeepAlive()` false, nothing more is taken. -/
structure Orderly (s : ServedConnection) (a : Action) (t : ServedConnection) : Prop where
  messages : t.messages = s.messages ∨ ∃ es, t.messages = s.messages ++ [es] ∧ a.Calls es
  accepted : t.accepted = t.replies.flatMap HttpReply.text
  alive : ∀ r ∈ t.replies.dropLast, r.keepAlive = true
  closed : (∃ r ∈ s.replies, r.keepAlive = false) →
    t.accepted = s.accepted ∧ t.replies = s.replies

/-- The step goes through and is orderly. -/
def Answers (o : Option ServedConnection) (a : Action) : Prop :=
  ∃ s t, o = some s ∧ s.step a = some t ∧ Orderly s a t

def Inside (o : Option ServedConnection) (a : Action) : Prop := ∃ s, o = some s ∧ s.StaysInside a

theorem headleRead_messages (h : s.InRange)
    {httpCallback : HttpRequest → HttpResponse → HttpResponse} {iterate : HeaderMap → HeaderMap}
    {time : Timestamp} {r : Buffer.Readv} {w : WriteResult}
    (hread : s.headleRead httpCallback iterate time r w = some t) :
    t.messages = s.messages ∨ ∃ es, t.messages = s.messages ++ [es] ∧
      (Action.headleRead httpCallback iterate time r w).Calls es := by
  obtain ⟨⟨n, err, b⟩, hb, hrest⟩ := Option.bind_eq_some_iff.1 hread
  obtain ⟨hin, -⟩ := Buffer.readFromFd_inv h.input hb
  have hu : InRange { s with conn := { s.conn with inputBuffer := b } } := ⟨hin, h.output⟩
  dsimp only at hrest
  split at hrest
  · obtain ⟨-, -, -, hmessages⟩ := onMessage_follows hu hrest
    refine Or.inr ⟨_, hmessages, ?_⟩
    obtain ⟨hcalls, -⟩ | ⟨hcalls, -⟩ | ⟨req, reply, rfl, hcalls, -⟩ :=
      HttpServer.onMessage_cases httpCallback iterate b.readable time
    · exact Or.inl hcalls
    · exact Or.inr (Or.inl hcalls)
    · exact Or.inr (Or.inr ⟨req, hcalls⟩)
  · left
    split at hrest <;> obtain rfl := Option.some.inj hrest <;> rfl

theorem step_messages (h : s.InRange) (hstep : s.step a = some t) :
    t.messages = s.messages ∨ ∃ es, t.messages = s.messages ++ [es] ∧ a.Calls es := by
  cases a with
  | headleRead httpCallback iterate time r w => exact headleRead_messages h hstep
  | handleWrite w =>
      obtain rfl := Option.some.inj hstep
      exact Or.inl rfl
  | connectDestoryed =>
      obtain rfl := Option.some.inj hstep
      exact Or.inl rfl

/-- Behind a reply that closes a step takes nothing. -/
theorem step_closed (h : s.InRange) (hstate : s.conn.state ≠ .connected)
    (hstep : s.step a = some t) : t.accepted = s.accepted ∧ t.replies = s.replies := by
  obtain ⟨-, hfollows⟩ := step_follows h hstep
  cases hq : a.onQueue with
  | none =>
      rw [hq] at hfollows
      exact ⟨congrArg HttpConnection.accepted hfollows.1,
        congrArg HttpConnection.replies hfollows.1⟩
  | some q =>
      rw [hq] at hfollows
      have hsame := HttpConnection.foldl_of_not_connected (s := s.queue) hstate [q]
      rw [List.foldl_cons, List.foldl_nil, ← hfollows.1] at hsame
      exact hsame

theorem queue_of_reaches {ok : Option ServedConnection → Action → Prop}
    (run : machine.Reaches ok as (some s)) :
    s.InRange ∧ ∃ bs, HttpConnection.machine.Reaches Machine.anyStep bs s.queue := by
  have hany : ∀ o a q p, ok o a → a.onQueue = some q →
      Machine.anyStep (α := HttpConnection.Action) (p : HttpConnection × Bytes) q :=
    fun _ _ _ _ _ _ => trivial
  obtain ⟨hrange, honWire⟩ := onWire_of_reaches hany run s rfl
  exact ⟨hrange, _, honWire.of_observing fun _ _ _ => trivial⟩

/-- A step that goes through is orderly. -/
theorem orderly_of_step {ok : Option ServedConnection → Action → Prop}
    (run : machine.Reaches ok as (some s)) (hok : ok (some s) a) (hstep : s.step a = some t) :
    Orderly s a t := by
  obtain ⟨hrange, bs, hbefore⟩ := queue_of_reaches run
  obtain ⟨-, bs', hbehind⟩ := queue_of_reaches (run.step hok (congrArg some hstep))
  refine ⟨step_messages hrange hstep, HttpConnection.accepted_eq hbehind,
    fun r hr => HttpConnection.keepAlive_of_mem_dropLast hbehind hr, ?_⟩
  rintro ⟨r, hr, hclosing⟩
  exact step_closed hrange ((HttpConnection.closing_last hbefore).2 r hr hclosing) hstep

theorem answers_iff_inside {ok : Option ServedConnection → Action → Prop}
    (run : machine.Reaches ok as o) (hok : ok o a) : Answers o a ↔ Inside o a := by
  constructor
  · rintro ⟨s, t, rfl, hstep, -⟩
    refine ⟨s, rfl, (step_isSome_iff (queue_of_reaches run).1 a).1 ?_⟩
    rw [hstep, Option.isSome_some]
  · rintro ⟨s, rfl, hinside⟩
    have hsome := (step_isSome_iff (queue_of_reaches run).1 a).2 hinside
    obtain ⟨t, hstep⟩ := Option.isSome_iff_exists.1 hsome
    exact ⟨s, t, rfl, hstep, orderly_of_step run hok hstep⟩

/-- In every run, whatever is received and whatever `HttpCallback_` makes of it: every step goes
    through and is orderly if and only if each of them stays inside of the vectors. -/
theorem nothing_behind_closing_iff (as : List Action) (o : Option ServedConnection) :
    machine.Reaches Answers as o ↔ machine.Reaches Inside as o := by
  constructor
  · intro run
    exact run.change_guard fun _ _ _ _ run _ h _ => (answers_iff_inside run h).1 h
  · intro run
    exact run.change_guard fun _ _ _ _ run _ h _ => (answers_iff_inside run h).2 h

/-- A connection that is still there has stayed inside. -/
theorem inside_of_reaches {ok : Option ServedConnection → Action → Prop}
    (run : machine.Reaches ok as o) (hs : o = some s) : machine.Reaches Inside as o := by
  induction run generalizing s with
  | init h => exact .init h
  | @step as o t a run hok hstep ih =>
      subst hs
      obtain ⟨u, rfl, hnext⟩ := Option.map_eq_some_iff.1 hstep
      refine (ih rfl).step ⟨u, rfl, ?_⟩ hstep
      exact (step_isSome_iff (queue_of_reaches run).1 a).1 (by rw [hnext, Option.isSome_some])

/-! ## Runs that evaluate -/

def fresh : ServedConnection :=
  ⟨(BufferedConnection.new 7 true true true true).connectEstablished.1, [], [], [], []⟩

theorem fresh_established : fresh.Established := ⟨7, true, true, true, true, rfl⟩

/-- Two requests, the first kept alive, the second answered by the default of `HttpCallback_`, and a
    line that is no request line. -/
def twoRequests : List Action :=
  [.headleRead (fun _ res => res) id .zero (.ok (bytes "GET / HTTP/1.1\r\n\r\n")) (.room 5),
    .handleWrite (.room 1000),
    .headleRead (fun _ => HttpServer.defaultHttpCallback) id .zero
      (.ok (bytes "GET /a HTTP/1.0\r\n\r\n")) (.error .eagain),
    .headleRead (fun _ res => res) id .zero (.ok (bytes "?\r\n")) (.room 1000)]

theorem nothing_behind_closing_iff_twoRequests :
    ∃ s, machine.Reaches Answers twoRequests (some s) ∧
      s.replies.map HttpReply.keepAlive = [true, false] ∧ s.conn.state = .disconnecting ∧
      s.messages.map List.length = [2, 3, 2] := by
  obtain ⟨o, run, hsome⟩ := Machine.exists_reaches_of_exec machine Machine.anyStep (some fresh)
    twoRequests (fun o => o.any (fun s => decide
      (s.replies.map HttpReply.keepAlive = [true, false] ∧ s.conn.state = .disconnecting ∧
        s.messages.map List.length = [2, 3, 2])) = true)
    ⟨fresh, fresh_established, rfl⟩ (by decide +kernel)
  obtain ⟨s, rfl, hs⟩ := (Option.any_eq_true _ _).1 hsome
  exact ⟨s, (nothing_behind_closing_iff _ _).2 (inside_of_reaches run rfl), of_decide_eq_true hs⟩

/-- 600 bytes without a line break wait in `InputBuffer_`, and 500 more come: `ReadFromFd` copies
    the last of them behind the end of the vector. -/
theorem second_read_overruns :
    ∃ s, machine.Reaches Machine.anyStep
        [.headleRead (fun _ res => res) id .zero (.ok (List.replicate 600 97)) (.room 0)] (some s) ∧
      s.step (.headleRead (fun _ res => res) id .zero (.ok (List.replicate 500 97)) (.room 0))
        = none ∧
      ¬ Answers (some s)
        (.headleRead (fun _ res => res) id .zero (.ok (List.replicate 500 97)) (.room 0)) := by
  have hruns : (fresh.step
      (.headleRead (fun _ res => res) id .zero (.ok (List.replicate 600 97)) (.room 0))).any
        (fun s => (s.step (.headleRead (fun _ res => res) id .zero (.ok (List.replicate 500 97))
          (.room 0))).isNone) = true := by
    decide +kernel
  obtain ⟨s, hs, hnone⟩ := (Option.any_eq_true _ _).1 hruns
  rw [Option.isNone_iff_eq_none] at hnone
  have start : machine.Reaches Machine.anyStep [] (some fresh) :=
    .init ⟨fresh, fresh_established, rfl⟩
  refine ⟨s, start.step trivial (congrArg some hs), hnone, ?_⟩
  rintro ⟨u, t, hu, hstep, -⟩
  obtain rfl := Option.some.inj hu
  exact absurd (hnone.symm.trans hstep) (by simp)

end ServedConnection
