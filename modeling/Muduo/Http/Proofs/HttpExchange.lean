import Muduo.Http.Proofs.HttpResponse
import Muduo.Http.Proofs.HttpServer
import Muduo.Http.Proofs.ServedConnection
import Muduo.Lib.Framing

set_option autoImplicit false

/-! # What a client reads

The bytes that the kernel takes from a connection are a part of the replies, one behind the other. A
client takes one response after the other off them, each as long as its `Content-Length` says. So it
has the replies that have come, at every moment and however the writes were cut, as long as no byte
outside of a buffer's vector is touched. -/

namespace HttpResponse

open HttpRequest

/-! ## A client of a stream -/

/-- The number that `Content-Length` names. -/
def contentLength (headers : List (Bytes × Bytes)) : Option Nat :=
  (lastValue headers kContentLength).map fun value => (Decimal.read value).toNat

/-- The first response of a stream and what follows it, when it has come completely. Without a
    length the body goes on to the end of the stream. -/
def cut (stream : Bytes) : Option (Decoded × Bytes) :=
  let res := decode stream
  if Delimited.search (crlf ++ crlf) stream + 4 ≤ stream.length then
    match contentLength res.headers with
    | none => some (res, [])
    | some n =>
        if n ≤ res.body.length then some ({ res with body := res.body.take n }, res.body.drop n)
        else none
  else none

/-- The responses that have come completely. -/
def responses (stream : Bytes) : List Decoded := Framing.items cut stream

/-- A response up to its body. -/
def headed (res : HttpResponse) (fields : List (Bytes × Bytes)) : Bytes :=
  res.statusLine ++ crlf ++ fields.flatMap (fun f => fieldText f ++ crlf) ++ crlf

variable {res : HttpResponse} {fields : List (Bytes × Bytes)}

theorem framed_eq (res : HttpResponse) (fields : List (Bytes × Bytes)) :
    res.framed fields = res.headed fields ++ res.body := rfl

/-- A head with another body is a response too. -/
theorem decode_headed (hclean : IsClean res.stateMessage fields) (body : Bytes) :
    decode (res.headed fields ++ body) = ⟨res.sentVersion, res.stateCode, fields, body⟩ :=
  @decode_framed { res with body } fields hclean

theorem headed_ends (res : HttpResponse) (fields : List (Bytes × Bytes)) :
    ∃ lines, res.headed fields = lines ++ (crlf ++ crlf) := by
  have hcomm := Delimited.append_flatMap_comm crlf (fields.map fieldText)
  rw [List.flatMap_map] at hcomm
  refine ⟨res.statusLine ++ (fields.map fieldText).flatMap (crlf ++ ·), ?_⟩
  rw [headed, List.append_assoc res.statusLine crlf, hcomm]
  simp only [List.append_assoc]

/-- The first blank line is at the end of the head. -/
theorem search_headed (hclean : IsClean res.stateMessage fields) (body : Bytes) :
    Delimited.search (crlf ++ crlf) (res.headed fields ++ body) + 4
      = (res.headed fields).length := by
  have hlen : (crlf ++ crlf).length = 4 := rfl
  obtain ⟨lines, hlines⟩ := headed_ends res fields
  have hle : Delimited.search (crlf ++ crlf) (res.headed fields ++ body) ≤ lines.length := by
    refine Delimited.search_le ?_
    rw [hlines, List.append_assoc, List.drop_left]
    exact List.prefix_append _ _
  have hbody := congrArg (fun d => d.body.length) (decode_headed hclean body)
  simp only [decode, List.length_drop, List.length_append] at hbody
  rw [hlines] at hbody ⊢
  rw [hlines] at hle
  simp only [List.length_append, hlen] at hbody ⊢
  omega

theorem cut_headed (hclean : IsClean res.stateMessage fields) (body : Bytes) :
    cut (res.headed fields ++ body) =
      match contentLength fields with
      | none => some (⟨res.sentVersion, res.stateCode, fields, body⟩, [])
      | some n =>
          if n ≤ body.length then
            some (⟨res.sentVersion, res.stateCode, fields, body.take n⟩, body.drop n)
          else none := by
  have hfound : Delimited.search (crlf ++ crlf) (res.headed fields ++ body) + 4
      ≤ (res.headed fields ++ body).length := by
    rw [search_headed hclean, List.length_append]
    omega
  simp only [cut, if_pos hfound, decode_headed hclean]

/-- Before its head has come there is no response. -/
theorem cut_of_short (hclean : IsClean res.stateMessage fields) {stream : Bytes}
    (hstream : stream <+: res.headed fields) (hshort : stream ≠ res.headed fields) :
    cut stream = none := by
  have hlt : stream.length < (res.headed fields).length :=
    Nat.lt_of_le_of_ne hstream.length_le fun h => hshort (hstream.eq_of_length h)
  refine if_neg fun hfound => ?_
  have hin : crlf ++ crlf
      <+: (res.headed fields ++ []).drop (Delimited.search (crlf ++ crlf) stream) := by
    obtain ⟨more, hmore⟩ := hstream
    rw [List.append_nil, ← hmore, List.drop_append_of_le_length (by omega)]
    exact (Delimited.prefix_drop_search (by decide) (by omega)).trans (List.prefix_append _ _)
  have hsearch := Delimited.search_le hin
  have hhead := search_headed hclean ([] : Bytes)
  omega

/-- A part of a response that ends in its head, or behind it. -/
theorem part_cases {stream : Bytes} (hstream : stream <+: res.framed fields)
    (hne : stream ≠ res.framed fields) :
    (stream <+: res.headed fields ∧ stream ≠ res.headed fields) ∨
    ∃ body, stream = res.headed fields ++ body ∧ body.length < res.body.length := by
  by_cases hhead : res.headed fields <+: stream
  · right
    obtain ⟨body, rfl⟩ := hhead
    rw [framed_eq, List.prefix_append_right_inj] at hstream
    refine ⟨body, rfl, Nat.lt_of_le_of_ne hstream.length_le fun hlen => hne ?_⟩
    rw [hstream.eq_of_length hlen, framed_eq]
  · refine Or.inl ⟨?_, fun h => hhead (h ▸ List.prefix_refl _)⟩
    have hhead' := List.prefix_append (res.headed fields) res.body
    exact (List.prefix_or_prefix_of_prefix hstream hhead').resolve_right hhead

/-- A response that says how long its body is. -/
theorem frames_framed (hclean : IsClean res.stateMessage fields)
    (hlength : contentLength fields = some res.body.length) (last : Prop) :
    Framing.Frames cut (res.framed fields) ⟨res.sentVersion, res.stateCode, fields, res.body⟩
      last where
  whole rest _ := by
    rw [framed_eq, List.append_assoc, cut_headed hclean, hlength]
    simp
  part stream hstream hne := by
    obtain ⟨hhead, hshort⟩ | ⟨body, rfl, hshort⟩ := part_cases hstream hne
    · exact cut_of_short hclean hhead hshort
    · rw [cut_headed hclean, hlength]
      simp only
      exact if_neg (by omega)

/-- A response without a body that says nothing about it. -/
theorem frames_of_no_length (hclean : IsClean res.stateMessage fields)
    (hlength : contentLength fields = none) (hbody : res.body = []) {last : Prop} (hlast : last) :
    Framing.Frames cut (res.framed fields) ⟨res.sentVersion, res.stateCode, fields, []⟩ last where
  whole rest hrest := by
    rw [framed_eq, hbody, List.append_assoc, hrest hlast, cut_headed hclean, hlength]
    rfl
  part stream hstream hne := by
    obtain ⟨hhead, hshort⟩ | ⟨body, rfl, hshort⟩ := part_cases hstream hne
    · exact cut_of_short hclean hhead hshort
    · exact absurd hshort (by simp [hbody])

/-- The headers that are sent are as clean as those that were written. -/
theorem clean_response {iterate : HeaderMap → HeaderMap} (hiterate : ∀ m, (iterate m).Perm m)
    {calls : List Call} (hclean : IsClean (ofCalls calls).stateMessage (written calls)) :
    IsClean (ofCalls calls).stateMessage
      (iterate ((ofCalls calls).response iterate).1.headers) := by
  have hkeys (k : Bytes) := HeaderMap.filter_key_of_perm
    (hiterate ((ofCalls calls).response iterate).1.headers) (nodup_response iterate calls) k
  simp only [get?_response] at hkeys
  have hsent {f : Bytes × Bytes}
      (hf : f ∈ iterate ((ofCalls calls).response iterate).1.headers) :
      f ∈ written calls ∨ f = (kContentLength, Decimal.ofNat (ofCalls calls).body.length) := by
    simpa [sent] using mem_of_filter_key hkeys hf
  have hdigits {b : Byte} (hminus : b ≠ 45) (hdigit : ¬ Decimal.IsDigit b) :
      b ∉ Decimal.ofNat (ofCalls calls).body.length := by
    rw [← Decimal.ofInt_natCast]
    exact Decimal.notMem_ofInt hminus hdigit _
  refine ⟨hclean.message, fun f hf => ?_, fun f hf => ?_⟩
  · rcases hsent hf with hf | rfl
    · exact hclean.keys f hf
    · have hkey : (13 : Byte) ∉ kContentLength ∧ (10 : Byte) ∉ kContentLength ∧
          (58 : Byte) ∉ kContentLength := by
        decide
      exact hkey
  · rcases hsent hf with hf | rfl
    · exact hclean.values f hf
    · exact ⟨hdigits (by decide) (by decide), hdigits (by decide) (by decide)⟩

/-- The order of the header map does not hide the length. -/
theorem contentLength_response {iterate : HeaderMap → HeaderMap}
    (hiterate : ∀ m, (iterate m).Perm m) (calls : List Call) :
    contentLength (iterate ((ofCalls calls).response iterate).1.headers)
      = some (ofCalls calls).body.length := by
  have hone := HeaderMap.filter_key_of_perm
    (hiterate ((ofCalls calls).response iterate).1.headers) (nodup_response iterate calls)
    kContentLength
  rw [get?_response, sent, lastValue_concat, if_pos rfl] at hone
  have hread := Decimal.read_ofInt (ofCalls calls).body.length
  rw [Decimal.ofInt_natCast] at hread
  simp [contentLength, lastValue, hone, hread]

end HttpResponse

/-! ## Replies -/

namespace HttpReply

open HttpResponse

/-- What a client is to make of a reply. -/
def decoded : HttpReply → Decoded
  | .badRequest => ⟨.http11, 400, [], []⟩
  | .response iterate res =>
      ⟨res.sentVersion, res.stateCode, iterate (res.response iterate).1.headers, res.body⟩

/-- A handler makes its response by calls, and writes no line break into its head and no colon into
    a key. -/
def CleanHandler (httpCallback : HttpRequest → HttpResponse → HttpResponse)
    (iterate : HeaderMap → HeaderMap) : Prop :=
  (∀ m, (iterate m).Perm m) ∧ ∀ req, ∃ calls, httpCallback req .new = ofCalls calls ∧
    IsClean (ofCalls calls).stateMessage (written calls)

/-- The response was made so. -/
def IsClean : HttpReply → Prop
  | .badRequest => True
  | .response iterate res => (∀ m, (iterate m).Perm m) ∧
      ∃ calls, res = ofCalls calls ∧
        HttpResponse.IsClean (ofCalls calls).stateMessage (written calls)

theorem frames (reply : HttpReply) (hclean : reply.IsClean) :
    Framing.Frames cut reply.text reply.decoded (reply.keepAlive = false) := by
  cases reply with
  | badRequest =>
      let res := (HttpResponse.new.setStateCode 400).setSateMessage (bytes "Bad Request")
      have hclean : HttpResponse.IsClean res.stateMessage [] := ⟨by decide, by simp, by simp⟩
      have htext : res.framed [] = HttpReply.badRequest.text := by decide
      have hlast : HttpReply.badRequest.keepAlive = false := rfl
      exact htext ▸ frames_of_no_length hclean rfl rfl hlast
  | response iterate res =>
      obtain ⟨hiterate, calls, rfl, hcalls⟩ := hclean
      rw [text, response_snd]
      exact frames_framed (clean_response hiterate hcalls) (contentLength_response hiterate calls) _

end HttpReply

/-! ## What the kernel takes -/

namespace TcpConnection

variable {c : TcpConnection} {w : WriteResult} {data : Bytes}

theorem connectDestoryed_outputBuffer (c : TcpConnection) :
    c.connectDestoryed.1.outputBuffer = c.outputBuffer := by
  simp only [connectDestoryed]
  split <;> rfl

theorem connectDestoryed_state (c : TcpConnection) :
    c.connectDestoryed.1.state ≠ .connected := by
  simp only [connectDestoryed, onChannel_state]
  split
  · simp
  · assumption

/-- What `SendInLoop` takes is written or pending, also when the direct write fails for good. -/
theorem sendInLoop_taken (hc : Balanced c) :
    written (c.sendInLoop data w).2 ++ (c.sendInLoop data w).1.outputBuffer
      = c.outputBuffer ++ handled (c.sendInLoop data w).2 := by
  cases herr : (c.writeDirect data w).2.1 with
  | false => rw [stream_of_no_err hc herr, handled_of_no_err herr]
  | true =>
      have hnone := writeDirect_failed herr
      simp [sendInLoop, herr, written_writeDirect, handled_writeDirect, hnone]

theorem send_taken (hc : Balanced c) :
    written (c.send data w).2 ++ (c.send data w).1.outputBuffer
        = c.outputBuffer ++ handled (c.send data w).2 ∧
      Balanced (c.send data w).1 := by
  unfold send
  split
  · exact ⟨sendInLoop_taken hc, sendInLoop_balanced hc⟩
  · exact ⟨by simp, hc⟩

theorem serve_taken (hc : Balanced c) (e : HttpEvent) :
    written (c.serve w e).2 ++ (c.serve w e).1.outputBuffer
        = c.outputBuffer ++ handled (c.serve w e).2 ∧
      Balanced (c.serve w e).1 := by
  cases e with
  | httpCallback req => exact ⟨by simp [serve], hc⟩
  | sendString data => exact send_taken hc
  | sendBuffer data => exact send_taken hc
  | shutdown =>
      rw [serve_shutdown, handled_shutdown, shutdown_stream, List.append_nil]
      exact ⟨rfl, shutdown_balanced hc⟩

theorem serveAll_taken (hc : Balanced c) (es : List HttpEvent) :
    written (c.serveAll w es).2 ++ (c.serveAll w es).1.outputBuffer
        = c.outputBuffer ++ handled (c.serveAll w es).2 ∧
      Balanced (c.serveAll w es).1 := by
  induction es generalizing c with
  | nil => exact ⟨by simp [serveAll], hc⟩
  | cons e es ih =>
      obtain ⟨hfirst, hbalanced⟩ := serve_taken (w := w) hc e
      obtain ⟨hrest, hbalanced'⟩ := ih hbalanced
      refine ⟨?_, hbalanced'⟩
      simp only [serveAll, written_append, handled_append]
      rw [List.append_assoc, hrest, ← List.append_assoc, hfirst, List.append_assoc]

end TcpConnection

namespace HttpConnection

open HttpResponse (cut responses)

variable {p : HttpConnection × Bytes} {as : List Action}

/-- The bytes taken for output are on the wire or pending; in `kConnected` the channel knows of
    those that are pending. -/
structure Flows (p : HttpConnection × Bytes) : Prop where
  taken : p.2 ++ p.1.conn.outputBuffer = p.1.accepted
  balanced : p.1.conn.state = .connected → p.1.conn.Balanced

theorem Flows.step {s : HttpConnection} {wire : Bytes} (h : Flows (s, wire)) (a : Action) :
    Flows (s.step a, wire ++ TcpConnection.written (s.effects a)) := by
  obtain ⟨htaken, hbalanced⟩ := h
  cases a with
  | onMessage httpCallback iterate t chunk w =>
      by_cases hconnected : s.conn.state = .connected
      · obtain ⟨hstream, hstays⟩ := TcpConnection.serveAll_taken (w := w) (hbalanced hconnected)
          (HttpServer.onMessage httpCallback iterate (s.inputBuffer ++ chunk) t).1
        refine ⟨?_, fun _ => hstays⟩
        simp only [HttpConnection.step, effects] at htaken ⊢
        rw [List.append_assoc, hstream, ← List.append_assoc, htaken]
      · have hnone := TcpConnection.serveAll_of_not_connected (w := w) hconnected
        refine ⟨?_, ?_⟩
        · simpa [HttpConnection.step, effects, hnone] using htaken
        · simp [HttpConnection.step, hnone, hconnected]
  | handleWrite w =>
      refine ⟨?_, fun hconnected => ?_⟩
      · simp only [HttpConnection.step, effects] at htaken ⊢
        rw [List.append_assoc, TcpConnection.handleWrite_stream, htaken]
      · simp only [HttpConnection.step, TcpConnection.handleWrite_state] at hconnected ⊢
        exact TcpConnection.handleWrite_balanced (hbalanced hconnected)
  | handleClose =>
      refine ⟨?_, by simp [HttpConnection.step]⟩
      simp only [HttpConnection.step, effects, TcpConnection.written_handleClose, List.append_nil]
      exact htaken
  | connectDestoryed =>
      refine ⟨?_, fun hconnected => absurd hconnected (TcpConnection.connectDestoryed_state _)⟩
      simp only [HttpConnection.step, effects, TcpConnection.written_connectDestoryed,
        List.append_nil, TcpConnection.connectDestoryed_outputBuffer]
      exact htaken

theorem flows_of_reaches (run : onWire.Reaches Machine.anyStep as p) : Flows p := by
  refine run.invariant ?_ ?_
  · rintro ⟨s, wire⟩ ⟨⟨hestablished, -, haccepted, -⟩, hwire⟩
    obtain rfl : wire = [] := hwire
    refine ⟨?_, fun _ => hestablished.balanced⟩
    rw [haccepted, hestablished.outputBuffer_eq]
    rfl
  · rintro ⟨s, wire⟩ a q h - hstep
    obtain rfl := Option.some.inj hstep
    exact h.step a

/-! ## What a client makes of it -/

/-- The handlers write nothing into a head that a client takes for something else. -/
def CleanHandlers (_ : HttpConnection × Bytes) : Action → Prop
  | .onMessage httpCallback iterate _ _ _ => HttpReply.CleanHandler httpCallback iterate
  | _ => True

theorem reply_of_mem {q : Prop} [Decidable q] {reply : Option HttpReply} {r : HttpReply}
    (h : r ∈ if q then [] else reply.toList) : reply = some r := by
  split at h
  · exact absurd h (by simp)
  · exact Option.mem_toList.1 h

theorem clean_of_reaches (run : onWire.Reaches CleanHandlers as p) :
    ∀ r ∈ p.1.replies, r.IsClean := by
  refine run.invariant (I := fun p => ∀ r ∈ p.1.replies, r.IsClean) ?_ ?_
  · rintro ⟨s, wire⟩ ⟨⟨-, -, -, hreplies⟩, -⟩
    rw [hreplies]
    simp
  · rintro ⟨s, wire⟩ a q h hclean hstep
    obtain rfl := Option.some.inj hstep
    cases a with
    | handleWrite w => exact h
    | handleClose => exact h
    | connectDestoryed => exact h
    | onMessage httpCallback iterate t chunk w =>
        intro r hr
        rcases List.mem_append.1 hr with hr | hr
        · exact h r hr
        · have hreply := reply_of_mem hr
          obtain ⟨-, hnone⟩ | ⟨-, hbad⟩ | ⟨req, reply, rfl, -, hres⟩ :=
            HttpServer.onMessage_cases httpCallback iterate (s.inputBuffer ++ chunk) t
          · exact absurd (hnone.symm.trans hreply) (by simp)
          · obtain rfl := Option.some.inj (hbad.symm.trans hreply)
            trivial
          · obtain rfl := Option.some.inj (hres.symm.trans hreply)
            exact ⟨hclean.1, hclean.2 req⟩

theorem reads_replies (run : onWire.Reaches CleanHandlers as p) :
    responses p.2 <+: p.1.replies.map HttpReply.decoded ∧
    (p.1.conn.outputBuffer = [] → responses p.2 = p.1.replies.map HttpReply.decoded) := by
  have hrun : machine.Reaches Machine.anyStep as p.1 := run.of_observing fun _ _ _ => trivial
  obtain ⟨htaken, -⟩ := flows_of_reaches (run.mono fun _ _ _ => trivial)
  rw [accepted_eq hrun] at htaken
  have hframes : ∀ r ∈ p.1.replies, Framing.Frames cut r.text r.decoded (r.keepAlive = false) :=
    fun r hr => r.frames (clean_of_reaches run r hr)
  have hlast := (closing_last hrun).1
  refine ⟨Framing.items_prefix rfl hframes hlast ⟨_, htaken⟩, fun hempty => ?_⟩
  rw [hempty, List.append_nil] at htaken
  rw [htaken]
  exact Framing.items_flatMap rfl hframes hlast

/-! ## Requests that are all answered -/

section

variable (httpCallback : HttpRequest → HttpResponse → HttpResponse)
variable (iterate : HeaderMap → HeaderMap)

/-- The one handler of a server, no end of the stream, and no direct write that fails for good. -/
def Serving (_ : HttpConnection × Bytes) : Action → Prop
  | .onMessage httpCallback' iterate' _ _ w =>
      httpCallback' = httpCallback ∧ iterate' = iterate ∧ w.Benign
  | .handleWrite _ => True
  | _ => False

/-- The read of a step. -/
def Action.read? : Action → Option (Timestamp × Bytes)
  | .onMessage _ _ receiveTime chunk _ => some (receiveTime, chunk)
  | _ => none

def answer (req : HttpRequest) : HttpReply := .response iterate (httpCallback req .new)

/-- The connection did what its reads ask for: as long as nothing was refused, it is up and has
    answered every request. -/
structure Answers (session : HttpSession) (s : HttpConnection) : Prop where
  inputBuffer : s.inputBuffer = session.inputBuffer
  answered : .sendString HttpServer.badRequest ∉ session.events →
    s.conn.state = .connected ∧ s.replies = session.dispatched.map (answer httpCallback iterate)

variable {httpCallback iterate}

theorem Answers.onMessage {session : HttpSession} {s : HttpConnection}
    (hkeep : ∀ req, (httpCallback req .new).keepAlive = true)
    (h : Answers httpCallback iterate session s) (t : Timestamp) (chunk : Bytes) {w : WriteResult}
    (hw : w.Benign) :
    Answers httpCallback iterate (session.headleRead httpCallback iterate t chunk)
      (s.step (.onMessage httpCallback iterate t chunk w)) := by
  refine ⟨by simp [HttpConnection.step, HttpSession.headleRead, h.inputBuffer], fun hfree => ?_⟩
  simp only [HttpSession.headleRead, List.mem_append, not_or] at hfree
  obtain ⟨hstate, hreplies⟩ := h.answered hfree.1
  rw [← h.inputBuffer] at hfree
  obtain ⟨hcalls, hreply⟩ | ⟨hcalls, -⟩ | ⟨req, reply, hres, hcalls, hreply⟩ :=
    HttpServer.onMessage_cases httpCallback iterate (s.inputBuffer ++ chunk) t
  · simp [HttpConnection.step, HttpSession.headleRead, HttpSession.dispatched, hcalls,
      ← h.inputBuffer, TcpConnection.serveAll, hstate, hreplies]
  · exact absurd (by simp [hcalls]) hfree.2
  · have hup : reply.followUp = [] := by simp [HttpReply.followUp, HttpReply.keepAlive, hres, hkeep]
    have hserve : s.conn.serveAll w [.httpCallback req, .sendBuffer reply.text]
        = s.conn.send reply.text w := by
      simp [TcpConnection.serveAll, TcpConnection.serve]
    have htaken : TcpConnection.handled (s.conn.send reply.text w).2 = reply.text := by
      simp [TcpConnection.send, hstate, TcpConnection.handled_sendInLoop hw]
    have hanswer : [HttpEvent.httpCallback req, .sendBuffer reply.text].filterMap
        HttpEvent.request? = [req] ∧ answer httpCallback iterate req = reply := ⟨rfl, hres.symm⟩
    rw [hup] at hcalls
    simp [HttpConnection.step, HttpSession.headleRead, HttpSession.dispatched,
      ← h.inputBuffer, hcalls, hserve, htaken, hreply, reply.text_ne_nil, hstate, hreplies, hanswer]

theorem answers_of_reaches (hkeep : ∀ req, (httpCallback req .new).keepAlive = true)
    (run : onWire.Reaches (Serving httpCallback iterate) as p) :
    Answers httpCallback iterate
      (HttpSession.new.headleReads httpCallback iterate (as.filterMap Action.read?)) p.1 := by
  refine run.history (I := fun as p => Answers httpCallback iterate
    (HttpSession.new.headleReads httpCallback iterate (as.filterMap Action.read?)) p.1) ?_ ?_
  · rintro ⟨s, wire⟩ ⟨⟨hestablished, hinput, -, hreplies⟩, -⟩
    exact ⟨hinput, fun _ => ⟨hestablished.state_eq, hreplies⟩⟩
  · rintro as ⟨s, wire⟩ a q h hok hstep
    obtain rfl := Option.some.inj hstep
    cases a with
    | onMessage httpCallback' iterate' t chunk w =>
        obtain ⟨rfl, rfl, hw⟩ := hok
        have hnext := h.onMessage hkeep t chunk hw
        simpa [Action.read?, HttpSession.headleReads] using hnext
    | handleWrite w =>
        have hnext : Answers httpCallback iterate
            (HttpSession.new.headleReads httpCallback iterate (as.filterMap Action.read?))
            (s.step (.handleWrite w)) :=
          ⟨h.inputBuffer, by simpa [HttpConnection.step] using h.answered⟩
        simpa [Action.read?, List.filterMap_cons] using hnext
    | handleClose => exact hok.elim
    | connectDestoryed => exact hok.elim

/-- Requests whose reads keep up with them are all answered. -/
theorem reads_answers (hclean : HttpReply.CleanHandler httpCallback iterate)
    (hkeep : ∀ req, (httpCallback req .new).keepAlive = true) {ws : List WireRequest}
    (run : onWire.Reaches (Serving httpCallback iterate) as p)
    (hstream : ((as.filterMap Action.read?).map Prod.snd).flatten = ws.flatMap WireRequest.text)
    (hreads : HttpSession.InStep (HttpSession.firstLines ws) ws []
      ((as.filterMap Action.read?).map Prod.snd)) :
    ∃ reqs : List HttpRequest, List.Forall₂ WireRequest.Received ws reqs ∧
      responses p.2 <+: reqs.map (fun req => (answer httpCallback iterate req).decoded) ∧
      (p.1.conn.outputBuffer = [] →
        responses p.2 = reqs.map fun req => (answer httpCallback iterate req).decoded) := by
  have hserves : (HttpSession.new.headleReads httpCallback iterate
      (as.filterMap Action.read?)).Serves ws := by
    refine (HttpSession.serves_iff_inStep httpCallback iterate _ (HttpSession.firstLines ws) ws []
      (HttpSession.isText_firstLines ws) ?_).2 hreads
    rw [List.nil_append, hstream, HttpSession.streamText_firstLines]
  obtain ⟨-, hreplies⟩ := (answers_of_reaches hkeep run).answered hserves.2
  have hrun : onWire.Reaches CleanHandlers as p := by
    refine run.mono fun p a hok => ?_
    cases a with
    | onMessage httpCallback' iterate' t chunk w =>
        obtain ⟨rfl, rfl, -⟩ := hok
        exact hclean
    | handleWrite w => trivial
    | handleClose => trivial
    | connectDestoryed => trivial
  have hreads := reads_replies hrun
  rw [hreplies, List.map_map] at hreads
  exact ⟨_, hserves.1, hreads⟩

end

end HttpConnection

/-! ## On buffers -/

namespace ServedConnection

open HttpConnection (answer)
open HttpResponse (responses)

variable {s : ServedConnection} {as : List Action}

/-- The handlers write nothing into a head that a client takes for something else. -/
def CleanHandlers (_ : Option ServedConnection) : Action → Prop
  | .headleRead httpCallback iterate _ _ _ => HttpReply.CleanHandler httpCallback iterate
  | _ => True

theorem CleanHandlers.onQueue {o : Option ServedConnection} {a : Action}
    {q : HttpConnection.Action} (h : CleanHandlers o a) (hq : a.onQueue = some q)
    (p : HttpConnection × Bytes) : HttpConnection.CleanHandlers p q := by
  cases a with
  | headleRead httpCallback iterate t r w =>
      cases r with
      | error errno => exact absurd hq (by simp [Action.onQueue])
      | ok data =>
          rw [Action.onQueue] at hq
          split at hq <;> obtain rfl := Option.some.inj hq
          · trivial
          · exact h
  | handleWrite w =>
      obtain rfl := Option.some.inj hq
      trivial
  | connectDestoryed =>
      obtain rfl := Option.some.inj hq
      trivial

/-- In every run in which the buffers stay inside of their vectors, whatever arrives in whatever
    pieces and however the kernel cuts the writes: when the handlers are clean, a client that cuts
    what has come by its lengths has at every moment the first of the replies that the connection
    has taken, and all of them as soon as nothing is pending. Behind a reply that closes there is no
    other. -/
theorem client_reads_replies (run : machine.Reaches CleanHandlers as (some s)) :
    responses s.wire <+: s.replies.map HttpReply.decoded ∧
    (s.conn.outputBuffer.readable = [] → responses s.wire = s.replies.map HttpReply.decoded) ∧
    Trace.NeverAfter (fun r : HttpReply => r.keepAlive = false) (fun _ => True) s.replies := by
  obtain ⟨-, honWire⟩ := onWire_of_reaches (fun _ _ _ p h hq => h.onQueue hq p) run s rfl
  obtain ⟨hfirst, hall⟩ := HttpConnection.reads_replies honWire
  exact ⟨hfirst, hall,
    (HttpConnection.closing_last (honWire.of_observing fun _ _ _ => trivial)).1⟩

/-- A body that contains a blank line. -/
def blankLineInBody : List HttpResponse.Call :=
  [.setStateCode 200, .setSateMessage (bytes "OK"), .setHeader (bytes "Host") (bytes "a: b"),
    .setBody (bytes "x\r\n\r\ny")]

/-- A request answered through a short write, and a line that is no request line. -/
def requestThenRubbish : List Action :=
  [.headleRead (fun _ _ => .ofCalls blankLineInBody) List.reverse .zero
      (.ok (bytes "GET / HTTP/1.1\r\n\r\n")) (.room 5),
    .headleRead (fun _ _ => .ofCalls blankLineInBody) id .zero (.ok (bytes "?\r\n")) (.room 1000),
    .handleWrite (.room 1000)]

theorem client_reads_replies_requestThenRubbish :
    ∃ s, machine.Reaches CleanHandlers requestThenRubbish (some s) ∧
      s.replies.map HttpReply.keepAlive = [true, false] ∧
      responses s.wire = s.replies.map HttpReply.decoded := by
  have hclean : HttpResponse.IsClean (HttpResponse.ofCalls blankLineInBody).stateMessage
      (HttpResponse.written blankLineInBody) := ⟨by decide, by decide, by decide⟩
  obtain ⟨o, run, hsome⟩ := Machine.exists_reaches_of_exec machine Machine.anyStep (some fresh)
    requestThenRubbish (fun o => o.any (fun s => decide
      (s.replies.map HttpReply.keepAlive = [true, false] ∧ s.conn.outputBuffer.readable = []))
        = true)
    ⟨fresh, fresh_established, rfl⟩ (by decide +kernel)
  obtain ⟨s, rfl, hs⟩ := (Option.any_eq_true _ _).1 hsome
  obtain ⟨hkeep, hempty⟩ := of_decide_eq_true hs
  have hrun : machine.Reaches CleanHandlers requestThenRubbish (some s) := by
    refine run.of_labels ?_
    simp only [requestThenRubbish, List.forall_mem_cons]
    exact ⟨fun _ => ⟨List.reverse_perm, fun _ => ⟨_, rfl, hclean⟩⟩,
      fun _ => ⟨fun _ => .refl _, fun _ => ⟨_, rfl, hclean⟩⟩, fun _ => trivial, by simp⟩
  exact ⟨s, hrun, hkeep, (client_reads_replies hrun).2.1 hempty⟩

section

variable (httpCallback : HttpRequest → HttpResponse → HttpResponse)
variable (iterate : HeaderMap → HeaderMap)

/-- The one handler of a server, no end of the stream, and no direct write that fails for good. -/
def Serving (_ : Option ServedConnection) : Action → Prop
  | .headleRead httpCallback' iterate' _ r w =>
      httpCallback' = httpCallback ∧ iterate' = iterate ∧ r ≠ .ok [] ∧ w.Benign
  | .handleWrite _ => True
  | .connectDestoryed => False

variable {httpCallback iterate}

theorem Serving.onQueue {o : Option ServedConnection} {a : Action} {q : HttpConnection.Action}
    (h : Serving httpCallback iterate o a) (hq : a.onQueue = some q) (p : HttpConnection × Bytes) :
    HttpConnection.Serving httpCallback iterate p q := by
  cases a with
  | headleRead httpCallback' iterate' t r w =>
      obtain ⟨hsame, hsame', hr, hw⟩ := h
      cases r with
      | error errno => exact absurd hq (by simp [Action.onQueue])
      | ok data =>
          have hdata : data ≠ [] := fun hnil => hr (congrArg _ hnil)
          rw [Action.onQueue, if_neg hdata] at hq
          obtain rfl := Option.some.inj hq
          exact ⟨hsame, hsame', hw⟩
  | handleWrite w =>
      obtain rfl := Option.some.inj hq
      trivial
  | connectDestoryed => exact h.elim

/-- The bytes that a step has received, and when. -/
def Action.read? : Action → Option (Timestamp × Bytes)
  | .headleRead _ _ t (.ok data) _ => if data = [] then none else some (t, data)
  | _ => none

theorem reads_onQueue (as : List Action) :
    (as.filterMap Action.onQueue).filterMap HttpConnection.Action.read?
      = as.filterMap Action.read? := by
  rw [List.filterMap_filterMap]
  congr 1
  funext a
  cases a with
  | handleWrite w => rfl
  | connectDestoryed => rfl
  | headleRead httpCallback iterate t r w =>
      cases r with
      | error errno => rfl
      | ok data =>
          rw [Action.onQueue, Action.read?]
          split <;> rfl

/-- Requests whose reads keep up with them are all answered, when the buffers stay inside of their
    vectors: a client that sends the requests `ws` reads the responses of the handler to these
    requests, one for each and in their order, at every moment the first ones, and all of them as
    soon as nothing is pending. -/
theorem answers_requests (hclean : HttpReply.CleanHandler httpCallback iterate)
    (hkeep : ∀ req, (httpCallback req .new).keepAlive = true) {ws : List WireRequest}
    (run : machine.Reaches (Serving httpCallback iterate) as (some s))
    (hstream : ((as.filterMap Action.read?).map Prod.snd).flatten = ws.flatMap WireRequest.text)
    (hreads : HttpSession.InStep (HttpSession.firstLines ws) ws []
      ((as.filterMap Action.read?).map Prod.snd)) :
    ∃ reqs : List HttpRequest, List.Forall₂ WireRequest.Received ws reqs ∧
      responses s.wire <+: reqs.map (fun req => (answer httpCallback iterate req).decoded) ∧
      (s.conn.outputBuffer.readable = [] →
        responses s.wire = reqs.map fun req => (answer httpCallback iterate req).decoded) := by
  obtain ⟨-, honWire⟩ := onWire_of_reaches (fun _ _ _ p h hq => h.onQueue hq p) run s rfl
  rw [← reads_onQueue] at hstream hreads
  exact HttpConnection.reads_answers hclean hkeep honWire hstream hreads

end

/-- A handler that answers with the path. -/
def echoPath (req : HttpRequest) (_ : HttpResponse) : HttpResponse :=
  .ofCalls [.setStateCode 200, .setBody req.url]

open HttpSession (getRoot)

/-- Two requests, the first in two reads, and responses that the kernel takes in pieces. -/
def twoRoots : List Action :=
  [.headleRead echoPath id .zero (.ok (bytes "GET / HT")) (.room 0),
    .headleRead echoPath id .zero (.ok (getRoot.text.drop 8)) (.room 5),
    .handleWrite (.room 7),
    .headleRead echoPath id .zero (.ok getRoot.text) (.room 1000),
    .handleWrite (.room 1000)]

theorem answers_requests_twoRoots :
    ∃ s, machine.Reaches (Serving echoPath id) twoRoots (some s) ∧ ∃ reqs : List HttpRequest,
      List.Forall₂ WireRequest.Received [getRoot, getRoot] reqs ∧
      responses s.wire = reqs.map fun req => (answer echoPath id req).decoded := by
  have hclean : HttpReply.CleanHandler echoPath id := by
    have hwritten : HttpResponse.IsClean [] [(kConnection, bytes "Keep-Alive")] :=
      ⟨by decide, by decide, by decide⟩
    exact ⟨fun _ => .refl _, fun req => ⟨_, rfl, hwritten⟩⟩
  obtain ⟨o, run, hsome⟩ := Machine.exists_reaches_of_exec machine Machine.anyStep (some fresh)
    twoRoots (fun o => o.any (fun s => decide (s.conn.outputBuffer.readable = [])) = true)
    ⟨fresh, fresh_established, rfl⟩ (by decide +kernel)
  obtain ⟨s, rfl, hs⟩ := (Option.any_eq_true _ _).1 hsome
  have hrun : machine.Reaches (Serving echoPath id) twoRoots (some s) := by
    refine run.of_labels ?_
    simp only [twoRoots, List.forall_mem_cons]
    exact ⟨fun _ => ⟨rfl, rfl, by decide, by decide⟩, fun _ => ⟨rfl, rfl, by decide, by decide⟩,
      fun _ => trivial, fun _ => ⟨rfl, rfl, by decide, by decide⟩, fun _ => trivial, by simp⟩
  obtain ⟨reqs, hreqs, -, hall⟩ := answers_requests hclean (fun _ => rfl) hrun
    (by decide : _ = [getRoot, getRoot].flatMap WireRequest.text) (by decide)
  exact ⟨s, hrun, reqs, hreqs, hall (of_decide_eq_true hs)⟩

end ServedConnection
