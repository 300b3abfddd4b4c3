import Mathlib.Data.List.Forall2
import Muduo.Http.HttpServer
import Muduo.Http.Proofs.RequestLine

set_option autoImplicit false

/-! # When a connection answers every request

`onMessage` starts a new parser at every read and dispatches at most one request, so what a client
gets depends on how its bytes are cut. Of a request that is dispatched it gets the header values
without their last characters. `InStep` says which requests are served in which cuts. -/

namespace HttpRequest

/-! ## What is left of a request -/

/-- The lines that are left begin with one that passes for a request line. -/
def StartsRequest : List Bytes → Prop
  | [] => False
  | line :: _ => Passes line

/-- The lines that are left ask for what the client asks for with `w`: the first passes for a
    request line with its method, target and version, and under every name the others say what `w`
    says, when the last character of a value is lost. -/
def ReadsAs (w : WireRequest) : List Bytes → Prop
  | [] => False
  | line :: headers =>
      (∃ tail, Splits line w.method w.target tail ∧ versionOf tail = some w.version) ∧
        ∀ key, (lastValue (headers.map fieldOf) key).map stored = w.header key

theorem ReadsAs.startsRequest {w : WireRequest} {lines : List Bytes} (h : ReadsAs w lines) :
    StartsRequest lines := by
  cases lines with
  | nil => exact h.elim
  | cons line headers =>
      obtain ⟨⟨tail, hsplits, hv⟩, -⟩ := h
      exact ⟨_, _, tail, hsplits, by rw [hv]; rfl⟩

instance decidableStartsRequest : (lines : List Bytes) → Decidable (StartsRequest lines)
  | [] => isFalse id
  | line :: _ => inferInstanceAs (Decidable (Passes line))

/-- The first condition of `ReadsAs` as a test. -/
theorem exists_splits_iff (w : WireRequest) (line : Bytes) :
    (∃ tail, Splits line w.method w.target tail ∧ versionOf tail = some w.version) ↔
      w.method.text ++ 32 :: (w.target ++ [32]) <+: line ∧
        versionOf (line.drop (w.method.text ++ 32 :: (w.target ++ [32])).length)
          = some w.version := by
  have hshape (tail : Bytes) : w.method.text ++ 32 :: (w.target ++ 32 :: tail)
      = w.method.text ++ 32 :: (w.target ++ [32]) ++ tail := by
    simp
  constructor
  · rintro ⟨tail, hsplits, hv⟩
    rw [hsplits.eq, hshape tail, List.drop_left]
    exact ⟨List.prefix_append _ _, hv⟩
  · rintro ⟨⟨tail, rfl⟩, hv⟩
    rw [List.drop_left] at hv
    exact ⟨tail, ⟨w.method_known, w.target_space, (hshape tail).symm⟩, hv⟩

/-- For the second condition the names that occur are enough. -/
theorem forall_says_iff (w : WireRequest) (fields : List (Bytes × Bytes)) :
    (∀ key, (lastValue fields key).map stored = w.header key) ↔
      ∀ key ∈ (fields ++ w.headers).map Prod.fst,
        (lastValue fields key).map stored = w.header key := by
  refine ⟨fun hvalues key _ => hvalues key, fun hvalues key => ?_⟩
  by_cases hkey : key ∈ (fields ++ w.headers).map Prod.fst
  · exact hvalues key hkey
  · rw [List.map_append, List.mem_append, not_or] at hkey
    have hnone : lastValue fields key = none := by
      rw [← Option.not_isSome_iff_eq_none, lastValue_isSome_iff]
      exact hkey.1
    rw [w.header_eq_none hkey.2, hnone, Option.map_none]

instance decidableReadsAs (w : WireRequest) : (lines : List Bytes) → Decidable (ReadsAs w lines)
  | [] => isFalse id
  | line :: headers =>
      have := decidable_of_iff' _ (exists_splits_iff w line)
      have := decidable_of_iff' _ (forall_says_iff w (headers.map fieldOf))
      inferInstanceAs (Decidable (
        (∃ tail, Splits line w.method w.target tail ∧ versionOf tail = some w.version) ∧
          ∀ key, (lastValue (headers.map fieldOf) key).map stored = w.header key))

theorem isSome_ofLines_iff (lines : List Bytes) :
    (ofLines lines).isSome = true ↔ StartsRequest lines := by
  cases lines with
  | nil => simp [ofLines, StartsRequest]
  | cons line headers =>
      rw [StartsRequest, ← parseLine_fst_iff (r := new), ofLines]
      split
      · rename_i r hr
        simp [hr]
      · rename_i r hr
        simp [hr]

theorem fieldLine_fieldOf {headers : List Bytes} (h : ∀ l ∈ headers, IsHeaderLine l) :
    (headers.map fieldOf).map fieldLine = headers := by
  rw [List.map_map]
  exact (List.map_congr_left fun l hl => (h l hl).fieldLine_fieldOf).trans (List.map_id headers)

/-- What the parser makes of lines: the parts of the first, and under every name what is stored of
    the last value. -/
theorem ofLines_parts {lines : List Bytes} {req : HttpRequest} (htext : IsText lines)
    (h : ofLines lines = some req) :
    ∃ line headers m target tail v, lines = line :: headers ∧ Splits line m target tail ∧
      versionOf tail = some v ∧ req.method = m ∧ req.version = v ∧
      req.url = target.take (target.idxOf 63) ∧ req.query = target.drop (target.idxOf 63) ∧
      ∀ key, HeaderMap.get? req.headers key
        = (lastValue (headers.map fieldOf) key).map stored := by
  obtain ⟨line, headers, r, rfl, hr, rfl⟩ := ofLines_eq_some h
  obtain ⟨m, target, tail, hsplits, hversion⟩ := parseLine_fst_iff.1 (congrArg Prod.fst hr)
  obtain ⟨v, hv⟩ := Option.isSome_iff_exists.1 hversion
  obtain rfl : Patch.apply ⟨true, some m, some target, some v⟩ new = r := by
    rw [parseLine_eq, hsplits.ofLine, hv] at hr
    exact congrArg Prod.snd hr
  have hheaders : ∀ l ∈ headers, IsHeaderLine l := htext.2
  have hfields : ∀ f ∈ headers.map fieldOf, IsField f := by
    intro f hf
    obtain ⟨l, hl, rfl⟩ := List.mem_map.1 hf
    exact (hheaders l hl).isField
  have hget := get?_foldl_addLine
    (r := (Patch.apply ⟨true, some m, some target, some v⟩ new).setState .parseHeader)
    (apply_headers new m target v) hfields
  rw [fieldLine_fieldOf hheaders] at hget
  refine ⟨line, headers, m, target, tail, v, rfl, hsplits, hv, ?_, ?_, ?_, ?_, hget⟩
  · rw [foldl_addLine_eq]
    exact apply_method new m target v
  · rw [foldl_addLine_eq]
    rfl
  · rw [foldl_addLine_eq, ← takeWhile_question]
    exact apply_url new m target v
  · rw [foldl_addLine_eq]
    exact apply_query m target v rfl

/-- What the lines make is the request of the client if and only if they read as that request. -/
theorem received_iff_readsAs {lines : List Bytes} {req : HttpRequest} (htext : IsText lines)
    (h : ofLines lines = some req) (w : WireRequest) :
    w.Received req ↔ ReadsAs w lines := by
  obtain ⟨line, headers, m, target, tail, v, rfl, hsplits, hv, hmethod, hversion, hurl, hquery,
    hheaders⟩ := ofLines_parts htext h
  constructor
  · intro hreceived
    obtain rfl : m = w.method := hmethod.symm.trans hreceived.method
    have htarget : target = w.target := by
      rw [← List.take_append_drop (target.idxOf 63) target, ← hurl, ← hquery, hreceived.url,
        hreceived.query, List.take_append_drop]
    refine ⟨⟨tail, htarget ▸ hsplits, ?_⟩, fun key => ?_⟩
    · rw [hv, ← hversion, hreceived.version]
    · rw [← hheaders, hreceived.headers]
  · rintro ⟨⟨tail', hsplits', hv'⟩, hvalues⟩
    obtain ⟨rfl, rfl, rfl⟩ := hsplits.unique hsplits'
    obtain rfl := Option.some.inj (hv.symm.trans hv')
    exact ⟨hmethod, hversion, hurl, hquery, fun key => (hheaders key).trans (hvalues key)⟩

/-- A request that is there completely reads as itself if and only if the last values of its names
    are white space altogether. -/
theorem readsAs_lines_iff (w : WireRequest) :
    ReadsAs w w.lines ↔
      ∀ key value, lastValue w.headers key = some value → ∀ c ∈ value, isspace c = true := by
  have hline : ∃ tail, Splits w.line w.method w.target tail ∧ versionOf tail = some w.version :=
    ⟨w.version.text, ⟨w.method_known, w.target_space, rfl⟩, versionOf_text w.version_known⟩
  have hback : (w.headers.map fieldLine).map fieldOf = w.headers := by
    rw [List.map_map]
    refine (List.map_congr_left fun f hf => ?_).trans (List.map_id w.headers)
    exact fieldOf_fieldLine (w.headers_field f hf).key_colon
  simp only [WireRequest.lines, ReadsAs, hback, WireRequest.header]
  constructor
  · rintro ⟨-, hvalues⟩ key value hlast
    have hvalue := hvalues key
    rw [hlast, Option.map_some, Option.map_some, Option.some.injEq] at hvalue
    exact stored_eq_trim_iff.1 hvalue
  · intro hspaces
    refine ⟨hline, fun key => Option.map_congr fun value hvalue => ?_⟩
    exact stored_eq_trim_iff.2 (hspaces key value hvalue)

end HttpRequest

namespace HttpServer

open HttpRequest

variable (httpCallback : HttpRequest → HttpResponse → HttpResponse)
variable (iterate : HeaderMap → HeaderMap)

/-! ## What one message does -/

theorem onMessage_of_no_line {buf : Bytes} (h : ¬ crlf <:+: buf) (t : Timestamp) :
    onMessage httpCallback iterate buf t = ([], buf) := by
  simp only [onMessage, parse_of_no_line t HttpRequest.new h]
  rfl

/-- A text that is there completely is dispatched. -/
theorem onMessage_text {lines : List Bytes} {req : HttpRequest} (htext : IsText lines)
    (h : ofLines lines = some req) (t : Timestamp) (rest : Bytes) :
    onMessage httpCallback iterate (headerText lines ++ rest) t
      = (onRequest httpCallback iterate (req.setReceiveTime t), rest) := by
  have hdown : (req.setReceiveTime t).acceptable = true := by
    obtain ⟨line, headers, r, rfl, hr, rfl⟩ := ofLines_eq_some h
    rfl
  simp [onMessage, parse_text htext h, hdown]

/-- The complete lines of a text that is not there completely are consumed, and nothing is done. -/
theorem onMessage_partial_text {lines : List Bytes} {req : HttpRequest} (htext : IsText lines)
    (h : ofLines lines = some req) (t : Timestamp) {buf rest more : Bytes}
    (hbuf : buf ++ rest = headerText lines ++ more) (hpart : ¬ headerText lines <+: buf)
    (hbreak : crlf <:+: buf) :
    onMessage httpCallback iterate buf t = ([], (afterLines lines buf).2) := by
  obtain ⟨r, hparse, hstate⟩ := parse_partial_text htext h t hbuf hpart hbreak
  simp [onMessage, hparse, hstate]

theorem mem_onMessage_bad_text {lines : List Bytes} (htext : IsText lines)
    (h : ofLines lines = none) (t : Timestamp) {buf rest more : Bytes}
    (hbuf : buf ++ rest = headerText lines ++ more) (hbreak : crlf <:+: buf) :
    .sendString badRequest ∈ (onMessage httpCallback iterate buf t).1 := by
  simp [onMessage, parse_bad_text htext h t hbuf hbreak]

end HttpServer

namespace HttpSession

open HttpRequest HttpServer

/-! ## What a client may expect -/

/-- The requests were dispatched as they were sent, each once and in order, and none was answered
    with a 400. -/
def Serves (s : HttpSession) (ws : List WireRequest) : Prop :=
  List.Forall₂ WireRequest.Received ws s.dispatched ∧ .sendString badRequest ∉ s.events

/-- The first lines of the requests to come. -/
def firstLines : List WireRequest → List Bytes
  | [] => []
  | w :: _ => w.lines

/-- The reads keep up with the requests `ws`, of the first of which `lines` have still to be
    parsed, when `pending` is unread. A read may complete no line. Otherwise it should find the rest
    of the request in the buffer, and what is left of the request should read as that request. When
    the blank line is not there, the complete lines are lost. -/
def InStep : (lines : List Bytes) → (ws : List WireRequest) → (pending : Bytes) →
    (chunks : List Bytes) → Prop
  | _, [], _, _ => True
  | _, _ :: _, _, [] => False
  | lines, w :: ws, pending, chunk :: chunks =>
      if findCRLF (pending ++ chunk) = none then
        InStep lines (w :: ws) (pending ++ chunk) chunks
      else if headerText lines <+: pending ++ chunk then
        ReadsAs w lines ∧
          InStep (firstLines ws) ws ((pending ++ chunk).drop (headerText lines).length) chunks
      else
        StartsRequest lines ∧
          InStep (afterLines lines (pending ++ chunk)).1 (w :: ws)
            (afterLines lines (pending ++ chunk)).2 chunks

instance decidableInStep : (lines : List Bytes) → (ws : List WireRequest) → (pending : Bytes) →
    (chunks : List Bytes) → Decidable (InStep lines ws pending chunks)
  | _, [], _, [] => isTrue trivial
  | _, [], _, _ :: _ => isTrue trivial
  | _, _ :: _, _, [] => isFalse id
  | lines, w :: ws, pending, chunk :: chunks =>
      have := decidableInStep lines (w :: ws) (pending ++ chunk) chunks
      have := decidableInStep (firstLines ws) ws
        ((pending ++ chunk).drop (headerText lines).length) chunks
      have := decidableInStep (afterLines lines (pending ++ chunk)).1 (w :: ws)
        (afterLines lines (pending ++ chunk)).2 chunks
      inferInstanceAs (Decidable (
        if findCRLF (pending ++ chunk) = none then
          InStep lines (w :: ws) (pending ++ chunk) chunks
        else if headerText lines <+: pending ++ chunk then
          ReadsAs w lines ∧
            InStep (firstLines ws) ws ((pending ++ chunk).drop (headerText lines).length) chunks
        else
          StartsRequest lines ∧
            InStep (afterLines lines (pending ++ chunk)).1 (w :: ws)
              (afterLines lines (pending ++ chunk)).2 chunks))

/-! ## Runs of reads -/

section

variable (httpCallback : HttpRequest → HttpResponse → HttpResponse)
variable (iterate : HeaderMap → HeaderMap)

/-- What a session did before its reads is what it did first. -/
theorem headleReads_events (buf : Bytes) (es : List HttpEvent) (reads : List (Timestamp × Bytes)) :
    (headleReads httpCallback iterate ⟨buf, es⟩ reads).events
      = es ++ (headleReads httpCallback iterate ⟨buf, []⟩ reads).events := by
  induction reads generalizing buf es with
  | nil => simp [headleReads]
  | cons read reads ih =>
      simp only [headleReads, List.foldl_cons, headleRead] at ih ⊢
      rw [ih, ih _ ([] ++ _), List.nil_append, List.append_assoc]

theorem serves_events {s r : HttpSession} (h : s.events = r.events) (ws : List WireRequest) :
    s.Serves ws ↔ r.Serves ws := by
  simp only [Serves, dispatched, h]

theorem dispatched_onRequest (req : HttpRequest) :
    (onRequest httpCallback iterate req).filterMap HttpEvent.request? = [req] := by
  simp only [onRequest]
  split <;> rfl

theorem badRequest_notMem_onRequest (req : HttpRequest) :
    .sendString badRequest ∉ onRequest httpCallback iterate req := by
  simp only [onRequest]
  split <;> simp

/-- A dispatched request followed by more. -/
theorem serves_cons (req : HttpRequest) (t : Timestamp) (w : WireRequest) (ws : List WireRequest)
    (buf : Bytes) (es : List HttpEvent) :
    Serves ⟨buf, onRequest httpCallback iterate (req.setReceiveTime t) ++ es⟩ (w :: ws)
      ↔ w.Received req ∧ Serves ⟨buf, es⟩ ws := by
  have htime : w.Received (req.setReceiveTime t) ↔ w.Received req :=
    ⟨fun h => ⟨h.method, h.version, h.url, h.query, h.headers⟩,
      fun h => ⟨h.method, h.version, h.url, h.query, h.headers⟩⟩
  have hfree := badRequest_notMem_onRequest httpCallback iterate (req.setReceiveTime t)
  simp only [Serves, dispatched, List.filterMap_append, dispatched_onRequest, List.mem_append,
    hfree, false_or, List.singleton_append, List.forall₂_cons, htime, and_assoc]

/-- The bytes still to come when `lines` are left of the first of `ws`. -/
def streamText (lines : List Bytes) : List WireRequest → Bytes
  | [] => []
  | _ :: ws => headerText lines ++ ws.flatMap WireRequest.text

theorem streamText_firstLines (ws : List WireRequest) :
    streamText (firstLines ws) ws = ws.flatMap WireRequest.text := by
  cases ws with
  | nil => rfl
  | cons w ws => rw [List.flatMap_cons]; rfl

theorem isText_firstLines (ws : List WireRequest) : IsText (firstLines ws) := by
  cases ws with
  | nil => exact ⟨by simp [firstLines], by simp [firstLines]⟩
  | cons w ws => exact isText_lines w

/-- The reads serve exactly the requests that they keep up with. -/
theorem serves_iff_inStep (reads : List (Timestamp × Bytes)) (lines : List Bytes)
    (ws : List WireRequest) (pending : Bytes) (htext : IsText lines)
    (hstream : pending ++ (reads.map Prod.snd).flatten = streamText lines ws) :
    Serves (headleReads httpCallback iterate ⟨pending, []⟩ reads) ws
      ↔ InStep lines ws pending (reads.map Prod.snd) := by
  induction reads generalizing lines ws pending with
  | nil =>
      cases ws with
      | nil => simp [headleReads, Serves, dispatched, InStep]
      | cons w ws =>
          refine iff_of_false (fun hserves => ?_) id
          exact absurd hserves.1.length_eq (by simp [headleReads, dispatched])
  | cons read reads ih =>
      obtain ⟨t, chunk⟩ := read
      rw [List.map_cons, List.flatten_cons, ← List.append_assoc] at hstream
      have hstep {es : List HttpEvent} {buf : Bytes}
          (h : onMessage httpCallback iterate (pending ++ chunk) t = (es, buf)) :
          headleReads httpCallback iterate ⟨pending, []⟩ ((t, chunk) :: reads)
            = headleReads httpCallback iterate ⟨buf, es⟩ reads := by
        simp [headleReads, headleRead, h]
      cases ws with
      | nil =>
          obtain ⟨hunread, hrest⟩ := List.append_eq_nil_iff.1 hstream
          rw [hstep (onMessage_of_no_line _ _ (hunread ▸ not_crlf_infix_nil) t), hunread]
          simpa [InStep] using ih lines [] [] htext hrest
      | cons w ws =>
          simp only [List.map_cons, InStep]
          by_cases hbreak : crlf <:+: pending ++ chunk
          · rw [if_neg (findCRLF_eq_none_iff.not.2 (not_not.2 hbreak))]
            have hstarts := isSome_ofLines_iff lines
            cases hreq : ofLines lines with
            | none =>
                -- what is left of a cut request is no request: a 400 goes out
                have hbad := mem_onMessage_bad_text httpCallback iterate htext hreq t hstream hbreak
                have hnot : ¬ Serves
                    (headleReads httpCallback iterate ⟨pending, []⟩ ((t, chunk) :: reads))
                    (w :: ws) := by
                  rintro ⟨-, hfree⟩
                  rw [hstep rfl, headleReads_events] at hfree
                  exact hfree (List.mem_append_left _ hbad)
                have hno : ¬ StartsRequest lines := fun h => by simpa [hreq] using hstarts.2 h
                have hno' : ¬ ReadsAs w lines := fun h => hno h.startsRequest
                simp [hnot, hno, hno']
            | some req =>
                by_cases hwhole : headerText lines <+: pending ++ chunk
                · -- one request is served, and what follows it waits for the next read
                  rw [if_pos hwhole]
                  obtain ⟨left, hleft⟩ := hwhole
                  rw [← hleft, streamText, List.append_assoc, List.append_cancel_left_eq,
                    ← streamText_firstLines] at hstream
                  rw [← hleft] at hstep ⊢
                  rw [hstep (onMessage_text _ _ htext hreq t left), List.drop_left,
                    serves_events (headleReads_events _ _ left _ reads) (r := ⟨left, _⟩),
                    serves_cons, received_iff_readsAs htext hreq,
                    ← ih _ ws left (isText_firstLines ws) hstream]
                  rfl
                · -- the complete lines are consumed, and the parser that read them is gone
                  rw [if_neg hwhole, hstep (onMessage_partial_text _ _ htext hreq t hstream hwhole
                    hbreak)]
                  simpa [hstarts.1 (by simp [hreq])] using ih _ (w :: ws) _
                    (isText_of_suffix htext (afterLines_suffix lines (pending ++ chunk)))
                    (afterLines_append_eq hstream)
          · rw [if_pos (findCRLF_eq_none_iff.2 hbreak),
              hstep (onMessage_of_no_line _ _ hbreak t)]
            exact ih lines (w :: ws) _ htext hstream

/-- Whatever the handler, a connection that receives the requests `ws`, cut into reads, serves them
    if and only if the reads keep up with them. -/
theorem serves_requests_iff (ws : List WireRequest) (reads : List (Timestamp × Bytes))
    (hstream : (reads.map Prod.snd).flatten = ws.flatMap WireRequest.text) :
    (HttpSession.new.headleReads httpCallback iterate reads).Serves ws
      ↔ InStep (firstLines ws) ws [] (reads.map Prod.snd) := by
  refine serves_iff_inStep httpCallback iterate reads (firstLines ws) ws []
    (isText_firstLines ws) ?_
  rw [List.nil_append, hstream, streamText_firstLines]

end

/-- `GET / HTTP/1.1` that names no host. -/
def getRoot : WireRequest where
  method := .GET
  target := bytes "/"
  version := .http11
  headers := [(bytes "Host", bytes " ")]
  method_known := by decide
  version_known := by decide
  target_space := by decide
  target_line := by decide
  headers_field := by
    intro f hf
    rw [List.mem_singleton.1 hf]
    exact ⟨by decide, by decide, by decide⟩

/-- `GET / HTTP/1.1` that names one. -/
def getHost : WireRequest :=
  { getRoot with
    headers := [(bytes "Host", bytes " a")]
    headers_field := by
      intro f hf
      rw [List.mem_singleton.1 hf]
      exact ⟨by decide, by decide, by decide⟩ }

/-- Two requests, each with a read of its own, are served by a handler that leaves the response as
    it is. -/
theorem serves_two_requests :
    (HttpSession.new.headleReads (fun _ res => res) id
      [(.zero, getRoot.text), (.zero, getRoot.text)]).Serves [getRoot, getRoot] :=
  (serves_requests_iff (fun _ res => res) id [getRoot, getRoot]
    [(.zero, getRoot.text), (.zero, getRoot.text)] (by decide)).2 (by decide)

/-- A request cut behind its request line is answered with a 400, two requests in one read are
    answered once, and a request in a read of its own is dispatched without the name of its host,
    though the handler keeps the connection alive. -/
theorem cut_or_joined_or_shortened :
    getRoot.text = bytes "GET / HTTP/1.1" ++ crlf ++ (bytes "Host: " ++ crlf ++ crlf) ∧
    getHost.text = bytes "GET / HTTP/1.1" ++ crlf ++ (bytes "Host: a" ++ crlf ++ crlf) ∧
    ¬ (HttpSession.new.headleReads (fun _ res => res) id
        [(.zero, bytes "GET / HTTP/1.1" ++ crlf), (.zero, bytes "Host: " ++ crlf ++ crlf)]).Serves
          [getRoot] ∧
    ¬ (HttpSession.new.headleReads (fun _ res => res) id
        [(.zero, getRoot.text ++ getRoot.text)]).Serves [getRoot, getRoot] ∧
    ¬ (HttpSession.new.headleReads (fun _ res => res) id
        [(.zero, getHost.text)]).Serves [getHost] := by
  refine ⟨by decide, by decide, fun h => absurd h.2 (by decide),
    fun h => absurd h.1.length_eq (by decide), fun h => ?_⟩
  have hone : (HttpSession.new.headleReads (fun _ res => res) id
      [(.zero, getHost.text)]).dispatched
        = [{ HttpRequest.new with
              method := .GET
              url := bytes "/"
              state := .down
              headers := [(bytes "Host", [])] }] := by
    decide +kernel
  have hreceived := h.1
  rw [hone, List.forall₂_cons] at hreceived
  have hhost := hreceived.1.headers (bytes "Host")
  exact absurd hhost (by decide)

end HttpSession
