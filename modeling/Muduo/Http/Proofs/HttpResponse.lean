import Mathlib.Data.List.Nodup
import Muduo.Http.HttpResponse
import Muduo.Http.Proofs.HeaderValues
import Muduo.Http.WireRequest
import Muduo.Lib.Decimal

set_option autoImplicit false

/-! # How a response is framed

`response` sets `Content-Length` itself, whatever was written under that key before, so the headers
always say how long the body is. `decode` is a client: it splits what it receives at the blank line,
at the line breaks and at the first `": "` of a line. -/

/-! ## Header maps -/

namespace HeaderMap

variable {m : HeaderMap} {k v : Bytes}

theorem keys_set (m : HeaderMap) (k v : Bytes) :
    (m.set k v).map Prod.fst
      = if k ∈ m.map Prod.fst then m.map Prod.fst else m.map Prod.fst ++ [k] := by
  induction m with
  | nil => simp [set]
  | cons entry rest ih =>
      obtain ⟨k', v'⟩ := entry
      simp only [set]
      split
      · rename_i hk
        simp [hk]
      · rename_i hk
        simp only [List.map_cons, ih, List.mem_cons, Ne.symm hk, false_or]
        split <;> rfl

/-- An assignment makes no second entry for a key. -/
theorem nodup_set (h : (m.map Prod.fst).Nodup) : ((m.set k v).map Prod.fst).Nodup := by
  rw [keys_set]
  split
  · exact h
  · rename_i hk
    exact h.append (List.nodup_singleton k) (List.disjoint_singleton.2 hk)

/-- The entries for a key: the one that `find` finds. -/
theorem filter_key (h : (m.map Prod.fst).Nodup) (k : Bytes) :
    m.filter (·.1 = k) = ((m.get? k).map (k, ·)).toList := by
  induction m with
  | nil => rfl
  | cons entry rest ih =>
      obtain ⟨k', v'⟩ := entry
      rw [List.map_cons, List.nodup_cons] at h
      simp only [get?]
      split
      · rename_i hk
        subst hk
        have hnone : rest.filter (·.1 = k') = [] := by
          rw [List.filter_eq_nil_iff]
          intro e he hek
          exact h.1 (List.mem_map.2 ⟨e, he, by simpa using hek⟩)
        simp [hnone]
      · rename_i hk
        rw [List.filter_cons_of_neg (by simpa using hk), ih h.2]

/-- In whatever order the entries are visited, each key has its one entry. -/
theorem filter_key_of_perm {fields : List (Bytes × Bytes)} (hperm : fields.Perm m)
    (h : (m.map Prod.fst).Nodup) (k : Bytes) :
    fields.filter (·.1 = k) = ((m.get? k).map (k, ·)).toList := by
  have hfilter := hperm.filter (·.1 = k)
  rw [filter_key h] at hfilter
  cases hget : m.get? k with
  | none => exact List.perm_nil.1 (by simpa [hget] using hfilter)
  | some v => exact List.perm_singleton.1 (by simpa [hget] using hfilter)

end HeaderMap

/-- The version that a text names. -/
def Http.Version.ofText (text : Bytes) : Http.Version :=
  if text = bytes "HTTP/1.0" then .http10
  else if text = bytes "HTTP/1.1" then .http11
  else if text = bytes "HTTP/2.0" then .http20
  else .unknown

namespace HttpResponse

open HttpRequest

/-! ## What was written -/

theorem mem_of_lastValue {fields : List (Bytes × Bytes)} {k v : Bytes}
    (h : lastValue fields k = some v) : (k, v) ∈ fields := by
  rw [lastValue, Option.map_eq_some_iff] at h
  obtain ⟨field, hlast, rfl⟩ := h
  obtain ⟨hmem, hkey⟩ := List.mem_filter.1 (List.mem_of_getLast? hlast)
  rwa [← of_decide_eq_true hkey]

/-- A header that is sent was written. -/
theorem mem_of_filter_key {fields ws : List (Bytes × Bytes)}
    (hkeys : ∀ k, fields.filter (·.1 = k) = ((lastValue ws k).map (k, ·)).toList)
    {f : Bytes × Bytes} (hf : f ∈ fields) : f ∈ ws := by
  have hmem : f ∈ fields.filter (·.1 = f.1) := List.mem_filter.2 ⟨hf, by simp⟩
  rw [hkeys, Option.mem_toList, Option.map_eq_some_iff] at hmem
  obtain ⟨v, hv, heq⟩ := hmem
  exact heq ▸ mem_of_lastValue hv

/-- What a call writes to `headers_`. -/
def Call.written? : Call → Option (Bytes × Bytes)
  | .setHeader k v => some (k, v)
  | .setKeepAlive on => some (kConnection, if on then bytes "Keep-Alive" else bytes "close")
  | .setContentLength len => some (kContentLength, [len.toUInt8])
  | _ => none

/-- What was written to `headers_`, in order, beginning with what the constructor writes. -/
def written (calls : List Call) : List (Bytes × Bytes) :=
  (kConnection, bytes "Keep-Alive") :: calls.filterMap Call.written?

theorem headers_call (res : HttpResponse) (c : Call) :
    (res.call c).headers = match c.written? with
      | some (k, v) => res.headers.set k v
      | none => res.headers := by
  cases c <;> rfl

theorem ofCalls_concat (calls : List Call) (c : Call) :
    ofCalls (calls ++ [c]) = (ofCalls calls).call c := List.foldl_concat ..

theorem written_concat (calls : List Call) (c : Call) :
    written (calls ++ [c]) = written calls ++ c.written?.toList := by
  cases hc : c.written? <;> simp [written, hc]

/-- The map holds what was written last under each key. -/
theorem get?_ofCalls (calls : List Call) (k : Bytes) :
    HeaderMap.get? (ofCalls calls).headers k = lastValue (written calls) k := by
  induction calls using List.reverseRecOn with
  | nil =>
      rw [show written [] = [] ++ [(kConnection, bytes "Keep-Alive")] from rfl, lastValue_concat]
      exact HeaderMap.get?_set [] kConnection (bytes "Keep-Alive") k
  | append_singleton calls c ih =>
      rw [ofCalls_concat, headers_call, written_concat]
      cases c.written? with
      | none => simpa using ih
      | some field =>
          rw [Option.toList_some, lastValue_concat, ← ih]
          exact HeaderMap.get?_set _ field.1 field.2 k

theorem nodup_ofCalls (calls : List Call) : ((ofCalls calls).headers.map Prod.fst).Nodup := by
  induction calls using List.reverseRecOn with
  | nil => exact List.nodup_singleton kConnection
  | append_singleton calls c ih =>
      rw [ofCalls_concat, headers_call]
      split
      · exact HeaderMap.nodup_set ih
      · exact ih

/-! ## The text of a response -/

/-- The version that is sent: `VersionToString` knows no other name for `Unknown`. -/
def sentVersion (res : HttpResponse) : Http.Version :=
  if res.version = .unknown then .http20 else res.version

theorem versionToString_eq (res : HttpResponse) :
    res.versionToString = res.sentVersion.text := by
  unfold versionToString sentVersion
  cases res.version <;> rfl

/-- The status line, without the line break. -/
def statusLine (res : HttpResponse) : Bytes :=
  res.sentVersion.text ++ 32 :: (Decimal.ofInt res.stateCode ++ 32 :: res.stateMessage)

/-- A header as it is sent, without the line break. -/
def fieldText (field : Bytes × Bytes) : Bytes := field.1 ++ (bytes ": " ++ field.2)

/-- What `response` writes for a header map visited in the order of `fields`. -/
def framed (res : HttpResponse) (fields : List (Bytes × Bytes)) : Bytes :=
  res.statusLine ++ crlf ++ fields.flatMap (fun f => fieldText f ++ crlf) ++ crlf ++ res.body

theorem response_snd (iterate : HeaderMap → HeaderMap) (res : HttpResponse) :
    (res.response iterate).2 = res.framed (iterate (res.response iterate).1.headers) := by
  have hcode : bytes (toString res.stateCode) = Decimal.ofInt res.stateCode :=
    Decimal.toString_eq res.stateCode
  simp only [response, framed, statusLine, versionToString_eq, hcode, fieldText]
  simp [bytes, setHeader]

/-- The headers that a response carries: those written, and behind them its length. -/
def sent (calls : List Call) : List (Bytes × Bytes) :=
  written calls ++ [(kContentLength, Decimal.ofNat (ofCalls calls).body.length)]

theorem get?_response (iterate : HeaderMap → HeaderMap) (calls : List Call) (k : Bytes) :
    HeaderMap.get? ((ofCalls calls).response iterate).1.headers k = lastValue (sent calls) k := by
  have hlength : bytes (toString (ofCalls calls).body.length)
      = Decimal.ofNat (ofCalls calls).body.length := by
    rw [← Decimal.ofInt_natCast, ← Decimal.toString_eq]
    rfl
  rw [sent, lastValue_concat, ← get?_ofCalls, ← hlength]
  exact HeaderMap.get?_set _ _ _ k

theorem nodup_response (iterate : HeaderMap → HeaderMap) (calls : List Call) :
    (((ofCalls calls).response iterate).1.headers.map Prod.fst).Nodup :=
  HeaderMap.nodup_set (nodup_ofCalls calls)

/-! ## A client -/

structure Decoded where
  version : Http.Version
  code : Int
  headers : List (Bytes × Bytes)
  body : Bytes
deriving DecidableEq

/-- A line cut at the first `": "`. -/
def splitField (line : Bytes) : Bytes × Bytes :=
  let colon := Delimited.search (bytes ": ") line
  (line.take colon, line.drop (colon + 2))

/-- A status line cut at the blanks. -/
def splitStatus (line : Bytes) : Http.Version × Int :=
  let rest := line.drop (line.idxOf 32 + 1)
  (.ofText (line.take (line.idxOf 32)), Decimal.read (rest.take (rest.idxOf 32)))

/-- A response cut at the first blank line, its head at the line breaks. -/
def decode (out : Bytes) : Decoded :=
  let blank := Delimited.search (crlf ++ crlf) out
  let lines := Delimited.split crlf (out.take blank)
  let status := splitStatus (lines.headD [])
  ⟨status.1, status.2, lines.tail.map splitField, out.drop (blank + 4)⟩

/-- No line break in the head of a response, and no colon in a key. -/
structure IsClean (message : Bytes) (fields : List (Bytes × Bytes)) : Prop where
  message : (13 : Byte) ∉ message ∧ (10 : Byte) ∉ message
  keys : ∀ f ∈ fields, (13 : Byte) ∉ f.1 ∧ (10 : Byte) ∉ f.1 ∧ (58 : Byte) ∉ f.1
  values : ∀ f ∈ fields, (13 : Byte) ∉ f.2 ∧ (10 : Byte) ∉ f.2

theorem ofText_sentVersion (res : HttpResponse) :
    Http.Version.ofText res.sentVersion.text = res.sentVersion := by
  unfold sentVersion
  cases res.version <;> decide

theorem splitStatus_statusLine (res : HttpResponse) :
    splitStatus res.statusLine = (res.sentVersion, res.stateCode) := by
  have hversion : (32 : Byte) ∉ res.sentVersion.text := by
    cases res.sentVersion <;> decide
  have hcode : (32 : Byte) ∉ Decimal.ofInt res.stateCode :=
    Decimal.notMem_ofInt (by decide) (by decide) _
  simp only [splitStatus, statusLine, Delimited.idxOf_append_cons hversion, List.take_left,
    Delimited.drop_append_cons, Delimited.idxOf_append_cons hcode, ofText_sentVersion,
    Decimal.read_ofInt]

theorem splitField_fieldText {field : Bytes × Bytes} (h : (58 : Byte) ∉ field.1) :
    splitField (fieldText field) = field := by
  have hsearch : Delimited.search (bytes ": ") (fieldText field) = field.1.length := by
    rw [fieldText, ← List.append_assoc]
    exact Delimited.search_append (by decide) (Delimited.pair_not_infix_of_notMem h) field.2
  simp only [splitField, hsearch]
  rw [fieldText, List.take_left, ← List.append_assoc, List.drop_left' (by simp [bytes])]

theorem carriageReturn_notMem_statusLine {res : HttpResponse} (h : (13 : Byte) ∉ res.stateMessage) :
    (13 : Byte) ∉ res.statusLine := by
  have hversion : (13 : Byte) ∉ res.sentVersion.text := by
    cases res.sentVersion <;> decide
  have hcode : (13 : Byte) ∉ Decimal.ofInt res.stateCode :=
    Decimal.notMem_ofInt (by decide) (by decide) _
  simp [statusLine, hversion, hcode, h]

/-- The client reads back what was sent. -/
theorem decode_framed {res : HttpResponse} {fields : List (Bytes × Bytes)}
    (hclean : IsClean res.stateMessage fields) :
    decode (res.framed fields) = ⟨res.sentVersion, res.stateCode, fields, res.body⟩ := by
  have hfree : ∀ l ∈ res.statusLine :: fields.map fieldText, (13 : Byte) ∉ l := by
    intro l hl
    rcases List.mem_cons.1 hl with rfl | hl
    · exact carriageReturn_notMem_statusLine hclean.message.1
    · obtain ⟨f, hf, rfl⟩ := List.mem_map.1 hl
      simp [fieldText, bytes, (hclean.keys f hf).1, (hclean.values f hf).1]
  have hfields : ∀ l ∈ fields.map fieldText, l ≠ [] := by
    intro l hl
    obtain ⟨f, -, rfl⟩ := List.mem_map.1 hl
    simp [fieldText, bytes]
  -- the head: the lines with a line break before each but the first
  have hhead : res.framed fields
      = res.statusLine ++ (fields.map fieldText).flatMap (crlf ++ ·)
          ++ (crlf ++ (crlf ++ res.body)) := by
    have hcomm := Delimited.append_flatMap_comm crlf (fields.map fieldText)
    rw [List.flatMap_map] at hcomm
    rw [framed, List.append_assoc res.statusLine crlf, hcomm]
    simp only [List.append_assoc]
  have hblank : Delimited.search (crlf ++ crlf) (res.framed fields)
      = (res.statusLine ++ (fields.map fieldText).flatMap (crlf ++ ·)).length := by
    rw [hhead]
    exact Delimited.search_blank (by decide) hfree hfields res.body
  have hlines : Delimited.split crlf
      (res.statusLine ++ (fields.map fieldText).flatMap (crlf ++ ·))
        = res.statusLine :: fields.map fieldText :=
    Delimited.split_join (by decide) fun l hl => Delimited.pair_not_infix_of_notMem (hfree l hl)
  have hback : (fields.map fieldText).map splitField = fields := by
    rw [List.map_map]
    refine (List.map_congr_left fun f hf => ?_).trans (List.map_id fields)
    exact splitField_fieldText (hclean.keys f hf).2.2
  simp only [decode, hblank]
  rw [hhead, List.take_left, hlines, ← List.append_assoc crlf, ← List.append_assoc,
    List.drop_left' (by rw [List.length_append]; rfl)]
  simp only [List.headD_cons, List.tail_cons, splitStatus_statusLine, hback]

/-- After any calls and for any order of the header map, a response is one status line, one line for
    each key with its last value, among them the length of the body, a blank line and the body. When
    it is clean, a client gets back the version that was sent, the code, the headers and the
    body. -/
theorem response_framed {iterate : HeaderMap → HeaderMap} (hiterate : ∀ m, (iterate m).Perm m)
    (calls : List Call) :
    ∃ fields : List (Bytes × Bytes),
      ((ofCalls calls).response iterate).2 = (ofCalls calls).framed fields ∧
      (∀ k, fields.filter (·.1 = k) = ((lastValue (sent calls) k).map (k, ·)).toList) ∧
      fields.filter (·.1 = kContentLength)
        = [(kContentLength, Decimal.ofNat (ofCalls calls).body.length)] ∧
      (IsClean (ofCalls calls).stateMessage fields →
        decode ((ofCalls calls).response iterate).2
          = ⟨(ofCalls calls).sentVersion, (ofCalls calls).stateCode, fields,
              (ofCalls calls).body⟩) := by
  have hkeys (k : Bytes) := HeaderMap.filter_key_of_perm
    (hiterate ((ofCalls calls).response iterate).1.headers) (nodup_response iterate calls) k
  simp only [get?_response] at hkeys
  have hlength : lastValue (sent calls) kContentLength
      = some (Decimal.ofNat (ofCalls calls).body.length) := by
    rw [sent, lastValue_concat, if_pos rfl]
  have hone := hkeys kContentLength
  rw [hlength] at hone
  refine ⟨_, response_snd iterate _, hkeys, hone, fun hclean => ?_⟩
  rw [response_snd]
  exact decode_framed hclean

/-- Calls of every kind, some of them on the same header. -/
def someCalls : List Call :=
  [.setVersion .http10, .setStateCodeOf .notFound, .setSateMessage (bytes "Not Found"),
    .setHeader (bytes "Host") (bytes "a: b"), .setKeepAlive false, .setContentLength 77,
    .setHeader (bytes "Host") (bytes "c"), .setBody (bytes "x\r\n\r\ny")]

/-- A client reads back the headers that `someCalls` left, in the order in which they were sent. -/
theorem response_framed_someCalls :
    ∃ fields : List (Bytes × Bytes),
      fields.filter (·.1 = bytes "Host") = [(bytes "Host", bytes "c")] ∧
      fields.filter (·.1 = kContentLength) = [(kContentLength, bytes "6")] ∧
      decode ((ofCalls someCalls).response List.reverse).2
        = ⟨.http10, 404, fields, bytes "x\r\n\r\ny"⟩ := by
  obtain ⟨fields, -, hkeys, hlength, hdecode⟩ :=
    @response_framed List.reverse List.reverse_perm someCalls
  refine ⟨fields, (hkeys _).trans (by decide), hlength.trans (by decide), hdecode ?_⟩
  have hall : ∀ f ∈ sent someCalls, ((13 : Byte) ∉ f.1 ∧ (10 : Byte) ∉ f.1 ∧ (58 : Byte) ∉ f.1) ∧
      (13 : Byte) ∉ f.2 ∧ (10 : Byte) ∉ f.2 := by
    decide
  exact ⟨by decide, fun f hf => (hall f (mem_of_filter_key hkeys hf)).1,
    fun f hf => (hall f (mem_of_filter_key hkeys hf)).2⟩

/-- A response of version `Unknown` is sent as one of version 2.0. -/
theorem unknown_version_lost :
    IsClean (ofCalls [.setVersion .unknown]).stateMessage
        ((ofCalls [.setVersion .unknown]).response id).1.headers ∧
      (ofCalls [.setVersion .unknown]).version = .unknown ∧
      ((ofCalls [.setVersion .unknown]).response id).2
        = ((ofCalls [.setVersion .http20]).response id).2 ∧
      (decode ((ofCalls [.setVersion .unknown]).response id).2).version ≠ .unknown := by
  have hall : ∀ f ∈ ((ofCalls [.setVersion .unknown]).response id).1.headers,
      ((13 : Byte) ∉ f.1 ∧ (10 : Byte) ∉ f.1 ∧ (58 : Byte) ∉ f.1) ∧
        (13 : Byte) ∉ f.2 ∧ (10 : Byte) ∉ f.2 := by
    decide
  exact ⟨⟨by decide, fun f hf => (hall f hf).1, fun f hf => (hall f hf).2⟩, rfl, by decide,
    by decide +kernel⟩

end HttpResponse
