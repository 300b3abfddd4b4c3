import Muduo.Http.Proofs.HttpRequest

set_option autoImplicit false

/-! # Parsing chunk by chunk

One request object parses what has been received so far, again and again, while chunks are appended
to the buffer. Where the chunks are cut makes no difference: a line that is not complete waits in
the buffer, a complete one is gone with the fields that it sets, and a request line that is rejected
is read again, over the fields it set the first time. -/

namespace HttpRequest

/-- What `parse` leaves, but for the time at which the request was received. -/
def untimed (result : Bool × HttpRequest × Bytes) : Bool × HttpRequest × Bytes :=
  (result.1, result.2.1.setReceiveTime .zero, result.2.2)

/-! ## Two starting times -/

theorem untimed_setReceiveTime (ok : Bool) (r : HttpRequest) (t : Timestamp) (unread : Bytes) :
    untimed (ok, r.setReceiveTime t, unread) = untimed (ok, r, unread) := rfl

/-- The times at which a request is received do not influence how it is parsed. -/
theorem untimed_parse (r : HttpRequest) (buffer : Bytes) (s t t' : Timestamp) :
    untimed ((r.setReceiveTime s).parse buffer t') = untimed (r.parse buffer t) := by
  induction r, buffer using parse_induction generalizing s with
  | down r buffer hdown =>
      rw [parse_of_down t hdown, parse_of_down t' (r := r.setReceiveTime s) hdown,
        untimed_setReceiveTime]
  | noLine r buffer _ hfree =>
      rw [parse_of_no_line t r hfree, parse_of_no_line t' _ hfree, untimed_setReceiveTime]
  | requestLine r r' line rest hstate hline hok ih =>
      have hok' : (r.setReceiveTime s).parseLine line = (true, r'.setReceiveTime s) := by
        rw [parseLine_setReceiveTime, hok]
      rw [parse_request_line t rest hstate hline hok,
        parse_request_line t' (r := r.setReceiveTime s) rest hstate hline hok']
      exact ih t t'
  | badLine r line rest hstate hline hbad =>
      have hbad' : ((r.setReceiveTime s).parseLine line).1 = false := by
        rw [parseLine_setReceiveTime, hbad]
      rw [parse_bad_line t rest hstate hline hbad,
        parse_bad_line t' (r := r.setReceiveTime s) rest hstate hline hbad',
        parseLine_setReceiveTime, untimed_setReceiveTime]
  | headerLine r line rest hstate hline hcolon ih =>
      rw [parse_header_line t rest hstate hline hcolon,
        parse_header_line t' (r := r.setReceiveTime s) rest hstate hline hcolon]
      exact ih s
  | endLine r line rest hstate hline hcolon =>
      rw [parse_end_line t rest hstate hline hcolon,
        parse_end_line t' (r := r.setReceiveTime s) rest hstate hline hcolon]
      rfl

theorem untimed_parse_time (r : HttpRequest) (buffer : Bytes) (t t' : Timestamp) :
    untimed (r.parse buffer t') = untimed (r.parse buffer t) :=
  untimed_parse r buffer r.receiveTime t t'

/-! ## More bytes -/

/-- Parsing the beginning first and then what is unread with the rest behind it parses it all. -/
theorem untimed_parse_append (r : HttpRequest) (buffer more : Bytes) (s t t' : Timestamp) :
    untimed ((r.parse buffer t).2.1.parse ((r.parse buffer t).2.2 ++ more) t')
      = untimed (r.parse (buffer ++ more) s) := by
  induction r, buffer using parse_induction with
  | down r buffer hdown =>
      rw [parse_of_down t hdown]
      exact untimed_parse_time r _ s t'
  | noLine r buffer _ hfree =>
      rw [parse_of_no_line t r hfree]
      exact untimed_parse_time r _ s t'
  | requestLine r r' line rest hstate hline hok ih =>
      rw [List.append_assoc (line ++ crlf), parse_request_line t _ hstate hline hok,
        parse_request_line s _ hstate hline hok, ih t]
      exact (untimed_parse ((r'.setReceiveTime t).setState .parseHeader) (rest ++ more) s s s).symm
  | badLine r line rest hstate hline hbad =>
      have hagain : ((r.parseLine line).2.parseLine line).1 = false := by
        rw [parseLine_again, hbad]
      rw [parse_bad_line t rest hstate hline hbad, List.append_assoc (line ++ crlf),
        parse_bad_line s _ hstate hline hbad,
        parse_bad_line t' _ ((parseLine_state r line).trans hstate) hline hagain, parseLine_again]
  | headerLine r line rest hstate hline hcolon ih =>
      rw [parse_header_line t rest hstate hline hcolon, List.append_assoc (line ++ crlf),
        parse_header_line s _ hstate hline hcolon]
      exact ih
  | endLine r line rest hstate hline hcolon =>
      rw [parse_end_line t rest hstate hline hcolon, List.append_assoc (line ++ crlf),
        parse_end_line s _ hstate hline hcolon, parse_of_down t' (by rfl)]

/-! ## Chunks -/

/-- The next chunk is appended to the unread bytes, and `parse` is called on the same request. -/
def parseChunk (result : Bool × HttpRequest × Bytes) (chunk : Timestamp × Bytes) :
    Bool × HttpRequest × Bytes :=
  result.2.1.parse (result.2.2 ++ chunk.2) chunk.1

/-- However the bytes are cut into chunks and whenever these arrive, the last call returns the same
    value and leaves the same request and the same unread bytes as one call on all of them. -/
theorem parse_incremental (ok : Bool) (r : HttpRequest) (unread : Bytes)
    {chunks : List (Timestamp × Bytes)} (hne : chunks ≠ []) (t : Timestamp) :
    untimed (chunks.foldl parseChunk (ok, r, unread))
      = untimed (r.parse (unread ++ (chunks.map Prod.snd).flatten) t) := by
  induction chunks generalizing ok r unread with
  | nil => exact absurd rfl hne
  | cons chunk chunks ih =>
      rw [List.foldl_cons, List.map_cons, List.flatten_cons, ← List.append_assoc]
      by_cases hlast : chunks = []
      · subst hlast
        simpa [parseChunk] using untimed_parse_time r (unread ++ chunk.2) t chunk.1
      · rw [parseChunk, ← untimed_parse_append r (unread ++ chunk.2) _ t chunk.1 t]
        exact ih _ _ _ hlast

/-- The line break is cut in two, and the line, which is no request line, is read twice. -/
theorem parse_incremental_badLine :
    untimed ([(.zero, bytes "GET nothing\r"), (.zero, bytes "\n"), (.zero, bytes "GET")].foldl
        parseChunk (true, new, []))
      = untimed (new.parse (bytes "GET nothing\r\nGET") .zero) :=
  parse_incremental true new [] (by simp) .zero

end HttpRequest
