import Muduo.Net.BufferedConnection
import Muduo.Net.Proofs.Buffer
import Muduo.Net.Proofs.TcpConnection

set_option autoImplicit false

/-! # Streams through the buffers of a connection

A connection on its buffers does what the connection on queues of bytes does, as long as it stays
inside of its vectors. What is proved of runs on the loop thread over queues so holds over buffers,
and the incoming bytes go through unchanged. -/

namespace BufferedConnection

open TcpConnection (Effect)

variable {c : BufferedConnection} {r : BufferedConnection × List Effect} {data : Bytes}
variable {w : WriteResult}

/-! ## The connection on queues -/

/-- The connection with the bytes of `OutputBuffer_` for the buffer. -/
def queue (c : BufferedConnection) : TcpConnection where
  state := c.state
  channel := c.channel
  outputBuffer := c.outputBuffer.readable
  highWaterMark := c.highWaterMark
  connectionCallback := c.connectionCallback
  writeCompleteCallback := c.writeCompleteCallback
  closeCallback := c.closeCallback
  highWaterMarkCallback := c.highWaterMarkCallback

theorem queue_connectEstablished (fd : Nat) (connection writeComplete close highWaterMark : Bool) :
    (new fd connection writeComplete close highWaterMark).connectEstablished.1.queue
      = (TcpConnection.new fd connection writeComplete close highWaterMark).connectEstablished.1 :=
  rfl

theorem writeDirect_queue (h : c.outputBuffer.InRange) :
    c.writeDirect data w = c.queue.writeDirect data w := by
  have hlen : c.queue.outputBuffer.length = c.outputBuffer.readableBytes := h.length_readable
  unfold writeDirect TcpConnection.writeDirect
  rw [hlen]
  rfl

/-- The result of a function on the buffers is the result of the function on queues. -/
structure Matches (c : BufferedConnection) (r : BufferedConnection × List Effect)
    (q : TcpConnection × List Effect) : Prop where
  conn : r.1.queue = q.1
  effects : r.2 = q.2
  input : r.1.inputBuffer = c.inputBuffer
  output : r.1.outputBuffer.InRange

theorem sendInLoop_matches (h : c.outputBuffer.InRange) (hsend : c.sendInLoop data w = some r) :
    c.Matches r (c.queue.sendInLoop data w) := by
  simp only [sendInLoop, writeDirect_queue h] at hsend
  simp only [TcpConnection.sendInLoop]
  split at hsend
  · rename_i hmore
    obtain ⟨outputBuffer, happend, rfl⟩ := Option.map_eq_some_iff.1 hsend
    obtain ⟨hin, hread⟩ := Buffer.append_inv h happend
    have hlen : c.queue.outputBuffer.length = c.outputBuffer.readableBytes := h.length_readable
    rw [if_pos hmore, hlen]
    have hwriting : c.queue.channel.isWriting = c.channel.isWriting := rfl
    simp only [hwriting]
    -- the channel is told once, whichever of the two buffers it is
    cases c.channel.isWriting with
    | true => exact ⟨by simp [queue, hread], rfl, rfl, hin⟩
    | false =>
        exact ⟨by simp [queue, onChannel, TcpConnection.onChannel, hread],
          by simp [queue, onChannel, TcpConnection.onChannel], rfl, hin⟩
  · rename_i hdone
    obtain rfl := Option.some.inj hsend
    rw [if_neg hdone]
    exact ⟨rfl, rfl, rfl, h⟩

/-- The bytes of `data` that the direct `::write` leaves for `OutputBuffer_`. -/
def remaining (c : BufferedConnection) (data : Bytes) (w : WriteResult) : Nat :=
  if !c.channel.isWriting && c.outputBuffer.readableBytes == 0 then
    match w with
    | .room n => data.length - n
    | .error errno => if errno = .epipe ∨ errno = .econnreset then 0 else data.length
  else data.length

theorem remaining_eq (c : BufferedConnection) (data : Bytes) (w : WriteResult) :
    c.remaining data w
      = if (c.writeDirect data w).2.1 then 0 else data.length - (c.writeDirect data w).1 := by
  unfold remaining writeDirect
  split
  · cases w with
    | room n =>
        simp only [Bool.false_eq_true, if_false]
        omega
    | error errno => simp only [decide_eq_true_eq, Nat.sub_zero]
  · simp only [Bool.false_eq_true, if_false, Nat.sub_zero]

/-- `SendInLoop` stays inside of the vector exactly when it appends what it has room for. -/
theorem sendInLoop_isSome_iff (h : c.outputBuffer.InRange) (data : Bytes) (w : WriteResult) :
    (c.sendInLoop data w).isSome ↔ c.outputBuffer.GrowsSafely (c.remaining data w) := by
  have hsmall : c.outputBuffer.GrowsSafely 0 := fun hroom => absurd hroom (Nat.not_lt_zero _)
  rw [remaining_eq]
  unfold sendInLoop
  cases herr : (c.writeDirect data w).2.1 with
  | true => simp [herr, hsmall]
  | false =>
      by_cases hmore : data.length - (c.writeDirect data w).1 > 0
      · simp only [herr, Bool.not_false, hmore, and_self, if_true, Option.isSome_map,
          Buffer.isSome_append_iff h, List.length_drop, Bool.false_eq_true, if_false]
      · have hnone : data.length - (c.writeDirect data w).1 = 0 := by omega
        simp [herr, hnone, hsmall]

theorem handleWrite_matches (h : c.outputBuffer.InRange) :
    c.Matches (c.handleWrite w) (c.queue.handleWrite w) := by
  have hwriting : c.queue.channel.isWriting = c.channel.isWriting := rfl
  have hpending : c.queue.outputBuffer = c.outputBuffer.readable := rfl
  simp only [handleWrite, TcpConnection.handleWrite, hwriting, hpending, h.length_readable]
  split
  · cases w with
    | error errno => exact ⟨rfl, rfl, rfl, h⟩
    | room room =>
        by_cases hsome : min room c.outputBuffer.readableBytes > 0
        · have hrest := Buffer.inRange_retrieve h (min room c.outputBuffer.readableBytes)
          have hread := Buffer.readable_retrieve h (min room c.outputBuffer.readableBytes)
          simp only [if_pos hsome, ← hread, hrest.length_readable]
          split
          · exact ⟨rfl, rfl, rfl, hrest⟩
          · exact ⟨rfl, rfl, rfl, hrest⟩
        · simp only [if_neg hsome]
          exact ⟨rfl, rfl, rfl, h⟩
  · exact ⟨rfl, rfl, rfl, h⟩

theorem send_matches (h : c.outputBuffer.InRange) (hsend : c.send data w = some r) :
    c.Matches r (c.queue.send data w) := by
  unfold send at hsend
  by_cases hstate : c.state = .connected
  · have hqueue : c.queue.state = .connected := hstate
    rw [if_pos hstate] at hsend
    rw [TcpConnection.send, if_pos hqueue]
    exact sendInLoop_matches h hsend
  · have hqueue : ¬ c.queue.state = .connected := hstate
    rw [if_neg hstate] at hsend
    obtain rfl := Option.some.inj hsend
    rw [TcpConnection.send, if_neg hqueue]
    exact ⟨rfl, rfl, rfl, h⟩

theorem shutdown_matches (h : c.outputBuffer.InRange) : c.Matches c.shutdown c.queue.shutdown := by
  unfold shutdown TcpConnection.shutdown
  by_cases hstate : c.state = .connected
  · have hqueue : c.queue.state = .connected := hstate
    rw [if_pos hstate, if_pos hqueue]
    exact ⟨rfl, rfl, rfl, h⟩
  · have hqueue : ¬ c.queue.state = .connected := hstate
    rw [if_neg hstate, if_neg hqueue]
    exact ⟨rfl, rfl, rfl, h⟩

/-- Only what `SendInLoop` appends can leave the vector. -/
theorem send_isSome_iff (h : c.outputBuffer.InRange) (data : Bytes) (w : WriteResult) :
    (c.send data w).isSome ↔
      (c.state = .connected → c.outputBuffer.GrowsSafely (c.remaining data w)) := by
  unfold send
  split
  · rename_i hstate
    rw [sendInLoop_isSome_iff h]
    exact ⟨fun hgrow _ => hgrow, fun hgrow => hgrow hstate⟩
  · rename_i hstate
    exact ⟨fun _ hup => absurd hup hstate, fun _ => rfl⟩

theorem handleWrite_of_idle (h : c.channel.isWriting = false) : c.handleWrite w = (c, []) := by
  simp [handleWrite, h]

theorem shutdown_disconnected (c : BufferedConnection) :
    c.shutdown.1.state = .disconnected ↔ c.state = .disconnected := by
  unfold shutdown
  split
  · rename_i hstate
    simp [hstate]
  · rfl

def Call.Benign : Call → Prop
  | .send _ w => w.Benign
  | .sendInput w => w.Benign
  | .shutdown => True
  | .retrieve _ => True

instance : DecidablePred Call.Benign := fun call => by
  cases call <;> unfold Call.Benign <;> infer_instance

end BufferedConnection

namespace Exchange

open BufferedConnection TcpConnection

variable {s t : Exchange} {a : Action} {w : WriteResult} {as : List Action}

/-- No write fails with `EPIPE` or `ECONNRESET`. -/
def BenignWrites (_ : Exchange) : Action → Prop
  | .handleEvent _ _ calls w => (∀ call ∈ calls, call.Benign) ∧ w.Benign
  | .call call => call.Benign

instance (s : Exchange) : DecidablePred (BenignWrites s) := fun a => by
  cases a <;> unfold BenignWrites <;> infer_instance

/-! ## What the runs keep -/

/-- The outgoing side of the connection, on queues. -/
def onLoop (s : Exchange) : OnLoop := ⟨s.conn.queue, s.trace, s.passed⟩

/-- The incoming side is as it was. -/
def SameInput (s t : Exchange) : Prop :=
  t.conn.inputBuffer = s.conn.inputBuffer ∧ t.retrieved = s.retrieved ∧ t.received = s.received

/-- The calls on the outgoing side are those on queues. -/
theorem send_onLoop {data : Bytes} (h : s.conn.outputBuffer.InRange)
    (hsend : s.send data w = some t) :
    s.onLoop.step (.send data w) = t.onLoop ∧ t.conn.outputBuffer.InRange ∧
      t.conn.state = s.conn.state ∧ s.SameInput t := by
  obtain ⟨r, hr, rfl⟩ := Option.map_eq_some_iff.1 hsend
  have hmatches := send_matches h hr
  refine ⟨?_, hmatches.output, (congrArg TcpConnection.state hmatches.conn).trans send_state,
    hmatches.input, rfl, rfl⟩
  simp only [OnLoop.step, onLoop, OnLoop.perform, perform, hmatches.conn, hmatches.effects]
  rfl

theorem shutdown_onLoop (h : s.conn.outputBuffer.InRange) :
    s.onLoop.step .shutdown = s.shutdown.onLoop ∧ s.shutdown.conn.outputBuffer.InRange ∧
      (s.shutdown.conn.state = .disconnected ↔ s.conn.state = .disconnected) ∧
      s.SameInput s.shutdown := by
  have hmatches := shutdown_matches h
  refine ⟨?_, hmatches.output, shutdown_disconnected s.conn, hmatches.input, rfl, rfl⟩
  simp only [OnLoop.step, onLoop, OnLoop.perform, Exchange.shutdown, perform, hmatches.conn,
    hmatches.effects]

theorem handleWrite_onLoop (h : s.conn.outputBuffer.InRange) :
    s.onLoop.step (.handleWrite w) = (s.handleWrite w).onLoop ∧
      (s.handleWrite w).conn.outputBuffer.InRange ∧
      (s.handleWrite w).conn.state = s.conn.state ∧ s.SameInput (s.handleWrite w) := by
  have hmatches := handleWrite_matches (w := w) h
  refine ⟨?_, hmatches.output,
    (congrArg TcpConnection.state hmatches.conn).trans handleWrite_state, hmatches.input, rfl, rfl⟩
  simp only [OnLoop.step, onLoop, OnLoop.perform, Exchange.handleWrite, perform, hmatches.conn,
    hmatches.effects]

/-- The outgoing side has had a run on queues. -/
def Follows (s : Exchange) : Prop :=
  ∃ as, OnLoop.machine.Reaches OnLoop.BenignWrites as s.onLoop

/-- The buffers are in range, and no byte is lost, repeated or moved on either side. -/
structure Sound (s : Exchange) : Prop where
  input : s.conn.inputBuffer.InRange
  output : s.conn.outputBuffer.InRange
  incoming : s.retrieved ++ s.conn.inputBuffer.readable = s.received
  outgoing : written s.trace ++ s.conn.outputBuffer.readable = s.passed
  up : s.conn.state ≠ .disconnected → s.Follows
  down : s.conn.state = .disconnected → s.conn.channel.isWriting = false

theorem Follows.step {a : OnLoop.Action} (h : s.Follows) (hok : OnLoop.BenignWrites s.onLoop a)
    (hstep : s.onLoop.step a = t.onLoop) : t.Follows := by
  obtain ⟨as, run⟩ := h
  exact ⟨_, run.step hok (congrArg some hstep)⟩

theorem Follows.stream (h : s.Follows) :
    written s.trace ++ s.conn.outputBuffer.readable = s.passed := by
  obtain ⟨as, run⟩ := h
  exact (OnLoop.inv_of_reaches run).stream

/-- A step of the outgoing side. -/
theorem Sound.follow {a : OnLoop.Action} (h : s.Sound) (hup : s.conn.state ≠ .disconnected)
    (hok : OnLoop.BenignWrites s.onLoop a) (hstep : s.onLoop.step a = t.onLoop)
    (hstate : t.conn.state ≠ .disconnected) (houtput : t.conn.outputBuffer.InRange)
    (hframe : s.SameInput t) : t.Sound := by
  obtain ⟨hinput, hretrieved, hreceived⟩ := hframe
  have hfollows : t.Follows := (h.up hup).step hok hstep
  refine ⟨hinput ▸ h.input, houtput, ?_, hfollows.stream, fun _ => hfollows,
    fun hdown => absurd hdown hstate⟩
  rw [hretrieved, hinput, hreceived]
  exact h.incoming

/-- A step of the incoming side. -/
theorem Sound.receive {b : Buffer} {received retrieved : Bytes} (h : s.Sound) (hb : b.InRange)
    (hincoming : retrieved ++ b.readable = received) :
    Sound { s with conn := { s.conn with inputBuffer := b }, received, retrieved } :=
  ⟨hb, h.output, hincoming, h.outgoing, h.up, h.down⟩

/-! ## The functions -/

theorem Sound.send {data : Bytes} (h : s.Sound) (hw : w.Benign) (hsend : s.send data w = some t) :
    t.Sound := by
  obtain ⟨hstep, houtput, hstate, hframe⟩ := send_onLoop h.output hsend
  by_cases hup : s.conn.state = .disconnected
  · have hsame : s.send data w = some s := by
      simp [Exchange.send, BufferedConnection.send, hup, perform]
    obtain rfl := Option.some.inj (hsame.symm.trans hsend)
    exact h
  · exact h.follow (a := .send data w) hup hw hstep (hstate ▸ hup) houtput hframe

theorem Sound.retrieveAll (h : s.Sound) : s.retrieveAll.Sound := by
  refine h.receive (Buffer.inRange_retrieveAll h.input) ?_
  rw [Buffer.readable_retrieveAll, List.append_nil]
  exact h.incoming

theorem Sound.retrieve (h : s.Sound) (len : Nat) : (s.retrieve len).Sound := by
  refine h.receive (Buffer.inRange_retrieve h.input len) ?_
  rw [Buffer.readable_retrieve h.input, List.append_assoc, List.take_append_drop]
  exact h.incoming

theorem Sound.sendInput (h : s.Sound) (hw : w.Benign) (hsend : s.sendInput w = some t) :
    t.Sound := by
  unfold Exchange.sendInput at hsend
  split at hsend
  · obtain ⟨u, hu, rfl⟩ := Option.map_eq_some_iff.1 hsend
    exact (h.send hw hu).retrieveAll
  · obtain rfl := Option.some.inj hsend
    exact h

theorem Sound.shutdown (h : s.Sound) : s.shutdown.Sound := by
  by_cases hup : s.conn.state = .disconnected
  · have hsame : s.shutdown = s := by
      simp [Exchange.shutdown, BufferedConnection.shutdown, hup, perform]
    exact hsame.symm ▸ h
  · obtain ⟨hstep, houtput, hstate, hframe⟩ := shutdown_onLoop h.output
    exact h.follow (a := .shutdown) hup trivial hstep (mt hstate.1 hup) houtput hframe

theorem Sound.call {call : Call} (h : s.Sound) (hw : call.Benign) (hcall : s.call call = some t) :
    t.Sound := by
  cases call with
  | send data w => exact h.send hw hcall
  | sendInput w => exact h.sendInput hw hcall
  | shutdown =>
      obtain rfl := Option.some.inj hcall
      exact h.shutdown
  | retrieve len =>
      obtain rfl := Option.some.inj hcall
      exact h.retrieve len

theorem Sound.callAll {calls : List Call} (h : s.Sound) (hw : ∀ call ∈ calls, call.Benign)
    (hcalls : s.callAll calls = some t) : t.Sound := by
  induction calls generalizing s with
  | nil =>
      obtain rfl := Option.some.inj hcalls
      exact h
  | cons call calls ih =>
      obtain ⟨u, hu, hrest⟩ := Option.bind_eq_some_iff.1 hcalls
      exact ih (h.call (hw call List.mem_cons_self) hu)
        (fun call hmem => hw call (List.mem_cons_of_mem _ hmem)) hrest

theorem Sound.handleWrite (h : s.Sound) (hw : w.Benign) : (s.handleWrite w).Sound := by
  by_cases hup : s.conn.state = .disconnected
  · -- the channel is disabled, and whatever is in `OutputBuffer_` stays there
    have hsame : s.handleWrite w = s := by
      simp [Exchange.handleWrite, handleWrite_of_idle (h.down hup), perform]
    exact hsame.symm ▸ h
  · obtain ⟨hstep, houtput, hstate, hframe⟩ := handleWrite_onLoop (w := w) h.output
    exact h.follow (a := .handleWrite w) hup hw hstep (hstate ▸ hup) houtput hframe

/-- Nothing is written in `HandleClose`, and nothing can be written behind it. -/
theorem Sound.handleClose (h : s.Sound) : (s.perform s.conn.handleClose).Sound where
  input := h.input
  output := h.output
  incoming := h.incoming
  outgoing := by
    have hnone : written s.conn.handleClose.2 = [] := written_handleClose s.conn.queue
    simp only [perform, written_append, hnone, List.append_nil]
    exact h.outgoing
  up hup := absurd rfl hup
  down _ := by
    have hevents : s.conn.handleClose.1.channel.events = .none := handleClose_events s.conn.queue
    simp only [perform, Channel.isWriting, hevents, Events.none]

theorem Sound.readFromFd {r : Buffer.Readv} {n : Int} {err : Option Nat} {b : Buffer} (h : s.Sound)
    (hread : s.conn.inputBuffer.readFromFd r = some (n, err, b)) :
    Sound { s with
      conn := { s.conn with inputBuffer := b }
      received := s.received ++ r.received } := by
  obtain ⟨hin, hreadable⟩ := Buffer.readFromFd_inv h.input hread
  refine h.receive hin ?_
  rw [hreadable, ← List.append_assoc, h.incoming]

theorem Sound.headleRead {r : Buffer.Readv} {calls : List Call} (h : s.Sound)
    (hw : ∀ call ∈ calls, call.Benign) (hread : s.headleRead r calls = some t) : t.Sound := by
  obtain ⟨⟨n, err, b⟩, hb, hrest⟩ := Option.bind_eq_some_iff.1 hread
  have hsound := h.readFromFd hb
  cases r with
  | error errno =>
      obtain rfl := Option.some.inj hrest
      simpa [Buffer.Readv.received] using hsound
  | ok data =>
      simp only at hrest
      split at hrest
      · exact hsound.callAll hw hrest
      · exact hsound.handleClose.callAll hw hrest

theorem Sound.step (h : s.Sound) (hok : BenignWrites s a) (hstep : s.step a = some t) :
    t.Sound := by
  cases a with
  | handleEvent revents r calls w =>
      obtain ⟨u, hu, rfl⟩ := Option.map_eq_some_iff.1 hstep
      have hread : u.Sound := by
        split at hu
        · exact h.headleRead hok.1 hu
        · obtain rfl := Option.some.inj hu
          exact h
      split
      · exact hread.handleWrite hok.2
      · exact hread
  | call call => exact h.call hok hstep

theorem Sound.of_init (h : machine.init s) : s.Sound := by
  obtain ⟨fd, connection, writeComplete, close, highWaterMark, rfl⟩ := h
  have hqueue := queue_connectEstablished fd connection writeComplete close highWaterMark
  refine ⟨Buffer.inRange_new _, Buffer.inRange_new _, rfl, rfl, fun _ => ⟨[], .init ?_⟩, ?_⟩
  · exact ⟨⟨fd, connection, writeComplete, close, highWaterMark, hqueue⟩, rfl, rfl⟩
  · exact fun hdown => absurd hdown (by
      simp [BufferedConnection.connectEstablished, BufferedConnection.onChannel])

theorem sound_of_reaches (run : machine.Reaches BenignWrites as s) : s.Sound :=
  run.invariant (fun _ => Sound.of_init) fun _ _ _ h hok hstep => h.step hok hstep

/-- As long as a connection stays inside of its vectors: the bytes that `readv` delivered are those
    taken out of `InputBuffer_` and those in it, the data passed to `send` are the bytes written and
    those in `OutputBuffer_`, and until it is `kDisconnected` its outgoing side has had a run of the
    connection on queues. -/
theorem both_streams (run : machine.Reaches BenignWrites as s) :
    s.retrieved ++ s.conn.inputBuffer.readable = s.received ∧
    written s.trace ++ s.conn.outputBuffer.readable = s.passed ∧
    (s.conn.state ≠ .disconnected → s.Follows) := by
  have h := sound_of_reaches run
  exact ⟨h.incoming, h.outgoing, h.up⟩

/-- A message that is sent back through a short write, and another one. -/
def sentBack : List Action :=
  [.handleEvent ⟨true, false, false, false, false⟩ (.ok (bytes "hello"))
      [.sendInput (.room 2)] (.room 0),
    .handleEvent ⟨true, false, true, false, false⟩ (.ok (bytes " world"))
      [.sendInput (.error .eagain)] (.room 100)]

theorem both_streams_sentBack :
    ∃ s, machine.Reaches BenignWrites sentBack s ∧ s.received = bytes "hello world" ∧
      s.retrieved ++ s.conn.inputBuffer.readable = s.received ∧
      written s.trace ++ s.conn.outputBuffer.readable = s.passed := by
  obtain ⟨s, run, hreceived⟩ := Machine.exists_reaches_of_exec machine BenignWrites
    ⟨(BufferedConnection.new 7 true true true true).connectEstablished.1, [], [], [], []⟩ sentBack
    (fun s => s.received = bytes "hello world") ⟨7, true, true, true, true, rfl⟩
    (by decide +kernel)
  obtain ⟨hincoming, houtgoing, -⟩ := both_streams run
  exact ⟨s, run, hreceived, hincoming, houtgoing⟩

/-! ## Which events close a connection -/

/-- `POLLIN` or `POLLPRI` is set, and `readv` answers 0. -/
def Closes : Action → Prop
  | .handleEvent revents r _ _ => (revents.pollIn || revents.pollPri) = true ∧ r = .ok []
  | .call _ => False

theorem sendInLoop_same {c : BufferedConnection} {data : Bytes}
    {r : BufferedConnection × List Effect} (hsend : c.sendInLoop data w = some r) :
    r.1.state = c.state := by
  simp only [BufferedConnection.sendInLoop] at hsend
  split at hsend
  · obtain ⟨b, -, rfl⟩ := Option.map_eq_some_iff.1 hsend
    dsimp only
    split <;> rfl
  · obtain rfl := Option.some.inj hsend
    rfl

theorem handleWrite_same (c : BufferedConnection) (w : WriteResult) :
    (c.handleWrite w).1.state = c.state := by
  unfold BufferedConnection.handleWrite
  split
  · cases w with
    | error errno => rfl
    | room room =>
        dsimp only
        split
        · split <;> rfl
        · rfl
  · rfl

theorem send_disconnected {data : Bytes} (hsend : s.send data w = some t) :
    t.conn.state = .disconnected ↔ s.conn.state = .disconnected := by
  obtain ⟨r, hr, rfl⟩ := Option.map_eq_some_iff.1 hsend
  have hsame : r.1.state = s.conn.state := by
    unfold BufferedConnection.send at hr
    split at hr
    · exact sendInLoop_same hr
    · rw [← Option.some.inj hr]
  exact iff_of_eq (congrArg (· = State.disconnected) hsame)

theorem call_disconnected {call : Call} (hcall : s.call call = some t) :
    t.conn.state = .disconnected ↔ s.conn.state = .disconnected := by
  cases call with
  | send data w => exact send_disconnected hcall
  | sendInput w =>
      simp only [Exchange.call, Exchange.sendInput] at hcall
      split at hcall
      · obtain ⟨u, hu, rfl⟩ := Option.map_eq_some_iff.1 hcall
        have hsame := send_disconnected hu
        exact hsame
      · rw [Option.some.inj hcall]
  | shutdown =>
      obtain rfl := Option.some.inj hcall
      exact shutdown_disconnected s.conn
  | retrieve len =>
      obtain rfl := Option.some.inj hcall
      rfl

theorem callAll_disconnected {calls : List Call} (hcalls : s.callAll calls = some t) :
    t.conn.state = .disconnected ↔ s.conn.state = .disconnected := by
  induction calls generalizing s with
  | nil => rw [Option.some.inj hcalls]
  | cons call calls ih =>
      obtain ⟨u, hu, hrest⟩ := Option.bind_eq_some_iff.1 hcalls
      exact (ih hrest).trans (call_disconnected hu)

theorem headleRead_disconnected {r : Buffer.Readv} {calls : List Call}
    (hread : s.headleRead r calls = some t) :
    t.conn.state = .disconnected ↔ s.conn.state = .disconnected ∨ r = .ok [] := by
  obtain ⟨⟨n, err, b⟩, hb, hrest⟩ := Option.bind_eq_some_iff.1 hread
  cases r with
  | error errno =>
      obtain rfl := Option.some.inj hrest
      simp
  | ok data =>
      have hn := Buffer.readFromFd_length hb
      simp only at hrest
      split at hrest
      · rename_i hpos
        have hdata : data ≠ [] := by
          rintro rfl
          exact absurd hpos (by simp [hn])
        simpa [hdata] using callAll_disconnected hrest
      · rename_i hnone
        have hdata : data = [] := by
          refine List.length_eq_zero_iff.1 ?_
          omega
        exact (callAll_disconnected hrest).trans
          ⟨fun _ => Or.inr (by rw [hdata]), fun _ => rfl⟩

theorem step_disconnected (hstep : s.step a = some t) :
    t.conn.state = .disconnected ↔ s.conn.state = .disconnected ∨ Closes a := by
  cases a with
  | handleEvent revents r calls w =>
      obtain ⟨u, hu, rfl⟩ := Option.map_eq_some_iff.1 hstep
      have hwrite : ((if revents.pollOut = true then u.handleWrite w else u).conn.state
          = .disconnected) ↔ u.conn.state = .disconnected := by
        split
        · rw [Exchange.handleWrite, perform, handleWrite_same]
        · rfl
      rw [hwrite]
      split at hu
      · rename_i hread
        rw [headleRead_disconnected hu]
        simp [Closes, hread]
      · rename_i hread
        obtain rfl := Option.some.inj hu
        simp [Closes, hread]
  | call call =>
      rw [call_disconnected hstep]
      simp [Closes]

/-- In every run of events and of calls on the loop thread that stays inside of the vectors,
    whatever the kernel answers: a connection is `kDisconnected` if and only if an event with
    `POLLIN` or `POLLPRI` came whose `readv` answered 0. An event with `POLLHUP` or `POLLERR` alone,
    and a failing read or write, close nothing. -/
theorem disconnected_iff (run : machine.Reaches Machine.anyStep as s) :
    s.conn.state = .disconnected ↔ ∃ a ∈ as, Closes a := by
  refine run.history (I := fun as s => s.conn.state = .disconnected ↔ ∃ a ∈ as, Closes a) ?_ ?_
  · rintro s ⟨fd, connection, writeComplete, close, highWaterMark, rfl⟩
    simp [BufferedConnection.connectEstablished, BufferedConnection.onChannel]
  · intro as s a t ih _ hstep
    rw [step_disconnected hstep, ih]
    simp [or_and_right, exists_or]

/-- An error and a hang-up without data, and then the end of the stream. -/
def peerCloses : List Action :=
  [.handleEvent ⟨false, false, false, true, true⟩ (.ok []) [] (.room 0),
    .handleEvent ⟨true, false, false, false, true⟩ (.error 104) [] (.room 0),
    .handleEvent ⟨true, false, false, false, true⟩ (.ok []) [.shutdown] (.room 0)]

theorem disconnected_iff_peerCloses :
    ∃ s, machine.Reaches Machine.anyStep peerCloses s ∧ s.conn.state = .disconnected ∧
      ∃ t, machine.Reaches Machine.anyStep (peerCloses.take 2) t ∧
        t.conn.state ≠ .disconnected := by
  let start : Exchange :=
    ⟨(BufferedConnection.new 7 true true true true).connectEstablished.1, [], [], [], []⟩
  have hstart : machine.init start := ⟨7, true, true, true, true, rfl⟩
  obtain ⟨s, run, -⟩ := Machine.exists_reaches_of_exec machine Machine.anyStep start peerCloses
    (fun _ => True) hstart (by decide +kernel)
  obtain ⟨t, run', -⟩ := Machine.exists_reaches_of_exec machine Machine.anyStep start
    (peerCloses.take 2) (fun _ => True) hstart (by decide +kernel)
  refine ⟨s, run, (disconnected_iff run).2 ?_, t, run', fun h => ?_⟩
  · exact ⟨_, List.getLast_mem (by decide), rfl, rfl⟩
  · obtain ⟨a, ha, hcloses⟩ := (disconnected_iff run').1 h
    simp only [peerCloses, List.take_succ_cons, List.take_zero, List.mem_cons, List.not_mem_nil,
      or_false] at ha
    rcases ha with rfl | rfl
    · exact absurd hcloses.1 (by decide)
    · exact absurd hcloses.2 (by simp)

end Exchange
