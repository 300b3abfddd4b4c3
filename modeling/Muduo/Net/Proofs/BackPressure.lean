import Muduo.Net.Proofs.BufferedConnection

set_option autoImplicit false

/-! # The notifications of a connection

`WriteCompleteCallback_` is queued where the last pending byte goes out, `HighWaterMarkCallback_`
where the pending bytes reach the mark. Both are raised on two paths, the direct write and the
output buffer. What is shown of the connection on queues carries over to its buffers, as long as
what is appended to `OutputBuffer_` stays inside of the vector. -/

namespace TcpConnection

/-- The argument of a queued `HighWaterMarkCallback_`. -/
def Effect.highWater? : Effect → Option Nat
  | .queueHighWaterMark size => some size
  | _ => none

variable {c : TcpConnection} {data : Bytes} {w : WriteResult}

/-! ## What the functions notify -/

/-- Neither of the two notifications. -/
def Effect.IsPlain (e : Effect) : Prop := e ≠ .queueWriteComplete ∧ e.highWater? = none

theorem isPlain_of_isWrite {e : Effect} (h : e.isWrite = true) : e.IsPlain := by
  cases e <;> simp only [Effect.isWrite, Bool.false_eq_true] at h <;> exact ⟨by simp, rfl⟩

theorem isPlain_onChannel {f : Channel → Channel × List Poller.Effect} :
    ∀ e ∈ (c.onChannel f).2, e.IsPlain := by
  intro e he
  obtain ⟨p, rfl⟩ := mem_onChannel he
  exact ⟨by simp, rfl⟩

theorem notified_of_plain {es : List Effect} (h : ∀ e ∈ es, e.IsPlain) :
    es.count .queueWriteComplete = 0 ∧ es.filterMap Effect.highWater? = [] := by
  refine ⟨List.count_eq_zero.2 fun hmem => (h _ hmem).1 rfl, ?_⟩
  rw [List.filterMap_eq_nil_iff]
  exact fun e he => (h e he).2

/-! ## SendInLoop -/

/-- The direct write takes everything, or less and notifies of nothing. -/
theorem writeDirect_cases (hw : w.Benign) (hdata : data ≠ []) :
    (c.outputBuffer = [] ∧ c.writeDirect data w = (data.length, false,
      .write data :: if c.writeCompleteCallback then [.queueWriteComplete] else [])) ∨
    ∃ n first, n < data.length ∧ (∀ e ∈ first, e.IsPlain) ∧
      c.writeDirect data w = (n, false, first) := by
  have hlength : 0 < data.length := List.length_pos_iff.2 hdata
  by_cases hidle : (!c.channel.isWriting && c.outputBuffer.length == 0) = true
  · simp only [writeDirect, if_pos hidle]
    cases w with
    | room n =>
        by_cases hall : data.length ≤ n
        · left
          simp only [Bool.and_eq_true, beq_iff_eq] at hidle
          exact ⟨List.length_eq_zero_iff.1 hidle.2, by simp [Nat.min_eq_right hall]⟩
        · right
          have hmin : min n data.length = n := by omega
          have hmore : data.length - n ≠ 0 := by omega
          refine ⟨n, [.write (data.take n)], by omega, ?_, by simp [hmin, hmore]⟩
          simpa using isPlain_of_isWrite rfl
    | error errno =>
        right
        have hother : ¬ (errno = .epipe ∨ errno = .econnreset) := by
          simpa [WriteResult.Benign] using hw
        refine ⟨0, [.writeError errno], hlength, ?_, by simp [hother]⟩
        simpa using isPlain_of_isWrite rfl
  · refine Or.inr ⟨0, [], hlength, by simp, ?_⟩
    simp only [writeDirect, if_neg hidle]

/-- What `SendInLoop` queues when `more` bytes join the `pending` ones. -/
def highWater (c : TcpConnection) (pending more : Nat) : List Effect :=
  if pending + more ≥ c.highWaterMark ∧ pending < c.highWaterMark ∧ c.highWaterMarkCallback then
    [.queueHighWaterMark (pending + more)]
  else []

/-- `SendInLoop` writes everything, or keeps the rest. -/
theorem sendInLoop_cases (hw : w.Benign) (hdata : data ≠ []) :
    (c.outputBuffer = [] ∧ c.sendInLoop data w = (c,
      .write data :: if c.writeCompleteCallback then [.queueWriteComplete] else [])) ∨
    ∃ n first last, n < data.length ∧ (∀ e ∈ first, e.IsPlain) ∧ (∀ e ∈ last, e.IsPlain) ∧
      (c.sendInLoop data w).1.outputBuffer = c.outputBuffer ++ data.drop n ∧
      (c.sendInLoop data w).2
        = first ++ c.highWater c.outputBuffer.length (data.length - n) ++ last := by
  obtain ⟨hempty, hdirect⟩ | ⟨n, first, hn, hfirst, hdirect⟩ := writeDirect_cases hw hdata (c := c)
  · exact Or.inl ⟨hempty, by simp [sendInLoop, hdirect]⟩
  · right
    have hmore : 0 < data.length - n := by omega
    have happend : (Effect.append (data.drop n)).IsPlain := ⟨by simp, rfl⟩
    simp only [sendInLoop, hdirect, Bool.not_false, true_and, gt_iff_lt, hmore, if_true]
    split
    · refine ⟨n, first, .append (data.drop n) :: _, hn, hfirst, ?_, rfl, List.append_assoc _ _ _⟩
      exact List.forall_mem_cons.2 ⟨happend, isPlain_onChannel⟩
    · refine ⟨n, first, [.append (data.drop n)], hn, hfirst, by simpa using happend, rfl, ?_⟩
      exact List.append_nil _

/-! ## What the functions notify of -/

/-- What a function has to do that leaves `r` of the connection, where `whole` would be pending had
    it not written: it notifies of a completed write when nothing is pending any more, and of high
    water when the pending bytes have reached the mark. -/
structure Notifies (c : TcpConnection) (whole : Bytes) (r : TcpConnection × List Effect) :
    Prop where
  complete : r.2.count .queueWriteComplete = if r.1.outputBuffer = [] ∧ whole ≠ [] then 1 else 0
  high : r.2.filterMap Effect.highWater?
    = if c.outputBuffer.length < c.highWaterMark ∧ c.highWaterMark ≤ r.1.outputBuffer.length then
        [r.1.outputBuffer.length]
      else []

theorem notifies_of_plain {whole : Bytes} {r : TcpConnection × List Effect}
    (hplain : ∀ e ∈ r.2, e.IsPlain) (hpending : r.1.outputBuffer = [] → whole = [])
    (hless : r.1.outputBuffer.length ≤ c.outputBuffer.length) : c.Notifies whole r where
  complete := by
    rw [(notified_of_plain hplain).1, if_neg fun h => h.2 (hpending h.1)]
  high := by
    rw [(notified_of_plain hplain).2, if_neg]
    omega

theorem sendInLoop_notifies (hw : w.Benign) (hdata : data ≠ [])
    (hcomplete : c.writeCompleteCallback = true) (hhigh : c.highWaterMarkCallback = true) :
    c.Notifies (c.outputBuffer ++ data) (c.sendInLoop data w) := by
  obtain ⟨hempty, h⟩ | ⟨n, first, last, hn, hfirst, hlast, hbuffer, heffects⟩ :=
    sendInLoop_cases hw hdata (c := c)
  · rw [h]
    constructor
    · simp [hcomplete, hempty, hdata]
    · simp only [hcomplete, hempty, if_true, List.length_nil]
      rw [if_neg (by omega)]
      rfl
  · have hrest : data.drop n ≠ [] := by
      rw [ne_eq, List.drop_eq_nil_iff]
      omega
    constructor
    · rw [heffects, hbuffer, if_neg fun h => hrest (List.append_eq_nil_iff.1 h.1).2]
      simp only [List.count_append, (notified_of_plain hfirst).1, (notified_of_plain hlast).1,
        highWater]
      split <;> simp
    · rw [heffects, hbuffer]
      simp only [List.filterMap_append, (notified_of_plain hfirst).2, (notified_of_plain hlast).2,
        highWater, List.length_append, List.length_drop]
      split_ifs with hqueued hcross hcross
      · rfl
      · exact absurd ⟨hqueued.2.1, hqueued.1⟩ hcross
      · exact absurd ⟨hcross.2, hcross.1, hhigh⟩ hqueued
      · rfl

theorem drained_complete (hcomplete : c.writeCompleteCallback = true) :
    ∃ first last, c.drained.2 = first ++ [.queueWriteComplete] ++ last ∧
      (∀ e ∈ first, e.IsPlain) ∧ ∀ e ∈ last, e.IsPlain := by
  refine ⟨(c.onChannel Channel.disableWriting).2,
    if c.state = .disconnecting then (c.onChannel Channel.disableWriting).1.shutdownInLoop else [],
    ?_, isPlain_onChannel, ?_⟩
  · have hset : (c.onChannel Channel.disableWriting).1.writeCompleteCallback = true := hcomplete
    simp only [drained, hset, if_true, onChannel_state]
    rfl
  · intro e he
    split at he
    · rw [eq_of_mem_shutdownInLoop he]
      exact ⟨by simp, rfl⟩
    · exact absurd he (by simp)

theorem handleWrite_notifies (hbalanced : Balanced c)
    (hcomplete : c.writeCompleteCallback = true) :
    c.Notifies c.outputBuffer (c.handleWrite w) := by
  have hpending (h : c.channel.isWriting = true) : c.outputBuffer ≠ [] := hbalanced.1 h
  obtain ⟨hidle, h⟩ | ⟨hwriting, e, hwrite, -, h⟩ | ⟨hwriting, n, hn, h⟩ | ⟨hwriting, -, h⟩ :=
    handleWrite_cases c w <;> rw [h]
  · exact notifies_of_plain (by simp) id (Nat.le_refl _)
  · exact notifies_of_plain (by simpa using isPlain_of_isWrite hwrite) id (Nat.le_refl _)
  · refine notifies_of_plain (by simpa using isPlain_of_isWrite rfl) (fun hnil => ?_) (by simp)
    have := List.drop_eq_nil_iff.1 hnil
    omega
  · obtain ⟨first, last, hdrained, hfirst, hlast⟩ :=
      drained_complete (c := { c with outputBuffer := [] }) hcomplete
    have hfirst' := notified_of_plain hfirst
    have hlast' := notified_of_plain hlast
    rw [hdrained]
    constructor
    · simp [hpending hwriting, hfirst'.1, hlast'.1]
    · have hbelow : ¬ (c.outputBuffer.length < c.highWaterMark ∧ c.highWaterMark ≤ 0) := by omega
      refine Eq.trans ?_ (if_neg hbelow).symm
      simp only [List.filterMap_cons, List.filterMap_append, hfirst'.2, hlast'.2,
        Effect.highWater?]
      rfl

/-! ## Runs on the loop thread -/

namespace OnLoop

variable {s : OnLoop} {a : Action}

/-- The effects of a step. -/
def effects (s : OnLoop) : Action → List Effect
  | .send data w => (s.conn.send data w).2
  | .shutdown => s.conn.shutdown.2
  | .handleWrite w => (s.conn.handleWrite w).2

theorem step_trace (s : OnLoop) (a : Action) : (s.step a).trace = s.trace ++ s.effects a := by
  cases a <;> rfl

/-- Both callbacks are set, what is sent is not empty, and no write fails with `EPIPE` or
    `ECONNRESET`. -/
structure Notifying (s : OnLoop) (a : Action) : Prop where
  writeComplete : s.conn.writeCompleteCallback = true
  highWater : s.conn.highWaterMarkCallback = true
  nonempty : ∀ data w, a = .send data w → data ≠ []
  benign : BenignWrites s a

/-- The bytes pending in the output buffer. -/
def pending (s : OnLoop) : Nat := s.conn.outputBuffer.length

/-- The data that a step passes to a connection in `kConnected`. -/
def passing (s : OnLoop) : Action → Bytes
  | .send data _ => if s.conn.state = .connected then data else []
  | .shutdown => []
  | .handleWrite _ => []

theorem step_passed (s : OnLoop) (a : Action) : (s.step a).passed = s.passed ++ s.passing a := by
  cases a with
  | send data w => rfl
  | shutdown => exact (List.append_nil _).symm
  | handleWrite w => exact (List.append_nil _).symm

theorem step_notifies (h : Inv s) (hok : Notifying s a) :
    s.conn.Notifies (s.conn.outputBuffer ++ s.passing a) ((s.step a).conn, s.effects a) := by
  cases a with
  | send data w =>
      simp only [step, effects, passing, OnLoop.perform, TcpConnection.send]
      split
      · exact sendInLoop_notifies hok.benign (hok.nonempty data w rfl) hok.writeComplete
          hok.highWater
      · exact notifies_of_plain (by simp) (by simp) (Nat.le_refl _)
  | shutdown =>
      have hbuffer : s.conn.shutdown.1.outputBuffer = s.conn.outputBuffer := by
        simp only [TcpConnection.shutdown]
        split <;> rfl
      have hplain : ∀ e ∈ s.conn.shutdown.2, e.IsPlain := by
        intro e he
        simp only [TcpConnection.shutdown] at he
        split at he
        · rw [eq_of_mem_shutdownInLoop he]
          exact ⟨by simp, rfl⟩
        · exact absurd he (by simp)
      refine notifies_of_plain hplain (fun hnil => ?_) (Nat.le_of_eq (congrArg List.length hbuffer))
      rw [passing, List.append_nil, ← hbuffer]
      exact hnil
  | handleWrite w =>
      rw [passing, List.append_nil]
      exact handleWrite_notifies h.balanced hok.writeComplete

theorem Inv.all_written_iff (h : Inv s) (more : Bytes) :
    written s.trace = s.passed ++ more ↔ s.conn.outputBuffer ++ more = [] := by
  rw [← h.stream, List.append_assoc, List.self_eq_append_right]

end OnLoop

end TcpConnection

/-! ## Runs over the buffers -/

namespace Exchange

open BufferedConnection TcpConnection

variable {s t : Exchange} {a : Output} {as : List Output} {o : Option Exchange}

/-- The bytes pending in `OutputBuffer_`. -/
def pending (s : Exchange) : Nat := s.conn.outputBuffer.readableBytes

/-- Between `s` and `t` the completed write was notified of, once, if and only if every byte
    accepted is out in `t` and was not before, what the step passes itself included; and high water,
    once and with the number of pending bytes, if and only if that number has come from below the
    mark to the mark or beyond. -/
def Notified (s t : Exchange) : Prop :=
  ∃ es, t.trace = s.trace ++ es ∧
    es.count .queueWriteComplete
      = (if written t.trace = t.passed ∧ written s.trace ≠ t.passed then 1 else 0) ∧
    es.filterMap Effect.highWater?
      = (if s.pending < s.conn.highWaterMark ∧ s.conn.highWaterMark ≤ t.pending then [t.pending]
          else [])

/-- The step notifies of high water. -/
def HighWater (s t : Exchange) : Prop :=
  ∃ es size, t.trace = s.trace ++ es ∧ .queueHighWaterMark size ∈ es

/-- What is sent is not empty, and no write fails with `EPIPE` or `ECONNRESET`. -/
def Output.Plain : Output → Prop
  | .send data w => data ≠ [] ∧ w.Benign
  | .shutdown => True
  | .handleWrite w => w.Benign

/-- What `SendInLoop` appends has its place in the vector of `OutputBuffer_`. -/
def AppendsInside (s : Exchange) : Output → Prop
  | .send data w => s.conn.state = .connected →
      s.conn.outputBuffer.GrowsSafely (s.conn.remaining data w)
  | .shutdown => True
  | .handleWrite _ => True

/-- Both callbacks are set. -/
structure Plain (o : Option Exchange) (a : Output) : Prop where
  callbacks : ∀ s, o = some s →
    s.conn.writeCompleteCallback = true ∧ s.conn.highWaterMarkCallback = true
  output : a.Plain

/-- The step goes through and notifies. -/
def Notifies (o : Option Exchange) (a : Output) : Prop :=
  ∃ s t, o = some s ∧ s.output a = some t ∧ Notified s t

def Inside (o : Option Exchange) (a : Output) : Prop := ∃ s, o = some s ∧ s.AppendsInside a

/-- The same on queues. -/
def Output.onQueue : Output → OnLoop.Action
  | .send data w => .send data w
  | .shutdown => .shutdown
  | .handleWrite w => .handleWrite w

/-! ## Steps -/

theorem output_onLoop (h : s.conn.outputBuffer.InRange) (hout : s.output a = some t) :
    s.onLoop.step a.onQueue = t.onLoop ∧ t.conn.outputBuffer.InRange := by
  cases a with
  | send data w =>
      obtain ⟨hstep, houtput, -⟩ := send_onLoop h hout
      exact ⟨hstep, houtput⟩
  | shutdown =>
      obtain rfl := Option.some.inj hout
      obtain ⟨hstep, houtput, -⟩ := shutdown_onLoop h
      exact ⟨hstep, houtput⟩
  | handleWrite w =>
      obtain rfl := Option.some.inj hout
      obtain ⟨hstep, houtput, -⟩ := handleWrite_onLoop h
      exact ⟨hstep, houtput⟩

/-- A step goes through exactly when it stays inside of the vector. -/
theorem output_isSome_iff (h : s.conn.outputBuffer.InRange) (a : Output) :
    (s.output a).isSome ↔ s.AppendsInside a := by
  cases a with
  | send data w =>
      rw [output, Exchange.send, Option.isSome_map]
      exact send_isSome_iff h data w
  | shutdown => simp [output, AppendsInside]
  | handleWrite w => simp [output, AppendsInside]

/-- What the runs keep. -/
structure Sends (s : Exchange) : Prop where
  output : s.conn.outputBuffer.InRange
  inv : OnLoop.Inv s.onLoop

theorem Sends.pending_eq (h : s.Sends) : s.pending = s.onLoop.conn.outputBuffer.length :=
  h.output.length_readable.symm

theorem benign_of_plain (h : a.Plain) : OnLoop.BenignWrites s.onLoop a.onQueue := by
  cases a with
  | send data w => exact h.2
  | shutdown => trivial
  | handleWrite w => exact h

theorem Sends.step (h : s.Sends) (hplain : a.Plain) (hout : s.output a = some t) : t.Sends := by
  obtain ⟨hstep, houtput⟩ := output_onLoop h.output hout
  exact ⟨houtput, hstep ▸ h.inv.step (benign_of_plain hplain)⟩

theorem Sends.of_established (h : s.Established) : s.Sends := by
  obtain ⟨fd, connection, writeComplete, close, highWaterMark, rfl⟩ := h
  have hqueue := queue_connectEstablished fd connection writeComplete close highWaterMark
  have hinit : OnLoop.machine.init
      (⟨(BufferedConnection.new fd connection writeComplete close
        highWaterMark).connectEstablished.1, [], [], [], []⟩ : Exchange).onLoop :=
    ⟨⟨fd, connection, writeComplete, close, highWaterMark, hqueue⟩, rfl, rfl⟩
  exact ⟨Buffer.inRange_new _, OnLoop.inv_of_reaches (.init hinit)⟩

/-- A step that goes through notifies as it should. -/
theorem Sends.notified (h : s.Sends) (hplain : Plain (some s) a) (hout : s.output a = some t) :
    Notified s t := by
  obtain ⟨hcomplete, hhigh⟩ := hplain.callbacks s rfl
  obtain ⟨hstep, -⟩ := output_onLoop h.output hout
  have hnext := h.step hplain.output hout
  have hok : OnLoop.Notifying s.onLoop a.onQueue :=
    ⟨hcomplete, hhigh, fun data w heq => by
      cases a with
      | send data' w' =>
          obtain ⟨rfl, rfl⟩ := by simpa [Output.onQueue] using heq
          exact hplain.output.1
      | shutdown => exact absurd heq (by simp [Output.onQueue])
      | handleWrite w' => exact absurd heq (by simp [Output.onQueue]),
    benign_of_plain hplain.output⟩
  have hnotifies := OnLoop.step_notifies h.inv hok
  have htrace := OnLoop.step_trace s.onLoop a.onQueue
  have hpassed := OnLoop.step_passed s.onLoop a.onQueue
  rw [hstep] at hnotifies htrace hpassed
  have hafter := hnext.inv.all_written_iff []
  rw [List.append_nil, List.append_nil] at hafter
  refine ⟨_, htrace, hnotifies.complete.trans ?_, hnotifies.high.trans ?_⟩
  · refine if_congr (and_congr hafter.symm (not_congr ?_)) rfl rfl
    rw [← h.inv.all_written_iff, ← hpassed]
    rfl
  · rw [h.pending_eq, hnext.pending_eq]
    rfl

/-- Where high water is notified of, the mark had not been reached before and has been behind it. -/
theorem Notified.crosses (h : Notified s t) (hhigh : HighWater s t) :
    s.pending < s.conn.highWaterMark ∧ s.conn.highWaterMark ≤ t.pending := by
  obtain ⟨es, htrace, -, hmarks⟩ := h
  obtain ⟨es', size, htrace', hmem⟩ := hhigh
  obtain rfl := List.append_cancel_left (htrace.symm.trans htrace')
  by_contra hnot
  rw [if_neg hnot, List.filterMap_eq_nil_iff] at hmarks
  exact absurd (hmarks _ hmem) (by simp [Effect.highWater?])

/-! ## Runs -/

theorem sends_of_reaches {ok : Option Exchange → Output → Prop} (hok : ∀ o a, ok o a → Plain o a)
    (run : sending.Reaches ok as o) : ∀ s, o = some s → s.Sends := by
  refine run.invariant (I := fun o => ∀ s, o = some s → s.Sends) ?_ ?_
  · rintro _ ⟨u, hu, rfl⟩ s hs
    obtain rfl := Option.some.inj hs
    exact .of_established hu
  · rintro o a o' h hguard hstep t rfl
    obtain ⟨u, rfl, hout⟩ := Option.map_eq_some_iff.1 hstep
    exact (h u rfl).step (hok _ _ hguard).output hout

/-- A step notifies exactly when it stays inside. -/
theorem notifies_iff_inside (run : sending.Reaches (fun o a => Plain o a ∧ Inside o a) as o)
    (hplain : Plain o a) : Notifies o a ↔ Inside o a := by
  have hsends := sends_of_reaches (fun _ _ h => h.1) run
  constructor
  · rintro ⟨s, t, rfl, hout, -⟩
    refine ⟨s, rfl, (output_isSome_iff (hsends s rfl).output a).1 ?_⟩
    rw [hout, Option.isSome_some]
  · rintro ⟨s, rfl, hinside⟩
    have hsome := (output_isSome_iff (hsends s rfl).output a).2 hinside
    obtain ⟨t, hout⟩ := Option.isSome_iff_exists.1 hsome
    exact ⟨s, t, rfl, hout, (hsends s rfl).notified hplain hout⟩

/-- In every run of sends, shutdowns and `HandleWrite`: every step goes through and notifies as it
    should if and only if what each of them appends to `OutputBuffer_` stays inside of the vector.
    In such a run the pending bytes have reached the mark behind a notification of high water, and
    are below it before the next one. -/
theorem notifications_iff (as : List Output) (o : Option Exchange) :
    (sending.Reaches (fun o a => Plain o a ∧ Notifies o a) as o ↔
      sending.Reaches (fun o a => Plain o a ∧ Inside o a) as o) ∧
    ∀ (a b : Output) (bs : List Output) (s t u v : Exchange),
      sending.Reaches (fun o a => Plain o a ∧ Inside o a) as (some s) →
      Plain (some s) a → s.output a = some t → HighWater s t →
      sending.Reaches (fun o a => Plain o a ∧ Inside o a) (as ++ [a] ++ bs) (some u) →
      Plain (some u) b → u.output b = some v → HighWater u v →
      s.conn.highWaterMark ≤ t.pending ∧ u.pending < u.conn.highWaterMark := by
  refine ⟨⟨fun run => ?_, fun run => ?_⟩, ?_⟩
  · exact run.change_guard fun _ _ _ _ _ run' h _ => ⟨h.1, (notifies_iff_inside run' h.1).1 h.2⟩
  · exact run.change_guard fun _ _ _ _ run _ h _ => ⟨h.1, (notifies_iff_inside run h.1).2 h.2⟩
  · intro a b bs s t u v run hplain hout hhigh run' hplain' hout' hhigh'
    have hsends := sends_of_reaches (fun _ _ h => h.1) run s rfl
    have hsends' := sends_of_reaches (fun _ _ h => h.1) run' u rfl
    exact ⟨((hsends.notified hplain hout).crosses hhigh).2,
      ((hsends'.notified hplain' hout').crosses hhigh').1⟩

/-- A connection on which both callbacks are set. -/
def fresh : Exchange :=
  ⟨(BufferedConnection.new 7 true true true true).connectEstablished.1, [], [], [], []⟩

theorem fresh_established : fresh.Established := ⟨7, true, true, true, true, rfl⟩

/-- A short write, and the rest of it written later. -/
theorem notifications_iff_shortWrite :
    ∃ s t, sending.Reaches (fun o a => Plain o a ∧ Notifies o a)
        [.send (bytes "hello") (.room 2), .handleWrite (.room 100)] (some t) ∧
      fresh.output (.send (bytes "hello") (.room 2)) = some s ∧ s.pending = 3 ∧
      s.output (.handleWrite (.room 100)) = some t ∧ t.pending = 0 := by
  have hruns : (fresh.output (.send (bytes "hello") (.room 2))).any (fun s =>
      decide (s.pending = 3 ∧ s.conn.writeCompleteCallback = true ∧
        s.conn.highWaterMarkCallback = true) &&
        (s.output (.handleWrite (.room 100))).any fun t => decide (t.pending = 0)) = true := by
    decide +kernel
  obtain ⟨s, hs, hrest⟩ := (Option.any_eq_true _ _).1 hruns
  rw [Bool.and_eq_true, decide_eq_true_eq] at hrest
  obtain ⟨⟨hpending, hcomplete, hhigh⟩, hrest⟩ := hrest
  obtain ⟨t, ht, hdone⟩ := (Option.any_eq_true _ _).1 hrest
  rw [decide_eq_true_eq] at hdone
  have hsend : Plain (some fresh) (.send (bytes "hello") (.room 2)) :=
    ⟨fun u hu => by cases hu; exact ⟨rfl, rfl⟩, by decide, by decide⟩
  have hinside : Inside (some fresh) (.send (bytes "hello") (.room 2)) :=
    ⟨fresh, rfl, fun _ hroom => absurd hroom (by decide +kernel)⟩
  have hwrite : Plain (some s) (.handleWrite (.room 100)) :=
    ⟨fun u hu => by cases hu; exact ⟨hcomplete, hhigh⟩, (by decide : (WriteResult.room 100).Benign)⟩
  have start : sending.Reaches (fun o a => Plain o a ∧ Inside o a) [] (some fresh) :=
    .init ⟨fresh, fresh_established, rfl⟩
  have run := (start.step ⟨hsend, hinside⟩ (congrArg some hs)).step ⟨hwrite, s, rfl, trivial⟩
    (congrArg some ht)
  exact ⟨s, t, (notifications_iff _ _).1.2 run, hs, hpending, ht, hdone⟩

/-- 1000 bytes are pending, and 100 more come: they are copied behind the end of the vector, before
    anything is notified of. -/
theorem second_append_overruns :
    ∃ s, sending.Reaches Plain [.send (List.replicate 1000 97) (.error .eagain)] (some s) ∧
      Plain (some s) (.send (List.replicate 100 98) (.room 0)) ∧
      s.output (.send (List.replicate 100 98) (.room 0)) = none ∧
      ¬ Notifies (some s) (.send (List.replicate 100 98) (.room 0)) := by
  have hruns : (fresh.output (.send (List.replicate 1000 97) (.error .eagain))).any (fun s =>
      decide (s.conn.writeCompleteCallback = true ∧ s.conn.highWaterMarkCallback = true) &&
        (s.output (.send (List.replicate 100 98) (.room 0))).isNone) = true := by
    decide +kernel
  obtain ⟨s, hs, hset⟩ := (Option.any_eq_true _ _).1 hruns
  rw [Bool.and_eq_true, decide_eq_true_eq, Option.isNone_iff_eq_none] at hset
  obtain ⟨hcallbacks, hnone⟩ := hset
  have hsend (n : Nat) (x : Byte) (w : WriteResult) (u : Exchange) (hn : n ≠ 0)
      (hw : w.Benign) (hu : u.conn.writeCompleteCallback = true ∧
        u.conn.highWaterMarkCallback = true) :
      Plain (some u) (.send (List.replicate n x) w) :=
    ⟨fun v hv => by cases hv; exact hu, by simpa using hn, hw⟩
  refine ⟨s, ?_, hsend 100 98 _ s (by decide) (by decide) hcallbacks, hnone, ?_⟩
  · have start : sending.Reaches Plain [] (some fresh) := .init ⟨fresh, fresh_established, rfl⟩
    exact start.step (hsend 1000 97 (.error .eagain) fresh (by decide) (by decide) ⟨rfl, rfl⟩)
      (congrArg some hs)
  · rintro ⟨u, t, hu, hout, -⟩
    obtain rfl := Option.some.inj hu
    exact absurd (hnone.symm.trans hout) (by simp)

end Exchange
