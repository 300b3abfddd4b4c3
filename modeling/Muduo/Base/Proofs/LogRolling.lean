import Muduo.Base.Proofs.LogFile

set_option autoImplicit false

/-! # The days of a log

With a clock that does not go back a file is opened no later than its messages are appended, and a
message of a later day than its file's is counted by `count_`: when that reaches `CheckEveryN_` the
day is looked at, and the log goes on in a new file. `Fresh` ties the two together for the file that
is open; what is in the files before it does not change any more. -/

namespace LogFile

variable {localtime : Int → Tm} {files : Bytes → Option Bytes} {args : Args} {now clock : Int}
variable {l t : LogFile} {a : Action} {msg : Bytes} {answer : Answer}

theorem dayOf_le {m n : Int} (hm : 0 ≤ m) (h : m ≤ n) : dayOf m ≤ dayOf n := by
  unfold dayOf kRollPerSeconds
  rw [Int.tdiv_eq_ediv_of_nonneg hm, Int.tdiv_eq_ediv_of_nonneg (hm.trans h)]
  omega

/-- The message was appended on another day than the file was opened. -/
def Routed.late (r : Routed) : Bool := decide (dayOf r.time ≠ dayOf r.opened)

/-- The late messages in the file that was opened then. -/
def lateIn (l : LogFile) (opened : Int) : Nat :=
  l.routed.countP fun r => r.opened = opened && r.late

/-- The clock, as far as a call reads it. -/
def Action.clocks : Action → List Int
  | .append _ answer => [answer.now, answer.rollNow]
  | .flush => []
  | .rollFile now => [now]

/-- The calls, with what the clock has shown last. -/
def clocked (localtime : Int → Tm) (files : Bytes → Option Bytes) (args : Args) (now : Int) :
    Machine (LogFile × Int) Action :=
  (machine localtime files args now).observing (fun _ => now) fun clock _ a _ =>
    a.clocks.getLastD clock

/-- The clock does not go back. -/
def Forward (p : LogFile × Int) (a : Action) : Prop := (p.2 :: a.clocks).Pairwise (· ≤ ·)

instance (p : LogFile × Int) (a : Action) : Decidable (Forward p a) :=
  inferInstanceAs (Decidable (List.Pairwise _ _))

/-! ## What is known of the times -/

structure Timed (n clock : Int) (l : LogFile) : Prop where
  checkEveryN : l.checkEveryN = n
  pos : 0 < l.lastRoll
  start : l.start = dayOf l.lastRoll
  reached : l.lastRoll ≤ clock
  times : ∀ r ∈ l.routed, r.opened ≤ r.time ∧ r.time ≤ clock
  last : ∀ r ∈ l.routed, r.opened ≤ l.lastRoll
  bound : ∀ opened, (l.lateIn opened : Int) ≤ n

structure Fresh (n clock : Int) (l : LogFile) : Prop extends l.Timed n clock where
  nonneg : 0 ≤ l.count
  count : l.count < n
  current : (l.lateIn l.lastRoll : Int) ≤ l.count

variable {n : Int}

theorem lateIn_write (l : LogFile) (msg : Bytes) (answer : Answer) (opened : Int) :
    (l.write msg answer).lateIn opened = l.lateIn opened +
      if l.lastRoll = opened ∧ dayOf answer.now ≠ dayOf l.lastRoll then 1 else 0 := by
  simp [lateIn, LogFile.write, List.countP_append, List.countP_singleton, Routed.late]

theorem Fresh.write (h : l.Fresh n clock) (msg : Bytes) (hclock : clock ≤ answer.now) :
    (l.write msg answer).Timed n answer.now where
  checkEveryN := h.checkEveryN
  pos := h.pos
  start := h.start
  reached := h.reached.trans hclock
  times r hr := by
    rcases List.mem_append.1 hr with hold | hnew
    · exact ⟨(h.times r hold).1, (h.times r hold).2.trans hclock⟩
    · obtain rfl := List.mem_singleton.1 hnew
      exact ⟨h.reached.trans hclock, le_refl _⟩
  last r hr := by
    rcases List.mem_append.1 hr with hold | hnew
    · exact h.last r hold
    · obtain rfl := List.mem_singleton.1 hnew
      exact le_refl _
  bound opened := by
    have hold := h.bound opened
    have hcurrent := h.current
    have hcount := h.count
    rw [lateIn_write]
    split
    · next heq =>
        rw [heq.1] at hcurrent
        omega
    · exact hold

theorem Timed.mono (h : l.Timed n clock) (hle : clock ≤ now) : l.Timed n now :=
  { h with
    reached := h.reached.trans hle
    times := fun r hr => ⟨(h.times r hr).1, (h.times r hr).2.trans hle⟩ }

/-- A new file has nothing late in it. -/
theorem Timed.roll (h : l.Timed n clock) (hnonneg : 0 ≤ l.count) (hcount : l.count < n)
    (hlater : l.lastRoll < now) (hclock : clock ≤ now) :
    (l.rollFile localtime now).2.Fresh n now := by
  rcases rollFile_cases localtime l now with ⟨-, heq⟩ | ⟨hle, -⟩
  · have hnone : l.lateIn now = 0 := by
      refine List.countP_eq_zero.2 ?_
      intro r hr
      have hopened := h.last r hr
      have hne : r.opened ≠ now := by omega
      simp [hne]
    rw [heq]
    refine ⟨⟨h.checkEveryN, h.pos.trans hlater, rfl, le_refl _, ?_, ?_, h.bound⟩, hnonneg, hcount,
      ?_⟩
    · exact fun r hr => ⟨(h.times r hr).1, (h.times r hr).2.trans hclock⟩
    · exact fun r hr => (h.last r hr).trans (le_of_lt hlater)
    · refine le_trans (le_of_eq ?_) hnonneg
      exact_mod_cast hnone
  · omega

/-- On the day of the file nothing in it is late. -/
theorem Timed.lateIn_eq_zero (h : l.Timed n clock) (hday : dayOf clock = l.start) :
    l.lateIn l.lastRoll = 0 := by
  refine List.countP_eq_zero.2 ?_
  intro r hr
  obtain ⟨hopened, htime⟩ := h.times r hr
  by_cases heq : r.opened = l.lastRoll
  · have hpos := h.pos
    have hstart := h.start
    rw [heq] at hopened
    have hfirst : dayOf l.lastRoll ≤ dayOf r.time := dayOf_le (by omega) hopened
    have hlast : dayOf r.time ≤ dayOf clock := dayOf_le (by omega) htime
    have hday' : dayOf r.time = dayOf l.lastRoll := by omega
    simp [Routed.late, heq, hday']
  · simp [heq]

/-! ## Steps -/

theorem Fresh.check (h : l.Fresh n clock) (msg : Bytes) (hnow : clock ≤ answer.now)
    (hroll : answer.now ≤ answer.rollNow) :
    ((l.write msg answer).check localtime answer).Fresh n answer.rollNow := by
  have hwrite := h.write msg hnow
  have hcount := h.count
  have hnonneg := h.nonneg
  have hN : l.checkEveryN = n := h.checkEveryN
  have hlate := lateIn_write l msg answer l.lastRoll
  have hcurrent := h.current
  rcases check_cases localtime (l.write msg answer) answer with
    ⟨hfew, heq⟩ | ⟨hday, heq⟩ | ⟨hday, heq⟩
  · rw [heq]
    have hfew' : l.count + 1 < n := hN ▸ hfew
    refine ⟨{ hwrite.mono hroll with }, ?_, hfew', ?_⟩
    · exact Int.le_add_one hnonneg
    · show ((l.write msg answer).lateIn l.lastRoll : Int) ≤ l.count + 1
      rw [hlate]
      split <;> omega
  · rw [heq]
    have hstart : l.start = dayOf l.lastRoll := h.start
    have hne : answer.now ≠ l.lastRoll := fun hsame => hday (by rw [hsame]; exact hstart.symm)
    have hle : l.lastRoll ≤ answer.now := h.reached.trans hnow
    have hcleared : Timed n answer.now { l.write msg answer with count := 0 } :=
      { hwrite with }
    exact hcleared.roll (le_refl 0) (by show (0 : Int) < n; omega)
      (by show l.lastRoll < _; omega) hroll
  · have hzero := hwrite.lateIn_eq_zero hday
    rcases heq with heq | heq
    · rw [heq]
      exact ⟨{ hwrite.mono hroll with }, le_refl 0, by show (0 : Int) < n; omega,
        le_of_eq (congrArg Nat.cast hzero)⟩
    · rw [heq]
      exact ⟨{ hwrite.mono hroll with }, le_refl 0, by show (0 : Int) < n; omega,
        le_of_eq (congrArg Nat.cast hzero)⟩

/-- A file that is too big is left, unless it was opened in this very second. -/
theorem Fresh.tooBig (h : l.Fresh n clock) (msg : Bytes) (hnow : clock ≤ answer.now)
    (hroll : answer.now ≤ answer.rollNow) :
    ((l.write msg answer).rollFile localtime answer.rollNow).2.Fresh n answer.rollNow := by
  have hwrite := h.write msg hnow
  by_cases hlater : l.lastRoll < answer.rollNow
  · exact hwrite.roll h.nonneg h.count hlater hroll
  · have hsame : answer.now = l.lastRoll := by
      have hle := h.reached.trans hnow
      omega
    rcases rollFile_cases localtime (l.write msg answer) answer.rollNow with ⟨hlt, -⟩ | ⟨-, heq⟩
    · exact absurd hlt hlater
    · rw [heq]
      refine ⟨hwrite.mono hroll, h.nonneg, h.count, ?_⟩
      show ((l.write msg answer).lateIn l.lastRoll : Int) ≤ l.count
      rw [lateIn_write, hsame, if_neg fun hlate => hlate.2 rfl]
      exact h.current

theorem Fresh.rollFile (h : l.Fresh n clock) (hnow : clock ≤ now) :
    (l.rollFile localtime now).2.Fresh n now := by
  by_cases hlater : l.lastRoll < now
  · exact h.toTimed.roll h.nonneg h.count hlater hnow
  · rcases rollFile_cases localtime l now with ⟨hlt, -⟩ | ⟨-, heq⟩
    · exact absurd hlt hlater
    · rw [heq]
      exact ⟨h.toTimed.mono hnow, h.nonneg, h.count, h.current⟩

theorem Fresh.step (h : l.Fresh n clock) (hforward : Forward (l, clock) a)
    (hstep : l.step localtime a = some t) : t.Fresh n (a.clocks.getLastD clock) := by
  cases a with
  | append msg answer =>
      obtain ⟨hclock, hrest⟩ := List.pairwise_cons.1 hforward
      have hnow : clock ≤ answer.now := hclock _ (by simp [Action.clocks])
      have hroll : answer.now ≤ answer.rollNow := List.rel_of_pairwise_cons hrest (by simp)
      rcases append_cases hstep with rfl | rfl
      · exact h.tooBig msg hnow hroll
      · exact h.check msg hnow hroll
  | flush =>
      obtain rfl := Option.some.inj hstep
      exact ⟨{ h.toTimed with }, h.nonneg, h.count, h.current⟩
  | rollFile now =>
      obtain rfl := Option.some.inj hstep
      exact h.rollFile (List.rel_of_pairwise_cons hforward (by simp [Action.clocks]))

theorem fresh_new (hnow : 0 < now) (hcheck : 0 < args.check) :
    (new localtime files args now).Fresh args.check now := by
  unfold new
  rw [LogFile.rollFile, if_pos hnow]
  refine ⟨⟨rfl, hnow, rfl, le_refl _, by simp, by simp, ?_⟩, le_refl 0, hcheck, le_refl 0⟩
  intro opened
  exact le_of_lt hcheck

/-- With a clock that does not go back, a message is in a file that was opened no later than it was
    appended, and at most `CheckEveryN_` messages of later days are in the file. -/
theorem later_days_bounded {as : List Action} {p : LogFile × Int} (hnow : 0 < now)
    (hcheck : 0 < args.check)
    (run : (clocked localtime files args now).Reaches Forward as p) :
    (∀ r ∈ p.1.routed, r.opened ≤ r.time) ∧
      ∀ opened, (p.1.lateIn opened : Int) ≤ args.check := by
  have h : p.1.Fresh args.check p.2 := by
    refine run.invariant (I := fun p => p.1.Fresh args.check p.2) ?_ ?_
    · rintro ⟨l, clock⟩ ⟨hl, hclock⟩
      obtain rfl : l = new localtime files args now := hl
      obtain rfl : clock = now := hclock
      exact fresh_new hnow hcheck
    · rintro ⟨l, clock⟩ a t h hforward hstep
      obtain ⟨t, ht, rfl⟩ := Option.map_eq_some_iff.1 hstep
      exact h.step hforward ht
  exact ⟨fun r hr => (h.times r hr).1, h.bound⟩

/-- Two messages of the next day are in the file when the day is looked at, and a third one is in a
    new file. -/
def overMidnight : List Action :=
  [.append [10] ⟨86399, 86399, 0⟩, .append [10] ⟨86400, 86400, 0⟩, .append [10] ⟨86401, 86401, 0⟩,
    .append [10] ⟨86402, 86402, 0⟩]

theorem later_days_bounded_overMidnight :
    ∃ p, (clocked sameMinute (fun _ => none) ⟨bytes "log", 1000, 5, 3⟩ 86390).Reaches Forward
        overMidnight p ∧
      p.1.lateIn 86390 = 2 ∧ p.1.routed.map (·.opened) = [86390, 86390, 86390, 86401] ∧
      ∀ opened, (p.1.lateIn opened : Int) ≤ 3 := by
  obtain ⟨p, run, hlate, hopened⟩ := Machine.exists_reaches_of_exec
    (clocked sameMinute (fun _ => none) ⟨bytes "log", 1000, 5, 3⟩ 86390) Forward
    (new sameMinute (fun _ => none) ⟨bytes "log", 1000, 5, 3⟩ 86390, 86390) overMidnight
    (fun p => p.1.lateIn 86390 = 2 ∧ p.1.routed.map (·.opened) = [86390, 86390, 86390, 86401])
    ⟨rfl, rfl⟩ (by decide)
  exact ⟨p, run, hlate, hopened, (later_days_bounded (by decide) (by decide) run).2⟩

end LogFile
