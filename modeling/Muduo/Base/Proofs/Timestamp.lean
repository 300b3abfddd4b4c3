import Mathlib.Algebra.Order.Group.Abs
import Mathlib.Algebra.Order.Group.Int
import Muduo.Base.Timestamp
import Muduo.Lib.Truncated

set_option autoImplicit false

/-! # Clock readings

`now()` adds the microseconds of the clock to its seconds as if they were milliseconds, so a
timestamp is right in the first millisecond of a second only. -/

namespace Timeval

/-- Not later, seconds first. -/
def Le (a b : Timeval) : Prop := a.sec < b.sec ∨ a.sec = b.sec ∧ a.usec ≤ b.usec

/-- Microseconds from `a` to `b`. -/
def elapsed (a b : Timeval) : Int := (b.sec - a.sec) * 1000000 + (b.usec - a.usec)

end Timeval

namespace Timestamp

/-- The timestamps of two clock readings are ordered as they are, they differ by the elapsed time in
    milliseconds, give or take one, and each keeps the second. -/
structure KeepsTime (a b : Timeval) : Prop where
  ordered : ¬ now b < now a
  elapsed : |1000 * (now b).sub (now a) - a.elapsed b| ≤ 1000
  seconds : (now a).seconds = a.sec ∧ (now b).seconds = b.sec

/-- The reading falls into the first millisecond of its second; before the epoch, where the division
    in `toString()` rounds up, on the second. -/
def OnSecond (tv : Timeval) : Prop := tv.usec = 0 ∨ 0 ≤ tv.sec ∧ tv.usec < 1000

theorem seconds_now_iff (tv : Timeval) : (now tv).seconds = tv.sec ↔ OnSecond tv := by
  have hdiv := Truncated.divMod (tv.sec * 1000 + tv.usec) (b := 1000) (by decide)
  have hnonneg := tv.usec_nonneg
  simp only [seconds, now, OnSecond]
  omega

theorem elapsed_now_iff (a b : Timeval) :
    |1000 * (now b).sub (now a) - a.elapsed b| ≤ 1000 ↔ |b.usec - a.usec| ≤ 1 := by
  have hscale : 1000 * (now b).sub (now a) - a.elapsed b = (b.usec - a.usec) * 999 := by
    simp only [now, sub, getTime, Timeval.elapsed]
    omega
  rw [hscale, abs_le, abs_le]
  omega

/-- Two clock readings, the second not before the first, are told apart rightly if and only if both
    fall into the first millisecond of their second and their microseconds differ by one at most. -/
theorem keepsTime_iff {a b : Timeval} (h : a.Le b) :
    KeepsTime a b ↔ OnSecond a ∧ OnSecond b ∧ |b.usec - a.usec| ≤ 1 := by
  constructor
  · intro hkeeps
    exact ⟨(seconds_now_iff a).1 hkeeps.seconds.1, (seconds_now_iff b).1 hkeeps.seconds.2,
      (elapsed_now_iff a b).1 hkeeps.elapsed⟩
  · rintro ⟨ha, hb, helapsed⟩
    refine ⟨?_, (elapsed_now_iff a b).2 helapsed, (seconds_now_iff a).2 ha,
      (seconds_now_iff b).2 hb⟩
    rw [abs_le] at helapsed
    change ¬ b.sec * 1000 + b.usec < a.sec * 1000 + a.usec
    simp only [Timeval.Le] at h
    omega

theorem keepsTime_iff_secondApart :
    KeepsTime ⟨5, 0, by decide, by decide⟩ ⟨6, 1, by decide, by decide⟩
      ↔ OnSecond ⟨5, 0, by decide, by decide⟩ ∧ OnSecond ⟨6, 1, by decide, by decide⟩ ∧
        |(1 : Int) - 0| ≤ 1 :=
  keepsTime_iff (Or.inl (by decide))

/-- From the end of a second to the beginning of the next the clock goes back. -/
theorem not_keepsTime_endOfSecond :
    Timeval.Le ⟨0, 999999, by decide, by decide⟩ ⟨1, 0, by decide, by decide⟩ ∧
      now ⟨1, 0, by decide, by decide⟩ < now ⟨0, 999999, by decide, by decide⟩ ∧
      ¬ KeepsTime ⟨0, 999999, by decide, by decide⟩ ⟨1, 0, by decide, by decide⟩ :=
  ⟨Or.inl (by decide), by decide, fun h => h.ordered (by decide)⟩

/-! ## Formatting -/

theorem notMem_replicate {b c : Byte} (h : b ≠ c) (n : Nat) : b ∉ List.replicate n c :=
  fun hb => h (List.eq_of_mem_replicate hb)

theorem newline_notMem_blankPadded (width : Nat) (z : Int) : (10 : Byte) ∉ blankPadded width z := by
  rw [blankPadded, List.mem_append, not_or]
  exact ⟨notMem_replicate (by decide) _, Decimal.notMem_ofInt (by decide) (by decide) z⟩

theorem newline_notMem_zeroPadded (width : Nat) (z : Int) : (10 : Byte) ∉ zeroPadded width z := by
  have hsign : (10 : Byte) ∉ (if z < 0 then [45] else [] : Bytes) := by
    split <;> decide
  have hdigits : (10 : Byte) ∉ Decimal.ofNat z.natAbs := fun hmem =>
    absurd (Decimal.isDigit_of_mem_ofNat hmem) (by decide)
  simp only [zeroPadded, List.mem_append, not_or]
  exact ⟨⟨hsign, notMem_replicate (by decide) _⟩, hdigits⟩

theorem newline_notMem_toString (localtime : Int → Tm) (t : Timestamp) :
    (10 : Byte) ∉ t.toString localtime := by
  have hslash : (10 : Byte) ∉ bytes "/" := by decide
  have hcolon : (10 : Byte) ∉ bytes ":" := by decide
  have hblank : (10 : Byte) ∉ bytes " " := by decide
  refine fun hmem => absurd (List.mem_of_mem_take hmem) ?_
  simp only [List.mem_append, not_or]
  simp only [newline_notMem_blankPadded, newline_notMem_zeroPadded, hslash, hcolon, hblank,
    not_false_eq_true, and_self]

end Timestamp
