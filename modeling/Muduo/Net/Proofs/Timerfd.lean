import Muduo.Lib.Truncated
import Muduo.Net.Scheduling

set_option autoImplicit false

/-! # What the timerfd is armed with

`ResetTimerfd` takes the whole seconds of a delay and counts what is left in thousands of
nanoseconds, of which a millisecond has a thousand times as many. -/

namespace ItValue

/-- The delay in nanoseconds. -/
def nanoseconds (v : ItValue) : Int := v.tv_sec * 1000000000 + v.tv_nsec

/-- `timerfd_settime` accepts the value and arms the timer, and a deadline that is still to come is
    met, up to the time that passes between the two readings of the clock. -/
structure Arms (expiration now later : Timestamp) (v : ItValue) : Prop where
  valid : 0 ≤ v.tv_sec ∧ 0 ≤ v.tv_nsec ∧ v.tv_nsec < 1000000000
  armed : ¬ (v.tv_sec = 0 ∧ v.tv_nsec = 0)
  delay : later < expiration →
    expiration.sub later * 1000000 ≤ v.nanoseconds ∧ v.nanoseconds ≤ expiration.sub now * 1000000

/-- The delay that is left is a multiple of a second, of which one at least was left before; or it
    is not, and the second has changed between the two readings of the clock. -/
def OnSecond (expiration now later : Timestamp) : Prop :=
  (expiration.sub later % 1000 = 0 ∧ 1000 ≤ expiration.sub now) ∨
    (later < expiration ∧ expiration.sub later / 1000 < expiration.sub now / 1000 ∧
      expiration.sub now % 1000 ≠ 0)

/-- `ResetTimerfd` arms the timer rightly if and only if whole seconds are left of the delay, or the
    clock has passed one while it was read. -/
theorem arms_reset_iff {expiration now later : Timestamp} (h : ¬ later < now) :
    Arms expiration now later (reset expiration now later) ↔ OnSecond expiration now later := by
  have hsec := Truncated.divMod (expiration.sub now) (b := 1000) (by decide)
  have hnsec := Truncated.divMod (expiration.sub later) (b := 1000) (by decide)
  have hle : expiration.sub later ≤ expiration.sub now := by
    change ¬ later.microSecondsSinceEpoch < now.microSecondsSinceEpoch at h
    simp only [Timestamp.sub, Timestamp.getTime]
    omega
  have hlater : later < expiration ↔ 0 < expiration.sub later := by
    change later.microSecondsSinceEpoch < expiration.microSecondsSinceEpoch ↔ _
    simp only [Timestamp.sub, Timestamp.getTime]
    omega
  constructor
  · rintro ⟨hvalid, harmed, hdelay⟩
    simp only [reset, nanoseconds, hlater] at hvalid harmed hdelay
    simp only [OnSecond, hlater]
    omega
  · intro hon
    simp only [OnSecond, hlater] at hon
    refine ⟨?_, ?_, fun hahead => ?_⟩
    · simp only [reset]
      omega
    · simp only [reset]
      omega
    · simp only [reset, nanoseconds]
      rw [hlater] at hahead
      omega

theorem arms_reset_iff_threeSeconds :
    Arms ⟨3000⟩ ⟨0⟩ ⟨0⟩ (reset ⟨3000⟩ ⟨0⟩ ⟨0⟩) ↔ OnSecond ⟨3000⟩ ⟨0⟩ ⟨0⟩ :=
  arms_reset_iff (by decide)

/-- Half a second ahead the timer is armed for half a millisecond, at the deadline it is disarmed,
    and a millisecond behind it the kernel refuses the value. -/
theorem not_arms_reset :
    reset ⟨500⟩ ⟨0⟩ ⟨0⟩ = ⟨0, 500000⟩ ∧ ¬ Arms ⟨500⟩ ⟨0⟩ ⟨0⟩ (reset ⟨500⟩ ⟨0⟩ ⟨0⟩) ∧
      ¬ Arms ⟨0⟩ ⟨0⟩ ⟨0⟩ (reset ⟨0⟩ ⟨0⟩ ⟨0⟩) ∧ ¬ Arms ⟨0⟩ ⟨1⟩ ⟨1⟩ (reset ⟨0⟩ ⟨1⟩ ⟨1⟩) := by
  refine ⟨by decide, fun h => ?_, fun h => h.armed (by decide), fun h => ?_⟩
  · exact absurd (h.delay (by decide)).1 (by decide)
  · exact absurd h.valid (by decide)

end ItValue
