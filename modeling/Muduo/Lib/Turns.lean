import Mathlib.Data.Int.CardIntervalMod

set_option autoImplicit false

/-! # Taking turns

A cursor that goes from place to place and begins again behind the last one. Of the first `k` turns
each of the `n` places has had `k / n`, and the first `k % n` places have had one more. -/

namespace Turns

/-- The place behind `cursor`. -/
def next (n cursor : Nat) : Nat := if cursor + 1 ≥ n then 0 else cursor + 1

variable {n : Nat}

theorem next_mod (hn : 0 < n) (k : Nat) : next n (k % n) = (k + 1) % n := by
  have hlt := Nat.mod_lt k hn
  rw [next, ← Nat.mod_add_mod]
  split
  · next hlast =>
      have hsame : k % n + 1 = n := Nat.le_antisymm hlt hlast
      rw [hsame, Nat.mod_self]
  · next hbefore => rw [Nat.mod_eq_of_lt (Nat.lt_of_not_ge hbefore)]

/-- The turns that place `i` has had. -/
theorem count_eq {i : Nat} (hi : i < n) (k : Nat) :
    Nat.count (fun j => j % n = i) k = k / n + if i < k % n then 1 else 0 := by
  have hcount := Nat.count_modEq_card k (Nat.zero_lt_of_lt hi) i
  simpa only [Nat.ModEq, Nat.mod_eq_of_lt hi] using hcount

/-- No place is ahead of another one by more than a turn. -/
theorem count_le {i j : Nat} (hi : i < n) (hj : j < n) (k : Nat) :
    Nat.count (fun m => m % n = i) k ≤ Nat.count (fun m => m % n = j) k + 1 := by
  rw [count_eq hi, count_eq hj]
  split <;> split <;> omega

end Turns
