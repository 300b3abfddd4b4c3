import Mathlib.Algebra.Group.Nat.Defs
import Mathlib.Data.List.Basic

set_option autoImplicit false

/-! # Decimal numerals

The numeral of a number is its digits as ASCII characters, the most significant first, without
leading zeros and with a minus sign in front of a negative one. `ofNat_eq` takes the last digit
off; `read_ofInt` reads a numeral back. -/

namespace Decimal

/-- The digits of `n`. -/
def ofNat (n : Nat) : List UInt8 := (Nat.toDigits 10 n).map fun c => c.toNat.toUInt8

/-- The numeral of `z`. -/
def ofInt (z : Int) : List UInt8 := if 0 ≤ z then ofNat z.toNat else 45 :: ofNat (-z).toNat

/-- The character of a digit. -/
def digit (d : Nat) : UInt8 := (48 + d).toUInt8

theorem digitChar_toUInt8 {d : Nat} (h : d < 10) : d.digitChar.toNat.toUInt8 = digit d := by
  have hall : ∀ d : Fin 10, (d : Nat).digitChar.toNat.toUInt8 = digit d := by decide
  exact hall ⟨d, h⟩

/-- The last digit stands behind the numeral of the others. -/
theorem ofNat_eq (n : Nat) :
    ofNat n = (if n < 10 then [] else ofNat (n / 10)) ++ [digit (n % 10)] := by
  rw [ofNat, Nat.toDigits_eq_if (by omega)]
  split
  · rename_i hlt
    rw [List.map_singleton, digitChar_toUInt8 hlt, Nat.mod_eq_of_lt hlt, List.nil_append]
  · rw [List.map_append, List.map_singleton, digitChar_toUInt8 (Nat.mod_lt n (by omega))]
    rfl

theorem ofNat_of_lt {n : Nat} (h : n < 10) : ofNat n = [digit n] := by
  rw [ofNat_eq, if_pos h, Nat.mod_eq_of_lt h, List.nil_append]

theorem ofNat_of_ge {n : Nat} (h : 10 ≤ n) : ofNat n = ofNat (n / 10) ++ [digit (n % 10)] := by
  rw [ofNat_eq, if_neg (by omega)]

theorem length_ofNat_le_iff {n k : Nat} (h : 0 < k) : (ofNat n).length ≤ k ↔ n < 10 ^ k := by
  rw [ofNat, List.length_map]
  exact Nat.length_toDigits_le_iff (by omega) h

theorem ofInt_of_nonneg {z : Int} (h : 0 ≤ z) : ofInt z = ofNat z.toNat := if_pos h

theorem ofInt_natCast (n : Nat) : ofInt n = ofNat n := by
  rw [ofInt_of_nonneg (Int.natCast_nonneg n), Int.toNat_natCast]

/-- The characters of what `toString` answers. -/
theorem toString_eq (z : Int) :
    (toString z).toList.map (fun c => c.toNat.toUInt8) = ofInt z := by
  rw [Int.toString_eq_repr, Int.repr_eq_if, ofInt]
  split
  · rw [Nat.toList_repr]
    rfl
  · rw [String.toList_append, Nat.toList_repr, List.map_append]
    rfl

/-! ## The characters of a numeral -/

/-- The ASCII digits. -/
def IsDigit (b : UInt8) : Prop := 48 ≤ b ∧ b ≤ 57

instance (b : UInt8) : Decidable (IsDigit b) := inferInstanceAs (Decidable (48 ≤ b ∧ b ≤ 57))

theorem isDigit_digit {d : Nat} (h : d < 10) : IsDigit (digit d) := by
  have hall : ∀ d : Fin 10, IsDigit (digit d) := by decide
  exact hall ⟨d, h⟩

theorem isDigit_of_mem_ofNat {n : Nat} {b : UInt8} (hb : b ∈ ofNat n) : IsDigit b := by
  induction n using Nat.strongRecOn with
  | ind n ih =>
      rw [ofNat_eq, List.mem_append, List.mem_singleton] at hb
      rcases hb with hb | rfl
      · split at hb
        · exact absurd hb (by simp)
        · exact ih (n / 10) (by omega) hb
      · exact isDigit_digit (Nat.mod_lt n (by omega))

theorem mem_ofInt {z : Int} {b : UInt8} (hb : b ∈ ofInt z) : b = 45 ∨ IsDigit b := by
  unfold ofInt at hb
  split at hb
  · exact Or.inr (isDigit_of_mem_ofNat hb)
  · rcases List.mem_cons.1 hb with rfl | hb
    · exact Or.inl rfl
    · exact Or.inr (isDigit_of_mem_ofNat hb)

/-- A character that is neither a digit nor the minus sign is in no numeral. -/
theorem notMem_ofInt {b : UInt8} (hminus : b ≠ 45) (hdigit : ¬ IsDigit b) (z : Int) :
    b ∉ ofInt z := fun hb => (mem_ofInt hb).elim hminus hdigit

/-! ## Reading -/

/-- The number that digits stand for, behind the number `n`. -/
def value (n : Nat) (bs : List UInt8) : Nat := bs.foldl (fun n b => 10 * n + (b.toNat - 48)) n

/-- The number that a numeral stands for. -/
def read : List UInt8 → Int
  | [] => 0
  | b :: bs => if b = 45 then -(value 0 bs) else value 0 (b :: bs)

theorem value_append (n : Nat) (bs bs' : List UInt8) :
    value n (bs ++ bs') = value (value n bs) bs' := List.foldl_append

theorem value_digit (n : Nat) {d : Nat} (h : d < 10) : value n [digit d] = 10 * n + d := by
  have hall : ∀ d : Fin 10, (digit d).toNat - 48 = d := by decide
  simp [value, hall ⟨d, h⟩]

theorem value_ofNat (n : Nat) : value 0 (ofNat n) = n := by
  induction n using Nat.strongRecOn with
  | ind n ih =>
      rw [ofNat_eq, value_append, value_digit _ (Nat.mod_lt n (by omega))]
      split
      · rw [value, List.foldl_nil]
        omega
      · rw [ih (n / 10) (by omega)]
        omega

theorem read_of_notMem {bs : List UInt8} (h : (45 : UInt8) ∉ bs) : read bs = value 0 bs := by
  cases bs with
  | nil => rfl
  | cons b bs => exact if_neg fun (hb : b = 45) => h (hb ▸ List.mem_cons_self)

/-- A numeral reads back as its number. -/
theorem read_ofInt (z : Int) : read (ofInt z) = z := by
  have hminus (n : Nat) : (45 : UInt8) ∉ ofNat n := fun hmem =>
    absurd (isDigit_of_mem_ofNat hmem) (by decide)
  unfold ofInt
  split
  · rw [read_of_notMem (hminus _), value_ofNat]
    omega
  · rw [read, if_pos rfl, value_ofNat]
    omega

end Decimal
