import Mathlib.Data.List.Basic

set_option autoImplicit false

/-! # Terminated records

A record is terminated if its last element is the terminator and no other is. Such records are told
apart when they stand one behind the other: `records` cuts behind every terminator and finds them
again. -/

universe u

variable {α : Type u} {t : α} {xs ys : List α}

def Terminated (t : α) (xs : List α) : Prop := ∃ body, xs = body ++ [t] ∧ t ∉ body

namespace Terminated

theorem mem (h : Terminated t xs) : t ∈ xs := by
  obtain ⟨body, rfl, -⟩ := h
  exact List.mem_append_right _ (List.mem_singleton_self t)

theorem append_singleton_iff : Terminated t (xs ++ [t]) ↔ t ∉ xs := by
  constructor
  · rintro ⟨body, heq, hbody⟩
    obtain ⟨rfl, -⟩ := List.append_inj' heq rfl
    exact hbody
  · exact fun h => ⟨xs, rfl, h⟩

/-- What comes before does not matter if the terminator is not in it. -/
theorem append_iff_right (h : t ∉ xs) : Terminated t (xs ++ ys) ↔ Terminated t ys := by
  rcases List.eq_nil_or_concat ys with rfl | ⟨ys, y, rfl⟩
  · rw [List.append_nil]
    exact ⟨fun hxs => absurd hxs.mem h, fun hnil => absurd hnil.mem (List.not_mem_nil)⟩
  · rw [List.concat_eq_append, ← List.append_assoc]
    constructor
    · rintro ⟨body, heq, hbody⟩
      obtain ⟨rfl, hy⟩ := List.append_inj' heq rfl
      obtain rfl := List.singleton_inj.1 hy
      exact append_singleton_iff.2 fun hmem => hbody (List.mem_append_right xs hmem)
    · rintro ⟨body, heq, hbody⟩
      obtain ⟨rfl, hy⟩ := List.append_inj' heq rfl
      obtain rfl := List.singleton_inj.1 hy
      exact append_singleton_iff.2 fun hmem => (List.mem_append.1 hmem).elim h hbody

theorem not_append_of_ne {y : α} (h : y ≠ t) : ¬ Terminated t (xs ++ [y]) := by
  rintro ⟨body, heq, -⟩
  exact h (List.singleton_inj.1 (List.append_inj' heq rfl).2)

/-! ## Reading records back -/

variable [DecidableEq α]

/-- The sequence cut behind every terminator. -/
def records (t : α) : List α → List (List α)
  | [] => []
  | x :: xs =>
      if x = t then [x] :: records t xs
      else
        match records t xs with
        | [] => [[x]]
        | record :: rest => (x :: record) :: rest

theorem records_append (h : Terminated t xs) (ys : List α) :
    records t (xs ++ ys) = xs :: records t ys := by
  obtain ⟨body, rfl, hbody⟩ := h
  induction body with
  | nil => simp [records]
  | cons x body ih =>
      obtain ⟨hx, hrest⟩ := List.ne_and_not_mem_of_not_mem_cons hbody
      simp only [List.cons_append, records, if_neg (Ne.symm hx), ih hrest]

theorem records_flatten {l : List (List α)} (h : ∀ xs ∈ l, Terminated t xs) :
    records t l.flatten = l := by
  induction l with
  | nil => rfl
  | cons xs l ih =>
      rw [List.flatten_cons, records_append (h xs List.mem_cons_self),
        ih fun ys hys => h ys (List.mem_cons_of_mem xs hys)]

end Terminated
