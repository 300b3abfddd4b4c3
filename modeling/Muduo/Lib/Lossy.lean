import Mathlib.Data.List.Basic

set_option autoImplicit false

/-! # Writing what fits

Items are written one behind the other into a block of fixed size. An item is written as `text x` if
more than `need x` cells are free and is left out as a whole if not. `kept` is the list of the items
that are written and `room` the number of cells that stay free, both by the lengths alone;
`foldl_put` says that the content is what the kept items say. -/

universe u v

namespace Lossy

variable {ι : Type u} {α : Type v} (need : ι → Nat) (text : ι → List α)

/-- Write `x` behind `content` in a block of `size` cells. -/
def put (size : Nat) (content : List α) (x : ι) : List α :=
  if need x < size - content.length then content ++ text x else content

/-- The items that are written when `n` cells are free. -/
def kept : Nat → List ι → List ι
  | _, [] => []
  | n, x :: xs => if need x < n then x :: kept (n - (text x).length) xs else kept n xs

/-- The cells that stay free of `n`. -/
def room : Nat → List ι → Nat
  | n, [] => n
  | n, x :: xs => if need x < n then room (n - (text x).length) xs else room n xs

variable {need text}

theorem kept_sublist (n : Nat) (xs : List ι) : (kept need text n xs).Sublist xs := by
  induction xs generalizing n with
  | nil => exact List.Sublist.refl _
  | cons x xs ih =>
      simp only [kept]
      split
      · exact (ih _).cons_cons x
      · exact (ih n).cons x

theorem mem_kept_head {n : Nat} {x : ι} (h : need x < n) (xs : List ι) :
    x ∈ kept need text n (x :: xs) := by
  rw [kept, if_pos h]
  exact List.mem_cons_self

/-- What is kept behind `x` is kept. -/
theorem mem_kept_of_put {size : Nat} {content : List α} {x y : ι} {xs : List ι}
    (h : y ∈ kept need text (size - (put need text size content x).length) xs) :
    y ∈ kept need text (size - content.length) (x :: xs) := by
  rw [put] at h
  rw [kept]
  split at h
  · rename_i hfits
    rw [List.length_append, ← Nat.sub_sub] at h
    rw [if_pos hfits]
    exact List.mem_cons_of_mem _ h
  · rename_i hfits
    rwa [if_neg hfits]

theorem mem_kept_cons {size : Nat} {content : List α} {x y : ι} {xs : List ι}
    (h : y ∈ kept need text (size - content.length) (x :: xs)) :
    y = x ∧ need x < size - content.length ∨
      y ∈ kept need text (size - (put need text size content x).length) xs := by
  rw [kept] at h
  rw [put]
  split at h
  · rename_i hfits
    rw [if_pos hfits, List.length_append, ← Nat.sub_sub]
    exact (List.mem_cons.1 h).imp_left fun heq => ⟨heq, hfits⟩
  · rename_i hfits
    rw [if_neg hfits]
    exact Or.inr h

theorem kept_append (n : Nat) (xs ys : List ι) :
    kept need text n (xs ++ ys)
      = kept need text n xs ++ kept need text (room need text n xs) ys := by
  induction xs generalizing n with
  | nil => rfl
  | cons x xs ih =>
      simp only [List.cons_append, kept, room]
      split
      · rw [ih, List.cons_append]
      · exact ih n

theorem room_append (n : Nat) (xs ys : List ι) :
    room need text n (xs ++ ys) = room need text (room need text n xs) ys := by
  induction xs generalizing n with
  | nil => rfl
  | cons x xs ih =>
      simp only [List.cons_append, room]
      split
      · exact ih _
      · exact ih n

/-- The content is the kept items, whole and in order. -/
theorem foldl_put (size : Nat) (content : List α) (xs : List ι) :
    xs.foldl (put need text size) content
      = content ++ (kept need text (size - content.length) xs).flatMap text := by
  induction xs generalizing content with
  | nil => exact (List.append_nil content).symm
  | cons x xs ih =>
      rw [List.foldl_cons, ih, put, kept]
      split
      · rw [List.length_append, ← Nat.sub_sub, List.flatMap_cons, List.append_assoc]
      · rfl

theorem sub_length_foldl_put (size : Nat) (content : List α) (xs : List ι) :
    size - (xs.foldl (put need text size) content).length
      = room need text (size - content.length) xs := by
  induction xs generalizing content with
  | nil => rfl
  | cons x xs ih =>
      rw [List.foldl_cons, ih, put, room]
      split
      · rw [List.length_append, ← Nat.sub_sub]
      · rfl

/-- Where an item asks for no more than `slack` cells beyond its text, items with that much room
    beyond all of their texts are kept. -/
theorem kept_eq_self {slack : Nat} (hneed : ∀ x, need x ≤ (text x).length + slack) {n : Nat}
    {xs : List ι} (h : (xs.flatMap text).length + slack < n) : kept need text n xs = xs := by
  induction xs generalizing n with
  | nil => rfl
  | cons x xs ih =>
      rw [List.flatMap_cons, List.length_append] at h
      have hx := hneed x
      rw [kept, if_pos (by omega), ih (by omega)]

/-- Where no item is longer than what it asks for, one cell stays free. -/
theorem room_pos (h : ∀ x, (text x).length ≤ need x) {n : Nat} (hn : 0 < n) (xs : List ι) :
    0 < room need text n xs := by
  induction xs generalizing n with
  | nil => exact hn
  | cons x xs ih =>
      have hx := h x
      rw [room]
      split
      · exact ih (by omega)
      · exact ih hn

theorem length_foldl_put_lt (h : ∀ x, (text x).length ≤ need x) {size : Nat} {content : List α}
    (hlt : content.length < size) (xs : List ι) :
    (xs.foldl (put need text size) content).length < size := by
  have hroom := room_pos h (Nat.sub_pos_of_lt hlt) xs
  rw [← sub_length_foldl_put] at hroom
  omega

end Lossy
