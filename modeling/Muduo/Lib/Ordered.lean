import Mathlib.Data.List.Basic
import Mathlib.Data.Prod.Lex
import Mathlib.Order.Lattice
import Mathlib.Order.Monotone.Monovary
import Mathlib.Order.RelClasses

set_option autoImplicit false

/-! # Ordered containers and the comparison they are given

An ordered set places an element by a comparison `lt`, going left of the elements that it precedes
and right of the others, and rejects it when neither it nor the element on its left precedes the
other. How the set is balanced decides which elements are compared, so `place` allows every gap
whose two neighbours the comparison puts on their sides.

Nothing is asked of `lt`. Where it agrees with an order of keys, the container is sorted by them. A
comparison that is true when either of two keys is smaller is a strict weak order on the elements
whose keys never disagree. -/

universe u v w

namespace Ordered

variable {α : Type u} {κ : Type v} {lt : α → α → Bool} {l l' : List α} {e : α} {pos : Nat}

/-- Insert `e` into the gap at `pos`; `none` when the comparison does not put it there. -/
def place (lt : α → α → Bool) (l : List α) (e : α) (pos : Nat) : Option (List α) :=
  let left := (l.take pos).getLast?
  let right := (l.drop pos).head?
  if left.all (fun u => !lt e u) && right.all (lt e) then
    some (if left.all (lt · e) then l.take pos ++ e :: l.drop pos else l)
  else none

theorem all_eq_true_iff {p : α → Bool} {o : Option α} :
    o.all p = true ↔ ∀ u ∈ o, p u = true := by
  cases o <;> simp

theorem place_eq_some (h : place lt l e pos = some l') :
    (∀ u ∈ (l.take pos).getLast?, lt e u = false) ∧ (∀ u ∈ (l.drop pos).head?, lt e u = true) ∧
      (l' = l ∨ l' = l.take pos ++ e :: l.drop pos) := by
  simp only [place, Option.ite_none_right_eq_some, Bool.and_eq_true, all_eq_true_iff,
    Bool.not_eq_true', Option.some.injEq] at h
  obtain ⟨⟨hleft, hright⟩, h⟩ := h
  refine ⟨hleft, hright, ?_⟩
  split at h
  · exact Or.inr h.symm
  · exact Or.inl h.symm

/-- The element is rejected, or it joins the others. -/
theorem perm_of_place (h : place lt l e pos = some l') : l' = l ∨ l'.Perm (e :: l) := by
  obtain ⟨-, -, rfl | rfl⟩ := place_eq_some h
  · exact Or.inl rfl
  · refine Or.inr (List.perm_middle.trans ?_)
    rw [List.take_append_drop]

/-- An element that the comparison tells from all others is not rejected. -/
theorem perm_of_place_of_comparable (h : place lt l e pos = some l')
    (hcomparable : ∀ u ∈ l, lt u e = true ∨ lt e u = true) : l'.Perm (e :: l) := by
  simp only [place, Option.ite_none_right_eq_some, Bool.and_eq_true, all_eq_true_iff,
    Bool.not_eq_true', Option.some.injEq] at h
  obtain ⟨⟨hleft, -⟩, rfl⟩ := h
  have haccepted : ∀ u ∈ (l.take pos).getLast?, lt u e = true := by
    intro u hu
    refine (hcomparable u (List.mem_of_mem_take (List.mem_of_getLast? hu))).resolve_right ?_
    rw [hleft u hu]
    exact Bool.false_ne_true
  rw [if_pos haccepted]
  refine List.perm_middle.trans ?_
  rw [List.take_append_drop]

theorem mem_of_place (h : place lt l e pos = some l') {x : α} (hx : x ∈ l') : x = e ∨ x ∈ l := by
  rcases perm_of_place h with rfl | hperm
  · exact Or.inr hx
  · exact List.mem_cons.1 (hperm.mem_iff.1 hx)

/-! ## Keys -/

section

variable [LinearOrder κ] {key : α → κ}

/-- The container iterates in non-decreasing order of keys. -/
def SortedBy (key : α → κ) (l : List α) : Prop := l.Pairwise fun a b => key a ≤ key b

/-- In a sorted list the last element has the greatest key. -/
theorem SortedBy.le_getLast {x : α} (hl : SortedBy key l) (hx : x ∈ l.getLast?) :
    ∀ a ∈ l, key a ≤ key x := by
  obtain ⟨l, rfl⟩ := List.getLast?_eq_some_iff.1 hx
  intro a ha
  rcases List.mem_append.1 ha with ha | ha
  · exact (List.pairwise_append.1 hl).2.2 a ha x (by simp)
  · rw [List.mem_singleton.1 ha]

/-- In a sorted list the first element has the smallest key. -/
theorem SortedBy.head_le {x : α} (hl : SortedBy key l) (hx : x ∈ l.head?) :
    ∀ a ∈ l, key x ≤ key a := by
  obtain ⟨l, rfl⟩ := List.head?_eq_some_iff.1 hx
  intro a ha
  rcases List.mem_cons.1 ha with rfl | ha
  · exact le_refl _
  · exact (List.pairwise_cons.1 hl).1 a ha

/-- An element that the comparison puts where its key belongs, against every element of the
    container, keeps the container sorted. -/
theorem SortedBy.place (hl : SortedBy key l) (hlt : ∀ u ∈ l, lt e u = true → key e ≤ key u)
    (hge : ∀ u ∈ l, lt e u = false → key u ≤ key e) (h : place lt l e pos = some l') :
    SortedBy key l' := by
  obtain ⟨hleft, hright, rfl | rfl⟩ := place_eq_some h
  · exact hl
  have hparts : SortedBy key (l.take pos ++ l.drop pos) := by
    rw [List.take_append_drop]
    exact hl
  obtain ⟨htake, hdrop, hcross⟩ := List.pairwise_append.1 hparts
  -- the neighbours of the gap stand for all elements on their sides
  have hbefore : ∀ a ∈ l.take pos, key a ≤ key e := by
    intro a ha
    cases hlast : (l.take pos).getLast? with
    | none =>
        rw [List.getLast?_eq_none_iff.1 hlast] at ha
        exact absurd ha (by simp)
    | some x =>
        have hx : x ∈ l := List.mem_of_mem_take (List.mem_of_getLast? hlast)
        exact (SortedBy.le_getLast htake hlast a ha).trans (hge x hx (hleft x hlast))
  have hbehind : ∀ b ∈ l.drop pos, key e ≤ key b := by
    intro b hb
    cases hhead : (l.drop pos).head? with
    | none =>
        rw [List.head?_eq_none_iff.1 hhead] at hb
        exact absurd hb (by simp)
    | some x =>
        have hx : x ∈ l := List.mem_of_mem_drop (List.mem_of_head? hhead)
        exact (hlt x hx (hright x hhead)).trans (SortedBy.head_le hdrop hhead b hb)
  refine List.pairwise_append.2 ⟨htake, List.pairwise_cons.2 ⟨hbehind, hdrop⟩, ?_⟩
  intro a ha b hb
  rcases List.mem_cons.1 hb with rfl | hb
  · exact hbefore a ha
  · exact hcross a ha b hb

/-- The elements up to the first later one are the elements that are not later. -/
theorem SortedBy.takeWhile_eq_filter (hl : SortedBy key l) (n : κ) :
    (l.takeWhile fun e => !decide (n < key e)) = l.filter fun e => !decide (n < key e) := by
  induction l with
  | nil => rfl
  | cons x xs ih =>
      obtain ⟨hx, hxs⟩ := List.pairwise_cons.1 hl
      by_cases hlater : n < key x
      · have hnone : ∀ e ∈ xs, ¬ (!decide (n < key e)) = true := by
          intro e he
          simpa using hlater.trans_le (hx e he)
        rw [List.takeWhile_cons_of_neg (by simpa using hlater),
          List.filter_cons_of_neg (by simpa using hlater), List.filter_eq_nil_iff.2 hnone]
      · rw [List.takeWhile_cons_of_pos (by simpa using hlater),
          List.filter_cons_of_pos (by simpa using hlater), ih hxs]

theorem SortedBy.dropWhile_eq_filter (hl : SortedBy key l) (n : κ) :
    (l.dropWhile fun e => !decide (n < key e)) = l.filter fun e => decide (n < key e) := by
  induction l with
  | nil => rfl
  | cons x xs ih =>
      obtain ⟨hx, hxs⟩ := List.pairwise_cons.1 hl
      by_cases hlater : n < key x
      · have hall : ∀ e ∈ xs, decide (n < key e) = true := by
          intro e he
          simpa using hlater.trans_le (hx e he)
        rw [List.dropWhile_cons_of_neg (by simpa using hlater),
          List.filter_cons_of_pos (by simpa using hlater), List.filter_eq_self.2 hall]
      · rw [List.dropWhile_cons_of_pos (by simpa using hlater),
          List.filter_cons_of_neg (by simpa using hlater), ih hxs]

end

/-! ## Two keys -/

section

variable {ι : Type w} [LinearOrder κ] [LinearOrder ι] {key : α → κ} {id : α → ι} {S : Set α}
  {a b : α}

/-- One of the two keys is smaller. -/
def EitherLess (key : α → κ) (id : α → ι) (a b : α) : Prop := key a < key b ∨ id a < id b

/-- Where the keys never disagree, either of them decides as the pair of them does. -/
theorem eitherLess_iff_toLex (hagree : MonovaryOn id key S) (ha : a ∈ S) (hb : b ∈ S) :
    EitherLess key id a b ↔ toLex (key a, id a) < toLex (key b, id b) := by
  rw [Prod.Lex.toLex_lt_toLex, EitherLess]
  constructor
  · rintro (hkey | hid)
    · exact Or.inl hkey
    · exact (hagree.symm ha hb hid).lt_or_eq.imp_right fun heq => ⟨heq, hid⟩
  · exact Or.imp_right And.right

/-- Of two elements whose keys disagree each would precede the other. -/
theorem monovaryOn_of_asymm
    (hasymm : ∀ a ∈ S, ∀ b ∈ S, EitherLess key id a b → ¬ EitherLess key id b a) :
    MonovaryOn id key S := by
  intro a ha b hb hkey
  by_contra hid
  exact hasymm a ha b hb (Or.inl hkey) (Or.inr (not_le.1 hid))

theorem isStrictWeakOrder_of_monovaryOn (hagree : MonovaryOn id key S) :
    IsStrictWeakOrder S fun a b => EitherLess key id a.1 b.1 := by
  have hpair : (fun a b : S => EitherLess key id a.1 b.1)
      = Order.Preimage (fun a : S => toLex (key a.1, id a.1)) (· < ·) := by
    funext a b
    exact propext (eitherLess_iff_toLex hagree a.2 b.2)
  have hlex : IsStrictWeakOrder (κ ×ₗ ι) (· < ·) := isStrictWeakOrder_of_isOrderConnected
  rw [hpair]
  infer_instance

/-- Elements that the comparison does not tell apart have equal keys. -/
theorem eq_of_not_eitherLess (hab : ¬ EitherLess key id a b) (hba : ¬ EitherLess key id b a) :
    key a = key b ∧ id a = id b := by
  rw [EitherLess, not_or, not_lt, not_lt] at hab hba
  exact ⟨le_antisymm hba.1 hab.1, le_antisymm hba.2 hab.2⟩

end

end Ordered
