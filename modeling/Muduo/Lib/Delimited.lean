import Mathlib.Data.List.Basic

set_option autoImplicit false

/-! # Searching for a delimiter

`search pat l` is the index of the first occurrence of `pat` in `l`, or the length of `l` when there
is none. A delimiter is *unbordered* when its first element does not come back in it; such a
delimiter cannot overlap with itself, so behind a text that does not contain it, it is found where
the text ends, whatever follows, and `split` takes apart what was joined with it. -/

universe u

namespace Delimited

variable {α : Type u} [DecidableEq α]

/-! ## One element -/

theorem idxOf_append_cons {a : α} {l : List α} (h : a ∉ l) (rest : List α) :
    (l ++ a :: rest).idxOf a = l.length := by
  rw [List.idxOf_append_of_notMem h, List.idxOf_cons_self, Nat.add_zero]

omit [DecidableEq α] in
theorem drop_append_cons (a : α) (l rest : List α) :
    (l ++ a :: rest).drop (l.length + 1) = rest := by
  rw [← List.drop_drop, List.drop_left]
  rfl

omit [DecidableEq α] in
theorem length_ne_append_cons (a : α) (l rest : List α) : l.length ≠ (l ++ a :: rest).length := by
  simp

/-- The list in front of an element that is found, and behind it. -/
theorem eq_of_idxOf_ne {a : α} {l : List α} (h : l.idxOf a ≠ l.length) :
    a ∉ l.take (l.idxOf a) ∧ l = l.take (l.idxOf a) ++ a :: l.drop (l.idxOf a + 1) := by
  have hlt : l.idxOf a < l.length := Nat.lt_of_le_of_ne List.idxOf_le_length h
  refine ⟨fun hmem => ?_, ?_⟩
  · have hpos := List.idxOf_lt_length_of_mem hmem
    rw [List.length_take] at hpos
    have htake : (l.take (l.idxOf a)).idxOf a = l.idxOf a := by
      conv_rhs => rw [← List.take_append_drop (l.idxOf a) l]
      rw [List.idxOf_append_of_mem hmem]
    omega
  · have hcell : l[l.idxOf a] = a := List.getElem_idxOf hlt
    conv_lhs => rw [← List.take_append_drop (l.idxOf a) l]
    rw [List.drop_eq_getElem_cons hlt, hcell]

/-! ## A sequence -/

def search (pat : List α) : List α → Nat
  | [] => 0
  | x :: xs => if pat.isPrefixOf (x :: xs) then 0 else search pat xs + 1

theorem search_le_length (pat l : List α) : search pat l ≤ l.length := by
  induction l with
  | nil => exact Nat.le_refl _
  | cons x xs ih =>
      simp only [search, List.length_cons]
      split <;> omega

theorem search_eq_length {pat l : List α} (h : ¬ pat <:+: l) : search pat l = l.length := by
  induction l with
  | nil => rfl
  | cons x xs ih =>
      rw [List.infix_cons_iff, not_or] at h
      simp only [search, List.isPrefixOf_iff_prefix, if_neg h.1, ih h.2, List.length_cons]

theorem search_lt_length {pat l : List α} (hpat : pat ≠ []) (h : pat <:+: l) :
    search pat l < l.length := by
  induction l with
  | nil => exact absurd (List.infix_nil.1 h) hpat
  | cons x xs ih =>
      simp only [search, List.isPrefixOf_iff_prefix, List.length_cons]
      split
      · omega
      · rename_i hx
        have := ih ((List.infix_cons_iff.1 h).resolve_left hx)
        omega

/-- At the index found the list reads `pat`, and nothing before it does. -/
theorem eq_of_search_lt {pat l : List α} (hpat : pat ≠ []) (h : search pat l < l.length) :
    ∃ rest, l = l.take (search pat l) ++ pat ++ rest ∧ ¬ pat <:+: l.take (search pat l) := by
  induction l with
  | nil => simp at h
  | cons x xs ih =>
      by_cases hx : pat <+: x :: xs
      · have h0 : search pat (x :: xs) = 0 := by
          simp only [search, List.isPrefixOf_iff_prefix, if_pos hx]
        obtain ⟨rest, hrest⟩ := hx
        rw [h0]
        exact ⟨rest, by simp [hrest], fun hinf => hpat (List.infix_nil.1 hinf)⟩
      · have hs : search pat (x :: xs) = search pat xs + 1 := by
          simp only [search, List.isPrefixOf_iff_prefix, if_neg hx]
        rw [hs, List.length_cons, Nat.add_lt_add_iff_right] at h
        obtain ⟨rest, hrest, hfree⟩ := ih h
        rw [hs, List.take_succ_cons]
        refine ⟨rest, ?_, fun hinf => ?_⟩
        · rw [List.cons_append, List.cons_append, ← hrest]
        · rcases List.infix_cons_iff.1 hinf with hpre | hinf
          · exact hx (hpre.trans (List.prefix_cons_inj x |>.2 (List.take_prefix _ _)))
          · exact hfree hinf

theorem prefix_drop_search {pat l : List α} (hpat : pat ≠ []) (h : search pat l < l.length) :
    pat <+: l.drop (search pat l) := by
  obtain ⟨rest, hrest, -⟩ := eq_of_search_lt hpat h
  have hlen : (l.take (search pat l)).length = search pat l := by
    rw [List.length_take]
    omega
  have hdrop := congrArg (List.drop (search pat l)) hrest
  rw [List.append_assoc, List.drop_left' hlen] at hdrop
  exact hdrop ▸ List.prefix_append _ _

/-- Nothing that reads `pat` is passed over. -/
theorem search_le {pat l : List α} {n : Nat} (h : pat <+: l.drop n) : search pat l ≤ n := by
  induction l generalizing n with
  | nil => exact Nat.zero_le _
  | cons x xs ih =>
      simp only [search, List.isPrefixOf_iff_prefix]
      split
      · exact Nat.zero_le _
      · rename_i hx
        cases n with
        | zero => exact absurd h hx
        | succ n => exact Nat.succ_le_succ (ih h)

/-! ## Unbordered delimiters -/

omit [DecidableEq α] in
/-- Behind a text without it an unbordered delimiter starts nowhere before the text ends. -/
theorem not_prefix_append {a : α} {p l : List α} (ha : a ∉ p) (hl : ¬ (a :: p) <:+: l)
    (hne : l ≠ []) (rest : List α) : ¬ (a :: p) <+: l ++ (a :: p) ++ rest := by
  intro hpre
  rw [List.append_assoc] at hpre
  rcases List.prefix_or_prefix_of_prefix hpre (List.prefix_append l _) with hin | hcov
  · exact hl hin.isInfix
  · obtain ⟨s, hs⟩ := hcov
    rw [← hs, List.prefix_append_right_inj, hs] at hpre
    cases s with
    | nil =>
        rw [List.append_nil] at hs
        exact hl (hs ▸ List.infix_refl _)
    | cons b s =>
        obtain ⟨t, ht⟩ := hpre
        obtain rfl : b = a := by simpa using congrArg List.head? ht
        cases l with
        | nil => exact hne rfl
        | cons x xs =>
            have htail : xs ++ b :: s = p := by simpa using congrArg List.tail hs
            exact ha (htail ▸ by simp)

theorem search_append {a : α} {p l : List α} (ha : a ∉ p) (hl : ¬ (a :: p) <:+: l)
    (rest : List α) : search (a :: p) (l ++ (a :: p) ++ rest) = l.length := by
  induction l with
  | nil => simp [search, List.isPrefixOf_iff_prefix]
  | cons x xs ih =>
      have hx : ¬ (a :: p) <+: x :: (xs ++ (a :: p) ++ rest) := by
        simpa only [List.cons_append] using not_prefix_append ha hl (List.cons_ne_nil x xs) rest
      have hxs : ¬ (a :: p) <:+: xs := fun h => hl (List.infix_cons_iff.2 (Or.inr h))
      have hstep : search (a :: p) (x :: (xs ++ (a :: p) ++ rest))
          = search (a :: p) (xs ++ (a :: p) ++ rest) + 1 := by
        simp only [search, List.isPrefixOf_iff_prefix, if_neg hx]
      rw [List.length_cons, ← ih hxs, ← hstep, List.cons_append, List.cons_append]

/-- Texts that are each closed by an unbordered delimiter can be told apart. -/
theorem flatMap_append_inj {a : α} {p : List α} (ha : a ∉ p) {ls ls' : List (List α)}
    (hls : ∀ l ∈ ls, ¬ (a :: p) <:+: l) (hls' : ∀ l ∈ ls', ¬ (a :: p) <:+: l)
    (h : ls.flatMap (· ++ (a :: p)) = ls'.flatMap (· ++ (a :: p))) : ls = ls' := by
  induction ls generalizing ls' with
  | nil =>
      cases ls' with
      | nil => rfl
      | cons l' ls' => simp at h
  | cons l ls ih =>
      cases ls' with
      | nil => simp at h
      | cons l' ls' =>
          simp only [List.flatMap_cons] at h
          have hlength : l.length = l'.length := by
            rw [← search_append ha (hls l List.mem_cons_self), h,
              search_append ha (hls' l' List.mem_cons_self)]
          obtain ⟨hhead, htail⟩ := List.append_inj h (by simp [hlength])
          obtain rfl := List.append_cancel_right hhead
          rw [ih (fun l hl => hls l (List.mem_cons_of_mem _ hl))
            (fun l hl => hls' l (List.mem_cons_of_mem _ hl)) htail]

/-! ## Splitting -/

/-- At most `fuel` cuts. -/
def splitLoop (pat : List α) : (fuel : Nat) → List α → List (List α)
  | 0, l => [l]
  | fuel + 1, l =>
      if search pat l < l.length then
        l.take (search pat l) :: splitLoop pat fuel (l.drop (search pat l + pat.length))
      else [l]

/-- The parts of `l` between the occurrences of `pat`. -/
def split (pat l : List α) : List (List α) := splitLoop pat l.length l

omit [DecidableEq α] in
/-- Whether the delimiter stands behind the parts or before them. -/
theorem append_flatMap_comm (sep : List α) (ls : List (List α)) :
    sep ++ ls.flatMap (· ++ sep) = ls.flatMap (sep ++ ·) ++ sep := by
  induction ls with
  | nil => simp
  | cons l ls ih => rw [List.flatMap_cons, List.flatMap_cons, List.append_assoc l, ih]; simp

theorem splitLoop_join {a : α} {p : List α} (ha : a ∉ p) {l : List α} {ls : List (List α)}
    (h : ∀ x ∈ l :: ls, ¬ (a :: p) <:+: x) {fuel : Nat} (hfuel : ls.length ≤ fuel) :
    splitLoop (a :: p) fuel (l ++ ls.flatMap ((a :: p) ++ ·)) = l :: ls := by
  induction ls generalizing l fuel with
  | nil =>
      rw [List.flatMap_nil, List.append_nil]
      cases fuel with
      | zero => rfl
      | succ fuel =>
          rw [splitLoop, search_eq_length (h l List.mem_cons_self), if_neg (Nat.lt_irrefl _)]
  | cons l' ls ih =>
      cases fuel with
      | zero => exact absurd hfuel (by simp)
      | succ fuel =>
          have hnext := ih (l := l') (fun x hx => h x (List.mem_cons_of_mem _ hx))
            (Nat.le_of_succ_le_succ hfuel)
          rw [List.flatMap_cons, List.append_assoc, ← List.append_assoc l, splitLoop,
            search_append ha (h l List.mem_cons_self), if_pos, List.append_assoc, List.take_left,
            ← List.append_assoc, ← List.length_append, List.drop_left, hnext]
          simp

/-- Parts joined by an unbordered delimiter that is in none of them are the parts of the whole. -/
theorem split_join {a : α} {p : List α} (ha : a ∉ p) {l : List α} {ls : List (List α)}
    (h : ∀ x ∈ l :: ls, ¬ (a :: p) <:+: x) :
    split (a :: p) (l ++ ls.flatMap ((a :: p) ++ ·)) = l :: ls := by
  refine splitLoop_join ha h ?_
  have hcount (ls : List (List α)) : ls.length ≤ (ls.flatMap ((a :: p) ++ ·)).length := by
    induction ls with
    | nil => exact Nat.zero_le _
    | cons l ls ih =>
        simp only [List.flatMap_cons, List.length_append, List.length_cons]
        omega
  have hls := hcount ls
  rw [List.length_append]
  omega

/-- The last part is the one that no delimiter closes. -/
theorem split_closed {a : α} {p : List α} (ha : a ∉ p) {ls : List (List α)} {l : List α}
    (hls : ∀ x ∈ ls, ¬ (a :: p) <:+: x) (hl : ¬ (a :: p) <:+: l) :
    split (a :: p) (ls.flatMap (· ++ (a :: p)) ++ l) = ls ++ [l] := by
  cases ls with
  | nil =>
      have hone : ∀ y ∈ [l], ¬ (a :: p) <:+: y := by simpa using hl
      simpa using split_join ha hone
  | cons x xs =>
      have hparts : ∀ y ∈ x :: (xs ++ [l]), ¬ (a :: p) <:+: y := by
        intro y hy
        rw [← List.cons_append, List.mem_append, List.mem_singleton] at hy
        rcases hy with hy | rfl
        · exact hls y hy
        · exact hl
      have hjoin : (x :: xs).flatMap (· ++ (a :: p)) ++ l
          = x ++ (xs ++ [l]).flatMap ((a :: p) ++ ·) := by
        rw [List.flatMap_cons, List.append_assoc x, append_flatMap_comm, List.flatMap_append,
          List.flatMap_singleton]
        simp only [List.append_assoc]
      rw [hjoin, split_join ha hparts, List.cons_append]

/-! ## Two-element delimiters -/

omit [DecidableEq α] in
theorem pair_prefix_cons_iff {a b x : α} {l : List α} :
    [a, b] <+: x :: l ↔ x = a ∧ l.head? = some b := by
  cases l with
  | nil => simp [List.cons_prefix_cons]
  | cons y l => simp [List.cons_prefix_cons, eq_comm]

omit [DecidableEq α] in
theorem pair_prefix_iff_getElem? {a b : α} {l : List α} :
    [a, b] <+: l ↔ l[0]? = some a ∧ l[1]? = some b := by
  cases l with
  | nil => simp
  | cons x l => rw [pair_prefix_cons_iff]; simp [List.head?_eq_getElem?]

omit [DecidableEq α] in
/-- A pair that occurs in neither part occurs in the whole only across the seam. -/
theorem pair_not_infix_append {a b : α} {l r : List α} (hl : ¬ [a, b] <:+: l)
    (hr : ¬ [a, b] <:+: r) (hseam : a ∈ l → r.head? ≠ some b) : ¬ [a, b] <:+: l ++ r := by
  induction l with
  | nil => exact hr
  | cons x xs ih =>
      rw [List.infix_cons_iff, not_or] at hl
      rw [List.cons_append, List.infix_cons_iff, not_or]
      refine ⟨fun hpre => ?_, ih hl.2 fun ha => hseam (List.mem_cons_of_mem _ ha)⟩
      obtain ⟨rfl, hhead⟩ := pair_prefix_cons_iff.1 hpre
      cases xs with
      | nil => exact hseam List.mem_cons_self hhead
      | cons y ys => exact hl.1 (pair_prefix_cons_iff.2 ⟨rfl, hhead⟩)

omit [DecidableEq α] in
theorem pair_not_infix_of_notMem {a b : α} {l : List α} (ha : a ∉ l) : ¬ [a, b] <:+: l :=
  fun h => ha (h.subset List.mem_cons_self)

/-! ## Blank lines

A pair twice in a row is bordered; it is found behind lines that do not contain the first of the two
and are not empty. -/

theorem search_twice_here {a b : α} {l : List α} (ha : a ∉ l) (rest : List α) :
    search [a, b, a, b] (l ++ ([a, b] ++ ([a, b] ++ rest))) = l.length := by
  induction l with
  | nil => simp [search]
  | cons x xs ih =>
      rw [List.mem_cons, not_or] at ha
      have hx : a ≠ x := ha.1
      simp [search, List.isPrefixOf, hx, ← ih ha.2]

theorem search_twice_append {a b : α} (hab : a ≠ b) {l rest : List α} (ha : a ∉ l)
    (hrest : ∀ x ∈ rest.head?, x ≠ a) :
    search [a, b, a, b] (l ++ ([a, b] ++ rest))
      = l.length + 2 + search [a, b, a, b] rest := by
  induction l with
  | nil =>
      cases rest with
      | nil => simp [search, List.isPrefixOf]
      | cons x rest =>
          have hx : a ≠ x := (hrest x rfl).symm
          simp [search, List.isPrefixOf, hab, hx]
          omega
  | cons x xs ih =>
      rw [List.mem_cons, not_or] at ha
      have hx : a ≠ x := ha.1
      have hnext := ih ha.2
      simp only [List.cons_append, List.nil_append] at hnext
      simp [search, List.isPrefixOf, hx, hnext]
      omega

/-- The first blank line is the one behind the lines. -/
theorem search_blank {a b : α} (hab : a ≠ b) {l : List α} {ls : List (List α)}
    (hfree : ∀ x ∈ l :: ls, a ∉ x) (hne : ∀ x ∈ ls, x ≠ []) (rest : List α) :
    search [a, b, a, b] (l ++ ls.flatMap ([a, b] ++ ·) ++ ([a, b] ++ ([a, b] ++ rest)))
      = (l ++ ls.flatMap ([a, b] ++ ·)).length := by
  induction ls generalizing l with
  | nil =>
      rw [List.flatMap_nil, List.append_nil]
      exact search_twice_here (hfree l List.mem_cons_self) rest
  | cons l' ls ih =>
      have hnext := ih (l := l') (fun x hx => hfree x (List.mem_cons_of_mem _ hx))
        fun x hx => hne x (List.mem_cons_of_mem _ hx)
      have hstart : ∀ x ∈ (l' ++ ls.flatMap ([a, b] ++ ·) ++
          ([a, b] ++ ([a, b] ++ rest))).head?, x ≠ a := by
        cases l' with
        | nil => exact absurd rfl (hne [] List.mem_cons_self)
        | cons y ys =>
            intro x hx hxa
            obtain rfl : y = x := by simpa using hx
            exact hfree (y :: ys) (by simp) (hxa ▸ List.mem_cons_self)
      have hassoc : l ++ (l' :: ls).flatMap ([a, b] ++ ·) ++ ([a, b] ++ ([a, b] ++ rest))
          = l ++ ([a, b] ++ (l' ++ ls.flatMap ([a, b] ++ ·) ++ ([a, b] ++ ([a, b] ++ rest)))) := by
        simp only [List.flatMap_cons, List.append_assoc]
      rw [hassoc, search_twice_append hab (hfree l List.mem_cons_self) hstart, hnext]
      simp only [List.flatMap_cons, List.length_append, List.length_cons, List.length_nil]
      omega

end Delimited
