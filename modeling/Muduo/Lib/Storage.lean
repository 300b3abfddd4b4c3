import Mathlib.Data.List.Basic

set_option autoImplicit false

/-! # Bounds-checked storage

A block of memory is the list of its cells. Every access is checked: `store`, `load` and
`copyWithin` answer `none` when a cell outside the block would be touched, so a component written
with them is memory safe exactly when it never answers `none`. `slice mem i j` is the half-open
range `[i, j)` of the cells.

`copyWithin` is the element-by-element forward loop of an overlapping copy. `copyWithin_eq_store`
says that it moves the range as a whole when the destination starts no later than the source. -/

universe u

namespace Storage

variable {α : Type u}

/-- The cells `[i, j)`. -/
def slice (mem : List α) (i j : Nat) : List α := (mem.take j).drop i

/-- Read `n` cells from `i` on. -/
def load (mem : List α) (i n : Nat) : Option (List α) :=
  if i + n ≤ mem.length then some (slice mem i (i + n)) else none

/-- Overwrite the cells from `i` on with `xs`. -/
def store (mem : List α) (i : Nat) (xs : List α) : Option (List α) :=
  if i + xs.length ≤ mem.length then some (mem.take i ++ xs ++ mem.drop (i + xs.length)) else none

/-- Copy `n` cells from `src` on to `dst` on, one after the other, first cell first. -/
def copyWithin (mem : List α) (src dst : Nat) : Nat → Option (List α)
  | 0 => some mem
  | n + 1 =>
      match mem[src]? with
      | none => none
      | some x =>
          if dst < mem.length then copyWithin (mem.set dst x) (src + 1) (dst + 1) n else none

/-- Grow with `fill` cells or shrink from the end to exactly `n` cells. -/
def resize (fill : α) (mem : List α) (n : Nat) : List α :=
  mem.take n ++ List.replicate (n - mem.length) fill

theorem exists_store (mem : List α) (i : Nat) (xs : List α) (h : i + xs.length ≤ mem.length) :
    ∃ mem', store mem i xs = some mem' := ⟨_, if_pos h⟩

theorem store_eq_none {mem : List α} {i : Nat} {xs : List α} (h : mem.length < i + xs.length) :
    store mem i xs = none := if_neg (by omega)

/-! ## Lengths -/

@[simp] theorem length_slice (mem : List α) (i j : Nat) :
    (slice mem i j).length = min j mem.length - i := by
  simp [slice]

theorem length_store {mem mem' : List α} {i : Nat} {xs : List α} (h : store mem i xs = some mem') :
    mem'.length = mem.length := by
  simp only [store, Option.ite_none_right_eq_some, Option.some.injEq] at h
  obtain ⟨hle, rfl⟩ := h
  simp only [List.length_append, List.length_take, List.length_drop]
  omega

@[simp] theorem length_resize (fill : α) (mem : List α) (n : Nat) :
    (resize fill mem n).length = n := by
  simp only [resize, List.length_append, List.length_take, List.length_replicate]
  omega

theorem length_copyWithin {mem mem' : List α} {src dst n : Nat}
    (h : copyWithin mem src dst n = some mem') : mem'.length = mem.length := by
  induction n generalizing mem src dst with
  | zero => rw [Option.some.inj h]
  | succ n ih =>
      simp only [copyWithin] at h
      split at h
      · exact absurd h (by simp)
      · simp only [Option.ite_none_right_eq_some] at h
        rw [ih h.2, List.length_set]

/-! ## Slices of what was stored or resized -/

@[simp] theorem slice_self (mem : List α) (i : Nat) : slice mem i i = [] := by
  simp [slice]

theorem drop_slice (mem : List α) (i j n : Nat) : (slice mem i j).drop n = slice mem (i + n) j := by
  simp [slice, List.drop_drop]

theorem take_slice (mem : List α) (i j n : Nat) (h : i + n ≤ j) :
    (slice mem i j).take n = slice mem i (i + n) := by
  simp only [slice, List.take_drop, List.take_take]
  rw [Nat.min_eq_left h]

/-- Storing right behind the range `[i, j)` extends the range by what was stored. -/
theorem slice_store_append {mem mem' : List α} {i j : Nat} {xs : List α} (hij : i ≤ j)
    (h : store mem j xs = some mem') : slice mem' i (j + xs.length) = slice mem i j ++ xs := by
  simp only [store, Option.ite_none_right_eq_some, Option.some.injEq] at h
  obtain ⟨hle, rfl⟩ := h
  have hlen : (mem.take j ++ xs).length = j + xs.length := by
    simp only [List.length_append, List.length_take]
    omega
  have htake : (mem.take j ++ xs ++ mem.drop (j + xs.length)).take (j + xs.length)
      = mem.take j ++ xs := by
    rw [← hlen]
    exact List.take_left
  rw [slice, htake, slice, List.drop_append_of_le_length]
  simp only [List.length_take]
  omega

/-- What was stored reads back. -/
theorem slice_store_self {mem mem' : List α} {i : Nat} {xs : List α}
    (h : store mem i xs = some mem') : slice mem' i (i + xs.length) = xs := by
  simpa using slice_store_append (Nat.le_refl i) h

/-- Of what was stored behind the range, the first cells. -/
theorem slice_store_prefix {mem mem' : List α} {i j : Nat} {xs ys : List α} (hij : i ≤ j)
    (h : store mem j (xs ++ ys) = some mem') :
    slice mem' i (j + xs.length) = slice mem i j ++ xs := by
  have hall := slice_store_append hij h
  have hlen : (slice mem i j ++ xs).length = j + xs.length - i := by
    have hle : j ≤ mem.length := by
      simp only [store, Option.ite_none_right_eq_some] at h
      omega
    rw [List.length_append, length_slice, Nat.min_eq_left hle]
    omega
  have htake := take_slice mem' i (j + (xs ++ ys).length) (j + xs.length - i)
    (by rw [List.length_append]; omega)
  rw [hall, ← List.append_assoc, ← hlen, List.take_left, hlen] at htake
  rw [htake]
  congr 1
  omega

/-- Storing over the first cells of what was stored. -/
theorem store_store {mem mem' : List α} {i : Nat} {xs ys zs : List α}
    (h : store mem i (xs ++ ys) = some mem') (hlen : zs.length = xs.length) :
    store mem' i zs = store mem i (zs ++ ys) := by
  have hmem := length_store h
  simp only [store, Option.ite_none_right_eq_some, Option.some.injEq, List.length_append] at h
  obtain ⟨hle, rfl⟩ := h
  have hfront : (mem.take i).length = i := by
    rw [List.length_take]
    omega
  have htake : (mem.take i ++ (xs ++ ys) ++ mem.drop (i + (xs.length + ys.length))).take i
      = mem.take i := by
    rw [List.append_assoc, List.take_append_of_le_length (by omega),
      List.take_of_length_le (by omega)]
  have hdrop : (mem.take i ++ (xs ++ ys) ++ mem.drop (i + (xs.length + ys.length))).drop
      (i + zs.length) = ys ++ mem.drop (i + (xs.length + ys.length)) := by
    have hsplit : mem.take i ++ (xs ++ ys) ++ mem.drop (i + (xs.length + ys.length))
        = (mem.take i ++ xs) ++ (ys ++ mem.drop (i + (xs.length + ys.length))) := by
      simp only [List.append_assoc]
    have hback : i + zs.length = (mem.take i ++ xs).length := by
      rw [List.length_append, hfront, hlen]
    rw [hsplit, hback, List.drop_left]
  rw [store, store, htake, hdrop, hmem, List.length_append, if_pos (by omega), if_pos (by omega),
    hlen]
  simp only [List.append_assoc]

theorem slice_eq_cons (mem : List α) {i j : Nat} (hij : i < j) (hi : i < mem.length) :
    slice mem i j = mem[i] :: slice mem (i + 1) j := by
  have hcell : i < (mem.take j).length := by
    simp only [List.length_take]
    omega
  simp only [slice]
  rw [List.drop_eq_getElem_cons hcell, List.getElem_take]

theorem slice_resize (fill : α) (mem : List α) {i j n : Nat} (hn : j ≤ n) (hj : j ≤ mem.length) :
    slice (resize fill mem n) i j = slice mem i j := by
  have htake : (resize fill mem n).take j = mem.take j := by
    rw [resize, List.take_append_of_le_length, List.take_take, Nat.min_eq_left hn]
    simp only [List.length_take]
    omega
  simp only [slice, htake]

/-! ## The overlapping forward copy -/

theorem set_eq_append {mem : List α} {i : Nat} (x : α) (hi : i < mem.length) :
    mem.set i x = (mem.take i ++ [x]) ++ mem.drop (i + 1) := by
  rw [List.set_eq_take_append_cons_drop, if_pos hi, List.append_assoc, List.singleton_append]

/-- The first pass of the loop writes one cell; the rest of the source range is still in place
    because the destination lags behind it. -/
theorem slice_set_of_lt (mem : List α) {dst i j : Nat} (x : α) (h : dst < i) :
    slice (mem.set dst x) i j = slice mem i j := by
  apply List.ext_getElem?
  intro k
  simp only [slice, List.getElem?_drop, List.getElem?_take]
  split
  · rw [List.getElem?_set_ne (by omega)]
  · rfl

theorem copyWithin_eq_store (mem : List α) {src dst n : Nat} (hle : dst ≤ src)
    (hsrc : src + n ≤ mem.length) :
    copyWithin mem src dst n = store mem dst (slice mem src (src + n)) := by
  induction n generalizing mem src dst with
  | zero =>
      have hd : dst ≤ mem.length := by omega
      simp [copyWithin, store, hd]
  | succ n ih =>
      have hlt : src < mem.length := by omega
      have hdst : dst < mem.length := by omega
      have hlen : (slice mem (src + 1) (src + 1 + n)).length = n := by
        simp only [length_slice]
        omega
      have hset := set_eq_append mem[src] hdst
      have hfront : (mem.take dst ++ [mem[src]]).length = dst + 1 := by
        simp only [List.length_append, List.length_take, List.length_singleton]
        omega
      simp only [copyWithin, List.getElem?_eq_getElem hlt, hdst, if_true]
      rw [ih _ (by omega) (by simp only [List.length_set]; omega), slice_set_of_lt _ _ (by omega),
        slice_eq_cons mem (by omega) hlt, show src + (n + 1) = src + 1 + n by omega]
      simp only [store, List.length_set, List.length_cons, hlen]
      rw [if_pos (by omega), if_pos (by omega), hset, List.take_append_of_le_length (by omega),
        List.take_of_length_le (by omega), ← hfront, List.drop_length_add_append, List.drop_drop,
        hfront, show dst + 1 + n = dst + (n + 1) by omega]
      simp only [List.append_assoc, List.cons_append, List.nil_append]

end Storage
