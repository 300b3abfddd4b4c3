import Mathlib.Algebra.GroupWithZero.Nat
import Mathlib.Data.List.Perm.Basic

set_option autoImplicit false

/-! # Lists of program counters

The threads of a system are the list of their program counters, and a step moves one of them:
`pcs.set i pc'` where `pcs[i]? = some pc`. What counts threads changes by what the one that moves
counts, and what the threads hold changes by what that one holds.

`Owns p pcs owner` says that a mutex is held by the thread that is where `p` holds, if there is one.
It is kept by locking a free mutex, by unlocking, and by steps that do neither. -/

universe u v

namespace Threads

variable {π : Type u} {α : Type v} {pcs : List π} {i j : Nat} {pc pc' x : π}

theorem lt_length (h : pcs[i]? = some pc) : i < pcs.length := (List.getElem?_eq_some_iff.1 h).1

theorem mem (h : pcs[i]? = some pc) : pc ∈ pcs := List.mem_of_getElem? h

/-- Where a thread is after a step: it is the one that moved, or it is where it was. -/
theorem getElem?_set (h : pcs[i]? = some pc) (hj : (pcs.set i pc')[j]? = some x) :
    j = i ∧ x = pc' ∨ j ≠ i ∧ pcs[j]? = some x := by
  rw [List.getElem?_set] at hj
  split at hj
  · next heq =>
      rw [if_pos (lt_length h)] at hj
      exact Or.inl ⟨heq.symm, (Option.some.inj hj).symm⟩
  · next hne => exact Or.inr ⟨Ne.symm hne, hj⟩

theorem getElem?_set_self (h : pcs[i]? = some pc) : (pcs.set i pc')[i]? = some pc' :=
  List.getElem?_set_self (lt_length h)

/-- The others are where they were. -/
theorem getElem?_set_of_ne (h : pcs[j]? = some x) (hne : j ≠ i) : (pcs.set i pc')[j]? = some x :=
  (List.getElem?_set_ne (Ne.symm hne)).trans h

theorem countP_set (p : π → Bool) (h : pcs[i]? = some pc) (pc' : π) :
    (pcs.set i pc').countP p + (p pc).toNat = pcs.countP p + (p pc').toNat := by
  induction pcs generalizing i with
  | nil => exact absurd h (by simp)
  | cons y pcs ih =>
      cases i with
      | zero =>
          obtain rfl : y = pc := by simpa using h
          simp only [List.set_cons_zero, List.countP_cons]
          cases p y <;> cases p pc' <;> simp
      | succ i =>
          have hrest := ih (i := i) (by simpa using h)
          simp only [List.set_cons_succ, List.countP_cons]
          omega

/-- A thread that moves changes a sum by what it counts for. -/
theorem sum_map_set (f : π → Nat) (h : pcs[i]? = some pc) (pc' : π) :
    ((pcs.set i pc').map f).sum + f pc = (pcs.map f).sum + f pc' := by
  induction pcs generalizing i with
  | nil => exact absurd h (by simp)
  | cons x xs ih =>
      cases i with
      | zero =>
          obtain rfl : x = pc := by simpa using h
          simp only [List.set_cons_zero, List.map_cons, List.sum_cons]
          omega
      | succ i =>
          have hrest := ih (by simpa using h)
          simp only [List.set_cons_succ, List.map_cons, List.sum_cons]
          omega

theorem filterMap_set (f : π → Option α) (h : pcs[i]? = some pc) (pc' : π) :
    ((f pc).toList ++ (pcs.set i pc').filterMap f).Perm
      ((f pc').toList ++ pcs.filterMap f) := by
  induction pcs generalizing i with
  | nil => exact absurd h (by simp)
  | cons y pcs ih =>
      have hcons (z : π) (zs : List π) :
          (z :: zs).filterMap f = (f z).toList ++ zs.filterMap f := by
        cases hz : f z <;> simp [hz]
      cases i with
      | zero =>
          obtain rfl : y = pc := by simpa using h
          simp only [List.set_cons_zero, hcons]
          exact List.perm_append_comm_assoc _ _ _
      | succ i =>
          have hrest := ih (i := i) (by simpa using h)
          simp only [List.set_cons_succ, hcons]
          refine (List.perm_append_comm_assoc _ _ _).trans ?_
          refine (hrest.append_left _).trans ?_
          exact List.perm_append_comm_assoc _ _ _

/-- Two threads hold the same only if they are one. -/
theorem eq_of_nodup_filterMap {f : π → Option α} (h : (pcs.filterMap f).Nodup) {a : α}
    (hi : pcs[i]? = some pc) (hj : pcs[j]? = some pc') (hpc : f pc = some a)
    (hpc' : f pc' = some a) : i = j := by
  obtain ⟨hlt, rfl⟩ := List.getElem?_eq_some_iff.1 hi
  obtain ⟨hlt', rfl⟩ := List.getElem?_eq_some_iff.1 hj
  have hpair := List.pairwise_iff_getElem.1 (List.pairwise_filterMap.1 h)
  rcases Nat.lt_trichotomy i j with hless | heq | hless
  · exact absurd rfl (hpair i j hlt hlt' hless a hpc a hpc')
  · exact heq
  · exact absurd rfl (hpair j i hlt' hlt hless a hpc' a hpc)

/-- What relates where a thread was to where it is, when only one moves. -/
theorem exists_getElem?_set {R : π → π → Prop} (hrefl : ∀ x, R x x) (h : pcs[i]? = some pc)
    (hmove : R pc pc') (hx : pcs[j]? = some x) : ∃ x', (pcs.set i pc')[j]? = some x' ∧ R x x' := by
  by_cases heq : j = i
  · subst heq
    obtain rfl : pc = x := Option.some.inj (h.symm.trans hx)
    exact ⟨pc', getElem?_set_self h, hmove⟩
  · exact ⟨x, getElem?_set_of_ne hx heq, hrefl x⟩

theorem countP_pos_iff {p : π → Bool} :
    0 < pcs.countP p ↔ ∃ (i : Nat) (pc : π), pcs[i]? = some pc ∧ p pc = true := by
  rw [List.countP_pos_iff]
  constructor
  · rintro ⟨pc, hmem, hp⟩
    obtain ⟨i, hi⟩ := List.getElem?_of_mem hmem
    exact ⟨i, pc, hi, hp⟩
  · rintro ⟨i, pc, hi, hp⟩
    exact ⟨pc, List.mem_of_getElem? hi, hp⟩

theorem mem_set (h : x ∈ pcs.set i pc') : x ∈ pcs ∨ x = pc' := List.mem_or_eq_of_mem_set h

theorem mem_set_self (h : pcs[i]? = some pc) : pc' ∈ pcs.set i pc' :=
  mem (getElem?_set_self h)

/-- The others stay. -/
theorem mem_or_mem_set (h : pcs[i]? = some pc) (hx : x ∈ pcs) : x = pc ∨ x ∈ pcs.set i pc' := by
  obtain ⟨j, hj⟩ := List.getElem?_of_mem hx
  by_cases heq : i = j
  · subst heq
    exact Or.inl (Option.some.inj (hj.symm.trans h))
  · refine Or.inr (mem (i := j) ?_)
    rw [List.getElem?_set_ne heq, hj]

/-- A thread that moves from and to a place without `p` makes no difference to `p`. -/
theorem exists_mem_set_iff {p : π → Bool} (h : pcs[i]? = some pc) (hp : p pc = false)
    (hp' : p pc' = false) : (∃ x ∈ pcs.set i pc', p x = true) ↔ ∃ x ∈ pcs, p x = true := by
  constructor
  · rintro ⟨x, hx, hpx⟩
    rcases mem_set hx with hold | rfl
    · exact ⟨x, hold, hpx⟩
    · exact absurd hpx (by simp [hp'])
  · rintro ⟨x, hx, hpx⟩
    rcases mem_or_mem_set h hx with rfl | hnew
    · exact absurd hpx (by simp [hp])
    · exact ⟨x, hnew, hpx⟩

/-! ## Mutexes -/

/-- The thread that is where `p` holds is the one that has locked the mutex. -/
def Owns (p : π → Bool) (pcs : List π) (owner : Option Nat) : Prop :=
  ∀ (i : Nat) (pc : π), pcs[i]? = some pc → (p pc = true ↔ owner = some i)

variable {p : π → Bool} {owner : Option Nat}

theorem Owns.eq_of_mem (h : Owns p pcs owner) {x y : π} (hx : x ∈ pcs) (hy : y ∈ pcs)
    (hpx : p x = true) (hpy : p y = true) : x = y := by
  obtain ⟨i, hi⟩ := List.getElem?_of_mem hx
  obtain ⟨j, hj⟩ := List.getElem?_of_mem hy
  have howner := (h i x hi).1 hpx
  rw [(h j y hj).1 hpy, Option.some.injEq] at howner
  subst howner
  exact Option.some.inj (hi.symm.trans hj)

/-- Nobody is where `p` holds while the mutex is free. -/
theorem Owns.of_free (h : Owns p pcs none) (hx : x ∈ pcs) : p x = false := by
  obtain ⟨i, hi⟩ := List.getElem?_of_mem hx
  have := h i x hi
  simpa using this

theorem Owns.of_none (h : ∀ x ∈ pcs, p x = false) : Owns p pcs none := by
  intro i x hi
  rw [h x (mem hi)]
  simp

/-- One more thread, which holds the mutex. -/
theorem Owns.of_last (h : ∀ x ∈ pcs, p x = false) (hp : p pc = true) :
    Owns p (pcs ++ [pc]) (some pcs.length) := by
  intro i x hi
  rcases Nat.lt_or_ge i pcs.length with hlt | hge
  · rw [List.getElem?_append_left hlt] at hi
    rw [h x (mem hi), Option.some.injEq]
    exact iff_of_false Bool.false_ne_true (Nat.ne_of_gt hlt)
  · obtain rfl : i = pcs.length := by
      have hi' := lt_length hi
      rw [List.length_append, List.length_singleton] at hi'
      exact Nat.le_antisymm (Nat.le_of_lt_succ hi') hge
    obtain rfl : pc = x := by simpa using hi
    exact iff_of_true hp rfl

theorem Owns.set (h : Owns p pcs owner) (hpc : pcs[i]? = some pc) (hsame : p pc' = p pc) :
    Owns p (pcs.set i pc') owner := by
  intro j x hj
  rcases getElem?_set hpc hj with ⟨rfl, rfl⟩ | ⟨-, hx⟩
  · rw [hsame]
    exact h j pc hpc
  · exact h j x hx

theorem Owns.lock (h : Owns p pcs none) (hpc : pcs[i]? = some pc) (hp : p pc' = true) :
    Owns p (pcs.set i pc') (some i) := by
  intro j x hj
  rcases getElem?_set hpc hj with ⟨rfl, rfl⟩ | ⟨hne, hx⟩
  · exact iff_of_true hp rfl
  · refine iff_of_false ?_ fun heq => hne (Option.some.inj heq).symm
    rw [h.of_free (mem hx)]
    exact Bool.false_ne_true

theorem Owns.unlock (h : Owns p pcs owner) (hpc : pcs[i]? = some pc) (hp : p pc = true)
    (hp' : p pc' = false) : Owns p (pcs.set i pc') none := by
  intro j x hj
  refine iff_of_false ?_ (by simp)
  rcases getElem?_set hpc hj with ⟨rfl, rfl⟩ | ⟨hne, hx⟩
  · simp [hp']
  · intro hpx
    have howner := (h i pc hpc).1 hp
    rw [(h j x hx).1 hpx, Option.some.injEq] at howner
    exact hne howner

theorem Owns.map {f : π → π} (h : Owns p pcs owner) (hf : ∀ pc, p (f pc) = p pc) :
    Owns p (pcs.map f) owner := by
  intro i x hi
  rw [List.getElem?_map, Option.map_eq_some_iff] at hi
  obtain ⟨y, hy, rfl⟩ := hi
  rw [hf]
  exact h i y hy

end Threads
