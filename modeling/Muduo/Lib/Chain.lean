import Mathlib.Data.List.Nodup

set_option autoImplicit false

/-! # Chains of links

A singly linked list in a heap: `next` gives the link of a cell, if it has one. `Leads next a cells
b` says that the links lead from `a` through `cells`, `a` itself first, to `b`; the end `b` is not
among `cells`, so that a list with a dummy cell at its end is `Leads` to the dummy. -/

universe u

namespace Chain

variable {ι : Type u} {next next' : ι → Option ι} {a b c : ι} {cells : List ι}

def Leads (next : ι → Option ι) : ι → List ι → ι → Prop
  | a, [], b => a = b
  | a, x :: cells, b => a = x ∧ ∃ a', next a = some a' ∧ Leads next a' cells b

/-- A chain does not notice what happens to other cells. -/
theorem Leads.congr (h : Leads next a cells b) (hsame : ∀ x ∈ cells, next' x = next x) :
    Leads next' a cells b := by
  induction cells generalizing a with
  | nil => exact h
  | cons x cells ih =>
      obtain ⟨rfl, a', hnext, hrest⟩ := h
      refine ⟨rfl, a', ?_, ih hrest fun y hy => hsame y (List.mem_cons_of_mem _ hy)⟩
      rw [hsame a List.mem_cons_self, hnext]

/-- A link from the end makes the chain longer. -/
theorem Leads.concat (h : Leads next a cells b) (hlink : next b = some c) :
    Leads next a (cells ++ [b]) c := by
  induction cells generalizing a with
  | nil =>
      obtain rfl := h
      exact ⟨rfl, c, hlink, rfl⟩
  | cons x cells ih =>
      obtain ⟨rfl, a', hnext, hrest⟩ := h
      exact ⟨rfl, a', hnext, ih hrest⟩

/-- The first cell, when there is one. -/
theorem Leads.head_eq {x : ι} (h : Leads next a (x :: cells) b) : x = a := h.1.symm

/-- Where the first cell is not the end there is a cell, and the other way round. -/
theorem Leads.eq_iff (h : Leads next a cells b) (hend : b ∉ cells) : a = b ↔ cells = [] := by
  cases cells with
  | nil => exact iff_of_true h rfl
  | cons x cells =>
      obtain ⟨rfl, -⟩ := h
      refine iff_of_false ?_ (List.cons_ne_nil _ _)
      rintro rfl
      exact hend List.mem_cons_self

section

variable [DecidableEq ι]

/-- The cells that the links lead through on the way to `stop`, `fuel` of them at most. -/
def walk (next : ι → Option ι) (stop : ι) : (fuel : Nat) → ι → List ι
  | 0, _ => []
  | fuel + 1, a =>
      if a = stop then []
      else
        match next a with
        | some a' => a :: walk next stop fuel a'
        | none => [a]

theorem Leads.walk_eq {fuel : Nat} (h : Leads next a cells b) (hend : b ∉ cells)
    (hfuel : cells.length ≤ fuel) : walk next b fuel a = cells := by
  induction cells generalizing a fuel with
  | nil =>
      obtain rfl := h
      cases fuel <;> simp [walk]
  | cons x cells ih =>
      obtain ⟨rfl, a', hnext, hrest⟩ := h
      obtain ⟨hne, hrestend⟩ := not_or.1 (List.mem_cons.not.1 hend)
      cases fuel with
      | zero => exact absurd hfuel (by simp)
      | succ fuel =>
          rw [walk, if_neg (Ne.symm hne), hnext]
          simp only [ih hrest hrestend (Nat.le_of_succ_le_succ hfuel)]

end

end Chain
