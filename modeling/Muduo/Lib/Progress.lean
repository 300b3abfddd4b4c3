import Muduo.Lib.Machine
import Mathlib.Order.WellFounded

set_option autoImplicit false

/-! # Progress

A rank in a well-founded order that no step raises and every step of progress lowers: in an infinite
continuation there are only finitely many steps of progress. This is how a loop is shown to be left,
whatever the other steps do in between. Where every step lowers a rank that is a number, there are
no more steps than that (`exec_countP_le`). -/

universe u v w

namespace Machine

variable {σ : Type u} {α : Type v} {ω : Type w} {M : Machine σ α}

/-- An infinite sequence of steps from `s`. -/
structure Continues (M : Machine σ α) (s : σ) (states : Nat → σ) (labels : Nat → α) : Prop where
  start : states 0 = s
  step : ∀ n, M.step (states n) (labels n) = some (states (n + 1))

variable {s : σ} {states : Nat → σ} {labels : Nat → α}

theorem Continues.invariant {I : σ → Prop} (run : M.Continues s states labels) (hs : I s)
    (hstep : ∀ s a t, I s → M.step s a = some t → I t) (n : Nat) : I (states n) := by
  induction n with
  | zero => exact run.start ▸ hs
  | succ n ih => exact hstep _ _ _ ih (run.step n)

theorem Continues.finitely_many [Preorder ω] [WellFoundedLT ω] {I : σ → Prop}
    (run : M.Continues s states labels) (rank : σ → ω) (progress : α → Prop) (hs : I s)
    (hkeep : ∀ s a t, I s → M.step s a = some t → I t)
    (hle : ∀ s a t, I s → M.step s a = some t → rank t ≤ rank s)
    (hlt : ∀ s a t, I s → M.step s a = some t → progress a → rank t < rank s) :
    ∃ N, ∀ n, N ≤ n → ¬ progress (labels n) := by
  have hinv := run.invariant hs hkeep
  obtain ⟨_, ⟨N, rfl⟩, hmin⟩ := WellFounded.has_min (wellFounded_lt (α := ω))
    (Set.range fun n => rank (states n)) ⟨_, Set.mem_range_self 0⟩
  -- from the place where the rank is least on, it cannot fall any more
  have hbelow : ∀ n, N ≤ n → rank (states n) ≤ rank (states N) := by
    intro n hn
    induction n, hn using Nat.le_induction with
    | base => exact le_refl _
    | succ n _ ih => exact (hle _ _ _ (hinv n) (run.step n)).trans ih
  refine ⟨N, ?_⟩
  intro n hn hprogress
  have hfall := hlt _ _ _ (hinv n) (run.step n) hprogress
  exact hmin _ (Set.mem_range_self (n + 1)) (hfall.trans_le (hbelow n hn))

/-- Where the rank is a number there are no more steps of progress than that. -/
theorem exec_countP_le {ok : σ → α → Prop} [∀ s a, Decidable (ok s a)] (rank : σ → Nat)
    (progress : α → Bool) {I : σ → Prop} (hkeep : ∀ s a t, I s → M.step s a = some t → I t)
    {as : List α} {t : σ} (hle : ∀ s, ∀ a ∈ as, ∀ t, I s → M.step s a = some t → rank t ≤ rank s)
    (hlt : ∀ s, ∀ a ∈ as, ∀ t, I s → M.step s a = some t → progress a = true → rank t < rank s)
    (hs : I s) (h : M.exec ok s as = some t) : as.countP progress + rank t ≤ rank s := by
  induction as generalizing s with
  | nil =>
      obtain rfl : s = t := by simpa [exec] using h
      simp
  | cons a as ih =>
      simp only [exec, Option.ite_none_right_eq_some, Option.bind_eq_some_iff] at h
      obtain ⟨-, u, hu, hrest⟩ := h
      have hfall := hle s a List.mem_cons_self u hs hu
      have hcount := ih (fun s a ha => hle s a (List.mem_cons_of_mem _ ha))
        (fun s a ha => hlt s a (List.mem_cons_of_mem _ ha)) (hkeep s a u hs hu) hrest
      rw [List.countP_cons]
      split
      · rename_i hprogress
        have hless := hlt s a List.mem_cons_self u hs hu hprogress
        omega
      · omega

/-- `exec_countP_le` where every step is one of progress. -/
theorem exec_length_le {ok : σ → α → Prop} [∀ s a, Decidable (ok s a)] (rank : σ → Nat)
    {I : σ → Prop} (hkeep : ∀ s a t, I s → M.step s a = some t → I t) {as : List α} {t : σ}
    (hlt : ∀ s, ∀ a ∈ as, ∀ t, I s → M.step s a = some t → rank t < rank s)
    (hs : I s) (h : M.exec ok s as = some t) : as.length + rank t ≤ rank s := by
  have hcount := exec_countP_le rank (fun _ => true) hkeep
    (fun s a ha t hI hstep => Nat.le_of_lt (hlt s a ha t hI hstep))
    (fun s a ha t hI hstep _ => hlt s a ha t hI hstep) hs h
  simpa using hcount

end Machine
