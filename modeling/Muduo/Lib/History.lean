import Muduo.Lib.Machine
import Muduo.Lib.Ordered

set_option autoImplicit false

/-! # Histories

`Machine.observing` is a machine with a note that every step may change and no step looks at. The
successive values of a function, the first state's included, are such a note
(`Machine.recording f`). They are sorted if and only if no step of the run goes back, so a guard
that says exactly which steps do not go back singles out the runs with a sorted history. -/

universe u v w x

namespace Ordered

variable {α : Type u} {κ : Type v} [LinearOrder κ] {key : α → κ}

/-- One more element at the end has to be compared with the last one only. -/
theorem sortedBy_concat_iff {l : List α} {last x : α} (hlast : l.getLast? = some last) :
    SortedBy key (l ++ [x]) ↔ SortedBy key l ∧ key last ≤ key x := by
  constructor
  · intro h
    obtain ⟨hl, -, hcross⟩ := List.pairwise_append.1 h
    exact ⟨hl, hcross last (List.mem_of_getLast? hlast) x (by simp)⟩
  · rintro ⟨hl, hle⟩
    refine List.pairwise_append.2 ⟨hl, List.pairwise_singleton _ x, ?_⟩
    intro a ha b hb
    rw [List.mem_singleton.1 hb]
    exact (hl.le_getLast hlast a ha).trans hle

end Ordered

namespace Machine

variable {σ : Type u} {α : Type v} {β : Type w} {γ : Type w} {κ : Type x}
variable {M : Machine σ α} {ok : σ → α → Prop} {f : σ → β} {as : List α} {p : σ × List β}

/-- The machine with a note: `first` of the initial state, and `note` of every step behind it. -/
def observing (M : Machine σ α) (first : σ → γ) (note : γ → σ → α → σ → γ) :
    Machine (σ × γ) α where
  init p := M.init p.1 ∧ p.2 = first p.1
  step p a := (M.step p.1 a).map fun s => (s, note p.2 p.1 a s)

/-- The note does not get in the way. -/
theorem Reaches.of_observing {first : σ → γ} {note : γ → σ → α → σ → γ} {q : σ × γ}
    {ok : σ × γ → α → Prop} {ok' : σ → α → Prop} (run : (M.observing first note).Reaches ok as q)
    (hok : ∀ q a, ok q a → ok' q.1 a) : M.Reaches ok' as q.1 := by
  induction run with
  | init h => exact .init h.1
  | step _ guard h ih =>
      obtain ⟨s, hs, rfl⟩ := Option.map_eq_some_iff.1 h
      exact ih.step (hok _ _ guard) hs

/-- The machine with the successive values of `f`. -/
def recording (M : Machine σ α) (f : σ → β) : Machine (σ × List β) α :=
  M.observing (fun s => [f s]) fun history _ _ s => history ++ [f s]

theorem Reaches.getLast_history {ok : σ × List β → α → Prop}
    (run : (M.recording f).Reaches ok as p) : p.2.getLast? = some (f p.1) := by
  induction run with
  | init h =>
      rw [h.2]
      rfl
  | step _ _ h _ =>
      obtain ⟨s, -, rfl⟩ := Option.map_eq_some_iff.1 h
      simp

section

variable [LinearOrder κ] {key : β → κ} {I : σ → Prop}

/-- Steps that do not go back make a sorted history. -/
theorem Reaches.sortedBy_history (run : (M.recording f).Reaches (fun p a => ok p.1 a) as p)
    (hinv : ∀ as s, M.Reaches ok as s → I s)
    (hstep : ∀ s a t, I s → ok s a → M.step s a = some t → key (f s) ≤ key (f t)) :
    Ordered.SortedBy key p.2 := by
  induction run with
  | init h =>
      rw [h.2]
      exact List.pairwise_singleton _ _
  | @step as p q a run guard h ih =>
      obtain ⟨s, hs, rfl⟩ := Option.map_eq_some_iff.1 h
      have hI : I p.1 := hinv as p.1 (run.of_observing fun _ _ hok => hok)
      exact (Ordered.sortedBy_concat_iff run.getLast_history).2 ⟨ih, hstep p.1 a s hI guard hs⟩

/-- A guard that holds of exactly the steps that do not go back. -/
theorem Reaches.sortedBy_history_iff (run : (M.recording f).Reaches anyStep as p)
    (hinv : ∀ as s, M.Reaches anyStep as s → I s)
    (hstep : ∀ s a t, I s → M.step s a = some t → (ok s a ↔ key (f s) ≤ key (f t))) :
    Ordered.SortedBy key p.2 ↔ (M.recording f).Reaches (fun p a => ok p.1 a) as p := by
  constructor
  · intro hsorted
    induction run with
    | init h => exact .init h
    | @step as p q a run _ h ih =>
        obtain ⟨s, hs, rfl⟩ := Option.map_eq_some_iff.1 h
        have hI : I p.1 := hinv as p.1 (run.of_observing fun _ _ _ => trivial)
        obtain ⟨hprev, hle⟩ := (Ordered.sortedBy_concat_iff run.getLast_history).1 hsorted
        exact (ih hprev).step ((hstep p.1 a s hI hs).2 hle) h
  · intro hrun
    exact hrun.sortedBy_history (fun as s h => hinv as s (h.mono fun _ _ _ => trivial))
      fun s a t hI hok h => (hstep s a t hI h).1 hok

end

end Machine
