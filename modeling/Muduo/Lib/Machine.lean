import Mathlib.Data.List.Basic

set_option autoImplicit false

/-! # Labelled machines, guarded runs and their rules

A `Machine` is a set of initial states and a partial step function on labels. `Reaches ok as s`
says that the labels `as` lead from an initial state to `s`, every one of them meeting the guard
`ok` in the state before it. The guard is where a verification puts what it assumes of the
environment, so a theorem about guarded runs quantifies over every run that keeps the assumption.

Four rules cover the use made of a machine: `Reaches.invariant` (one step lemma gives the run
lemma), `Reaches.mono` (a weaker guard has more runs), `Reaches.iff_guarded` (a guard that says
exactly which steps keep a property says exactly which runs do) and `Reaches.simulate` (a step-wise
relation to a second machine gives a run of the second machine). `exec` evaluates a run on concrete
labels. -/

universe u v w x

/-- Initial states and a partial step: `step s a = none` when `a` is not enabled in `s`. -/
structure Machine (σ : Type u) (α : Type v) where
  init : σ → Prop
  step : σ → α → Option σ

namespace Machine

variable {σ : Type u} {α : Type v} {τ : Type w} {β : Type x}
variable {M : Machine σ α} {ok ok' : σ → α → Prop} {as : List α} {s t : σ}

/-- The labels `as` lead from an initial state to `s`, each meeting `ok` in the state before it. -/
inductive Reaches (M : Machine σ α) (ok : σ → α → Prop) : List α → σ → Prop
  | init {s : σ} (h : M.init s) : Reaches M ok [] s
  | step {as : List α} {s t : σ} {a : α} (run : Reaches M ok as s) (guard : ok s a)
      (h : M.step s a = some t) : Reaches M ok (as ++ [a]) t

/-- The guard that lets every enabled label through. -/
def anyStep : σ → α → Prop := fun _ _ => True

instance (s : σ) (a : α) : Decidable (anyStep s a) := isTrue trivial

/-- The states some run reaches. -/
def Reachable (M : Machine σ α) (s : σ) : Prop := ∃ as, M.Reaches anyStep as s

theorem Reaches.mono (hok : ∀ s a, ok s a → ok' s a) (run : M.Reaches ok as s) :
    M.Reaches ok' as s := by
  induction run with
  | init h => exact .init h
  | step _ guard h ih => exact .step ih (hok _ _ guard) h

/-- A guard that holds of the labels wherever they are taken. -/
theorem Reaches.of_labels (run : M.Reaches ok as s) (h : ∀ a ∈ as, ∀ s, ok' s a) :
    M.Reaches ok' as s := by
  induction run with
  | init hs => exact .init hs
  | step _ _ hstep ih =>
      rw [List.forall_mem_append, List.forall_mem_singleton] at h
      exact .step (ih h.1) (h.2 _) hstep

/-- Another guard that the steps of the run meet, as far as it is met before them. -/
theorem Reaches.change_guard (run : M.Reaches ok as s)
    (h : ∀ as s a t, M.Reaches ok as s → M.Reaches ok' as s → ok s a → M.step s a = some t →
      ok' s a) : M.Reaches ok' as s := by
  induction run with
  | init hs => exact .init hs
  | step run guard hstep ih => exact .step ih (h _ _ _ _ run ih guard hstep) hstep

theorem Reaches.reachable (run : M.Reaches ok as s) : M.Reachable s :=
  ⟨as, run.mono fun _ _ _ => trivial⟩

/-! ## Invariants -/

/-- What holds initially and is kept by every guarded step holds in every state reached. -/
theorem Reaches.invariant {I : σ → Prop} (run : M.Reaches ok as s)
    (hinit : ∀ s, M.init s → I s)
    (hstep : ∀ s a t, I s → ok s a → M.step s a = some t → I t) : I s := by
  induction run with
  | init h => exact hinit _ h
  | step _ guard h ih => exact hstep _ _ _ ih guard h

/-- `Reaches.invariant` for a property of the labels taken so far and the state. -/
theorem Reaches.history {I : List α → σ → Prop} (run : M.Reaches ok as s)
    (hinit : ∀ s, M.init s → I [] s)
    (hstep : ∀ as s a t, I as s → ok s a → M.step s a = some t → I (as ++ [a]) t) : I as s := by
  induction run with
  | init h => exact hinit _ h
  | step _ guard h ih => exact hstep _ _ _ _ ih guard h

theorem Reachable.invariant {I : σ → Prop} (run : M.Reachable s)
    (hinit : ∀ s, M.init s → I s)
    (hstep : ∀ s a t, I s → M.step s a = some t → I t) : I s :=
  let ⟨_, h⟩ := run
  h.invariant hinit fun s a t hs _ => hstep s a t hs

/-! ## Exact guards -/

/-- A property that a step keeps exactly when it meets `guard` holds of exactly the runs whose steps
    all meet it. -/
theorem Reaches.iff_guarded {P : List α → σ → Prop} {guard : σ → α → Prop}
    (run : M.Reaches ok as s) (hinit : ∀ s, M.init s → P [] s)
    (hstep : ∀ as s a t, M.Reaches ok as s → ok s a → M.step s a = some t →
      (P (as ++ [a]) t ↔ P as s ∧ guard s a)) :
    P as s ↔ M.Reaches (fun s a => ok s a ∧ guard s a) as s := by
  constructor
  · intro hP
    induction run with
    | init h => exact .init h
    | step run hok h ih =>
        obtain ⟨hP, hguard⟩ := (hstep _ _ _ _ run hok h).1 hP
        exact .step (ih hP) ⟨hok, hguard⟩ h
  · intro hguarded
    induction hguarded with
    | init h => exact hinit _ h
    | step hguarded hok h ih =>
        have run := hguarded.mono fun _ _ => And.left
        exact (hstep _ _ _ _ run hok.1 h).2 ⟨ih run, hok.2⟩

/-- The labels lead to one state at most. -/
theorem Reaches.unique (honly : ∀ s t, M.init s → M.init t → s = t) (run : M.Reaches ok as s)
    (run' : M.Reaches ok' as t) : s = t := by
  induction run generalizing t with
  | init h =>
      generalize hnil : ([] : List α) = bs at run'
      cases run' with
      | init h' => exact honly _ _ h h'
      | step => exact absurd hnil.symm (List.append_ne_nil_of_right_ne_nil _ (List.cons_ne_nil _ _))
  | @step as s u a run hok h ih =>
      generalize hlabels : as ++ [a] = bs at run'
      cases run' with
      | init => exact absurd hlabels (List.append_ne_nil_of_right_ne_nil _ (List.cons_ne_nil _ _))
      | @step as' s' _ a' run' _ h' =>
          obtain ⟨rfl, hlast⟩ := List.append_inj' hlabels rfl
          obtain rfl := List.singleton_inj.1 hlast
          obtain rfl := ih run'
          exact Option.some.inj (h.symm.trans h')

/-- `P` holds of every state that the labels lead through. -/
def Throughout (M : Machine σ α) (P : σ → Prop) (as : List α) : Prop :=
  ∀ bs u, bs <+: as → M.Reaches anyStep bs u → P u

/-- A property that every step keeps exactly when it meets `guard` holds throughout exactly the runs
    whose steps all meet it. -/
theorem Reaches.throughout_iff_guarded {P : σ → Prop} {guard : σ → α → Prop}
    (run : M.Reaches anyStep as s) (honly : ∀ s t, M.init s → M.init t → s = t)
    (hinit : ∀ s, M.init s → P s)
    (hstep : ∀ as s a t, M.Reaches anyStep as s → P s → M.step s a = some t → (P t ↔ guard s a)) :
    M.Throughout P as ↔ M.Reaches guard as s := by
  have hiff : M.Throughout P as ↔ M.Reaches (fun s a => anyStep s a ∧ guard s a) as s :=
    run.iff_guarded (P := fun as _ => M.Throughout P as) (fun s hs bs u hbs hu => ?_)
      fun as s a t run _ h => ?_
  · refine hiff.trans ⟨fun hrun => hrun.mono fun _ _ => And.right, fun hrun => ?_⟩
    exact hrun.mono fun _ _ hguard => ⟨trivial, hguard⟩
  · obtain rfl := List.prefix_nil.1 hbs
    have hstart : M.Reaches anyStep [] s := .init hs
    exact hstart.unique honly hu ▸ hinit s hs
  · have hs (hthroughout : M.Throughout P as) : P s :=
      hthroughout as s (List.prefix_refl _) run
    constructor
    · intro hthroughout
      have hbefore : M.Throughout P as := fun bs u hbs =>
        hthroughout bs u (hbs.trans (List.prefix_append _ _))
      refine ⟨hbefore, (hstep as s a t run (hs hbefore) h).1 ?_⟩
      exact hthroughout _ t (List.prefix_refl _) (run.step trivial h)
    · rintro ⟨hbefore, hguard⟩ bs u hbs hu
      rcases List.prefix_concat_iff.1 hbs with rfl | hbs
      · exact (run.step trivial h).unique honly hu ▸
          (hstep as s a t run (hs hbefore) h).2 hguard
      · exact hbefore bs u hbs hu

/-! ## Simulation -/

/-- A relation that every guarded step keeps, `f a` naming the step the second machine answers `a`
    with (`none`: it stays where it is), carries a run over to the second machine. -/
theorem Reaches.simulate {N : Machine τ β} {R : σ → τ → Prop} (f : α → Option β)
    (run : M.Reaches ok as s)
    (hinit : ∀ s, M.init s → ∃ q, N.init q ∧ R s q)
    (hstep : ∀ s q a t, R s q → ok s a → M.step s a = some t →
      match f a with
      | none => R t q
      | some b => ∃ q', N.step q b = some q' ∧ R t q') :
    ∃ q, N.Reaches anyStep (as.filterMap f) q ∧ R s q := by
  induction run with
  | init h =>
      obtain ⟨q, hq, hR⟩ := hinit _ h
      exact ⟨q, .init hq, hR⟩
  | @step as s t a _ guard h ih =>
      obtain ⟨q, hq, hR⟩ := ih
      have hnext := hstep s q a t hR guard h
      rw [List.filterMap_append]
      cases hfa : f a with
      | none =>
          rw [hfa] at hnext
          exact ⟨q, by simpa [hfa] using hq, hnext⟩
      | some b =>
          rw [hfa] at hnext
          obtain ⟨q', hb, hR'⟩ := hnext
          exact ⟨q', by simpa [hfa] using hq.step trivial hb, hR'⟩

/-- `Reaches.simulate` where the answer to a step depends on more than its label. -/
theorem Reaches.simulated {N : Machine τ β} {R : σ → τ → Prop} (run : M.Reaches ok as s)
    (hinit : ∀ s, M.init s → ∃ q, N.init q ∧ R s q)
    (hstep : ∀ s q a t, R s q → ok s a → M.step s a = some t →
      R t q ∨ ∃ b q', N.step q b = some q' ∧ R t q') : ∃ q, N.Reachable q ∧ R s q := by
  induction run with
  | init h =>
      obtain ⟨q, hq, hR⟩ := hinit _ h
      exact ⟨q, ⟨[], .init hq⟩, hR⟩
  | step _ guard h ih =>
      obtain ⟨q, ⟨bs, hq⟩, hR⟩ := ih
      rcases hstep _ q _ _ hR guard h with hR' | ⟨b, q', hb, hR'⟩
      · exact ⟨q, ⟨bs, hq⟩, hR'⟩
      · exact ⟨q', ⟨bs ++ [b], hq.step trivial hb⟩, hR'⟩

/-! ## Evaluating a run -/

/-- Run the labels from `s`, stopping at the first one that is not enabled or misses `ok`. -/
def exec (M : Machine σ α) (ok : σ → α → Prop) [∀ s a, Decidable (ok s a)] (s : σ) :
    List α → Option σ
  | [] => some s
  | a :: as => if ok s a then (M.step s a).bind fun t => exec M ok t as else none

theorem Reaches.exec_append [∀ s a, Decidable (ok s a)] (run : M.Reaches ok as s) (bs : List α)
    (h : M.exec ok s bs = some t) : M.Reaches ok (as ++ bs) t := by
  induction bs generalizing as s with
  | nil =>
      obtain rfl : s = t := by simpa [exec] using h
      simpa using run
  | cons b bs ih =>
      simp only [exec, Option.ite_none_right_eq_some, Option.bind_eq_some_iff] at h
      obtain ⟨guard, u, hu, hrest⟩ := h
      rw [List.append_cons]
      exact ih (run.step guard hu) hrest

theorem exec_invariant {I : σ → Prop} [∀ s a, Decidable (ok s a)] (hs : I s)
    (hstep : ∀ s a t, I s → M.step s a = some t → I t) (h : M.exec ok s as = some t) : I t := by
  induction as generalizing s with
  | nil =>
      obtain rfl : s = t := by simpa [exec] using h
      exact hs
  | cons a as ih =>
      simp only [exec, Option.ite_none_right_eq_some, Option.bind_eq_some_iff] at h
      obtain ⟨-, u, hu, hrest⟩ := h
      exact ih (hstep s a u hs hu) hrest

/-- A run that evaluates is a run. -/
theorem reaches_of_exec [∀ s a, Decidable (ok s a)] (hinit : M.init s)
    (h : M.exec ok s as = some t) : M.Reaches ok as t := by
  simpa using (Reaches.init hinit).exec_append as h

/-- A run that evaluates to a state with `P`. -/
theorem exists_reaches_of_exec (M : Machine σ α) (ok : σ → α → Prop) [∀ s a, Decidable (ok s a)]
    (s : σ) (as : List α) (P : σ → Prop) [DecidablePred P] (hinit : M.init s)
    (h : (M.exec ok s as).any (P ·) = true) : ∃ t, M.Reaches ok as t ∧ P t := by
  obtain ⟨t, ht, hP⟩ := (Option.any_eq_true _ _).1 h
  exact ⟨t, reaches_of_exec hinit ht, by simpa using hP⟩

end Machine
