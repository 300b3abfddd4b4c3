import Muduo.Net.Proofs.TimerQueue

set_option autoImplicit false

/-! # operator< as the comparison of a set

`std::set` asks that its comparison is a strict weak order. `operator<` is true when the timestamp
is earlier and also when the id is smaller, so it is one exactly on the entries on which timestamps
and ids never disagree. Two timers are enough to leave them: the timer made second, for an earlier
time, has the larger id. -/

namespace ExpiredTimer

/-- What `std::set` and the readers of `timers_` ask of `operator<` on the entries `S`. -/
structure Orders (S : Set ExpiredTimer) : Prop where
  /-- Irreflexive and transitive, and so is being equivalent. -/
  strictWeak : IsStrictWeakOrder S fun e t => e.1.lt t.1 = true
  asymm : ∀ e ∈ S, ∀ t ∈ S, e.lt t = true → t.lt e = false
  equivalent : ∀ e ∈ S, ∀ t ∈ S, e.lt t = false → t.lt e = false →
    e.timestamp = t.timestamp ∧ e.id = t.id
  earlier : ∀ e ∈ S, ∀ t ∈ S, e.timestamp < t.timestamp → e.lt t = true

theorem lt_iff_eitherLess (e t : ExpiredTimer) :
    e.lt t = true ↔ Ordered.EitherLess key id e t := by
  rw [lt_iff, Ordered.EitherLess]
  constructor
  · exact Or.imp_right And.right
  · rintro (hkey | hid)
    · exact Or.inl hkey
    · exact (lt_or_ge e.key t.key).imp_right fun hle => ⟨hle, hid⟩

theorem timestamp_eq_iff (e t : ExpiredTimer) : e.timestamp = t.timestamp ↔ e.key = t.key := by
  rw [key, key]
  constructor
  · exact congrArg Timestamp.microSecondsSinceEpoch
  · intro h
    obtain ⟨⟨_⟩, _⟩ := e
    obtain ⟨⟨_⟩, _⟩ := t
    exact congrArg Timestamp.mk h

/-- Of two entries the earlier one never has the larger id. -/
def Agree (S : Set ExpiredTimer) : Prop :=
  ∀ e ∈ S, ∀ t ∈ S, e.timestamp < t.timestamp → e.id ≤ t.id

theorem Agree.orders {S : Set ExpiredTimer} (h : Agree S) : Orders S := by
  have hagree : MonovaryOn id key S := fun e he t ht hearlier => h e he t ht hearlier
  refine ⟨?_, fun e he t ht hlt => ?_, fun e _ t _ het hte => ?_, fun e _ t _ hearlier => ?_⟩
  · simp only [lt_iff_eitherLess]
    exact Ordered.isStrictWeakOrder_of_monovaryOn hagree
  · rw [lt_iff_eitherLess, Ordered.eitherLess_iff_toLex hagree he ht] at hlt
    rw [← Bool.not_eq_true, lt_iff_eitherLess, Ordered.eitherLess_iff_toLex hagree ht he]
    exact hlt.asymm
  · rw [← Bool.not_eq_true, lt_iff_eitherLess] at het hte
    obtain ⟨hkey, hid⟩ := Ordered.eq_of_not_eitherLess het hte
    exact ⟨(timestamp_eq_iff e t).2 hkey, hid⟩
  · exact (lt_iff_eitherLess e t).2 (Or.inl hearlier)

/-- `operator<` orders exactly the entries among which none has an earlier timestamp than another
    and a larger id. -/
theorem orders_iff (S : Set ExpiredTimer) : Orders S ↔ Agree S := by
  constructor
  · intro h
    have hagree : MonovaryOn id key S := by
      refine Ordered.monovaryOn_of_asymm fun e he t ht hlt => ?_
      rw [← lt_iff_eitherLess, Bool.not_eq_true]
      exact h.asymm e he t ht ((lt_iff_eitherLess e t).2 hlt)
    exact fun e he t ht hearlier => hagree he ht hearlier
  · exact Agree.orders

end ExpiredTimer

/-! ## Runs -/

namespace TimerLoop

variable {s t : TimerLoop} {a : Action}

/-- The entry inserted and an entry of `timers_` have timestamps and ids in the same order. -/
def InsertsInAgreement (s : TimerLoop) (a : Action) : Prop :=
  ∀ e ∈ s.inserted a, ∀ u ∈ s.queue.timers,
    (e.timestamp < u.timestamp → e.id ≤ u.id) ∧ (u.timestamp < e.timestamp → u.id ≤ e.id)

theorem agree_step (h : ExpiredTimer.Agree {e | e ∈ s.queue.timers})
    (hok : InsertsInAgreement s a) (hstep : Step s a t) :
    ExpiredTimer.Agree {e | e ∈ t.queue.timers} := by
  rcases hstep.timers with hsub | ⟨e, pos, hinserted, -, hplace⟩
  · exact fun x hx y hy hearlier => h x (hsub.subset hx) y (hsub.subset hy) hearlier
  · intro x hx y hy hearlier
    rcases Ordered.mem_of_place hplace hx with rfl | hx
    · rcases Ordered.mem_of_place hplace hy with rfl | hy
      · exact Nat.le_refl _
      · exact (hok x hinserted y hy).1 hearlier
    · rcases Ordered.mem_of_place hplace hy with rfl | hy
      · exact (hok y hinserted x hx).2 hearlier
      · exact h x hx y hy hearlier

/-- In every run that inserts in agreement, `operator<` orders `timers_`. -/
theorem orders_timers {as : List Action} (run : machine.Reaches InsertsInAgreement as s) :
    ExpiredTimer.Orders {e | e ∈ s.queue.timers} := by
  have hagree : ExpiredTimer.Agree {e | e ∈ s.queue.timers} := by
    refine run.invariant (I := fun s => ExpiredTimer.Agree {e | e ∈ s.queue.timers})
      (fun s hs => ?_) fun s a t h hok hstep => agree_step h hok (step_cases hstep)
    rw [show s = .new from hs]
    exact fun e he => absurd he List.not_mem_nil
  exact hagree.orders

/-- `AddTimer` for the time 2000, then for the time 1000: each entry of `timers_` precedes the
    other. -/
theorem two_timers_precede_each_other :
    (∃ s, machine.Reachable s ∧
      ∃ e ∈ s.queue.timers, ∃ t ∈ s.queue.timers, e.lt t = true ∧ t.lt e = true) ∧
    ¬ ExpiredTimer.Orders Set.univ := by
  obtain ⟨s, run, htimers⟩ := Machine.exists_reaches_of_exec machine Machine.anyStep .new
    [.addTimer ⟨2000⟩ 0 0, .addTimer ⟨1000⟩ 0 0]
    (fun s => s.queue.timers = [⟨⟨1000⟩, ⟨⟨1000⟩, 0, 2⟩⟩, ⟨⟨2000⟩, ⟨⟨2000⟩, 0, 1⟩⟩]) rfl (by decide)
  refine ⟨⟨s, run.reachable, ⟨⟨1000⟩, ⟨1000⟩, 0, 2⟩, by simp [htimers], ⟨⟨2000⟩, ⟨2000⟩, 0, 1⟩,
    by simp [htimers], by decide, by decide⟩, fun h => ?_⟩
  have hasymm := h.asymm ⟨⟨1000⟩, ⟨1000⟩, 0, 2⟩ trivial ⟨⟨2000⟩, ⟨2000⟩, 0, 1⟩ trivial (by decide)
  exact absurd hasymm (by decide)

end TimerLoop
