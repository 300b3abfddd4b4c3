import Muduo.Lib.History
import Muduo.Net.Proofs.TimerEvents
import Mathlib.Data.List.TakeWhile

set_option autoImplicit false

/-! # No timer runs early

`GetExpiredTimer` takes an entry only when the reading of the clock has come to its timestamp, and
`restart` counts from that reading. Nothing is assumed of the clock: it may stand still or go back
between two events, and the order of `timers_` does not matter. -/

namespace TimerEvents

variable {s t : TimerEvents} {a : Action} {timerid : TimerID} {fired : List Int}

/-- The readings of the clock at which a timer has run, `fired` so far. -/
def addFired (timerid : TimerID) (fired : List Int) (s : TimerEvents) (a : Action) : List Int :=
  match s.phase, a with
  | .running now _ (e :: _), .runTimer =>
      if e.id = timerid then fired ++ [now.microSecondsSinceEpoch] else fired
  | _, _ => fired

/-- The events, and the readings at which a timer has run. -/
def firing (timerid : TimerID) : Machine (TimerEvents × List Int) Action :=
  machine.observing (fun _ => []) fun fired s a _ => addFired timerid fired s a

/-! ## What is known of the entries of a timer -/

variable {timer : Timer}

/-- `expiration_` as it was when the timer was added. -/
def first (timer : Timer) : Int := timer.expiration.microSecondsSinceEpoch

/-- The entry leaves an interval behind each run of the timer. -/
structure Ready (timer : Timer) (fired : List Int) (e : ExpiredTimer) : Prop where
  first_le : first timer ≤ e.key
  again : e.timer.repeat_ = true → ∀ reading ∈ fired, reading + e.timer.interval ≤ e.key

/-- The entry has been taken out at `now`. -/
structure Taken (timer : Timer) (fired : List Int) (now : Timestamp) (e : ExpiredTimer) :
    Prop where
  first_le : first timer ≤ now.microSecondsSinceEpoch
  again : e.timer.repeat_ = true → ∀ reading ∈ fired, reading ≤ now.microSecondsSinceEpoch

/-- What is known of the entries that `HandleRead` has taken out. -/
def Batch (timer : Timer) (fired : List Int) : TimerLoop.Phase → Prop
  | .idle => True
  | .running now expired rest =>
      rest ⊆ expired ∧ (∀ e ∈ expired, e.id = timer.id → Taken timer fired now e) ∧
        ∀ e ∈ rest, e.id = timer.id → Ready timer fired e ∧ e.key ≤ now.microSecondsSinceEpoch
  | .resetting now rest => ∀ e ∈ rest, e.id = timer.id → Taken timer fired now e

/-- What the runs keep of a timer that has been added. -/
structure Spaced (timer : Timer) (s : TimerEvents) (fired : List Int) : Prop where
  first_le : ∀ reading ∈ fired, first timer ≤ reading
  apart : timer.repeat_ = true →
    fired.Pairwise fun earlier later => earlier + timer.interval ≤ later
  timers : ∀ e ∈ s.queue.timers, e.id = timer.id → Ready timer fired e
  batch : Batch timer fired s.phase

theorem Ready.taken {e : ExpiredTimer} {now : Timestamp} (h : Ready timer fired e)
    (hdue : e.key ≤ now.microSecondsSinceEpoch) : Taken timer fired now e where
  first_le := h.first_le.trans hdue
  again hrepeat reading hreading := by
    have hlater := h.again hrepeat reading hreading
    have hpos : 0 < e.timer.interval := of_decide_eq_true hrepeat
    omega

/-- The first loop of `HandleRead` takes what is due. -/
theorem due_of_handleRead {now : Timestamp} (hstep : s.step (.handleRead now) = some t) :
    ∀ e ∈ t.phase.expired, e ∈ s.queue.timers ∧ e.key ≤ now.microSecondsSinceEpoch := by
  simp only [step] at hstep
  split at hstep
  · obtain rfl := Option.some.inj hstep
    intro e he
    have hnotLater := List.mem_takeWhile_imp he
    refine ⟨(List.takeWhile_prefix _).subset he, ?_⟩
    simpa [Timestamp.lt_iff, ExpiredTimer.key] using hnotLater
  · exact absurd hstep (by simp)

/-- The entry of a restarted timer. -/
theorem Taken.restarted {e : ExpiredTimer} {now : Timestamp} {again : Timer} {q : TimerQueue}
    (h : Taken timer fired now e) (hrestarted : q.restarted e now = some again) :
    Ready timer fired ⟨again.expiration, again⟩ := by
  simp only [TimerQueue.restarted, Option.ite_none_right_eq_some, Option.some.injEq] at hrestarted
  obtain ⟨⟨hrepeat, -⟩, rfl⟩ := hrestarted
  have hpos : 0 < e.timer.interval := of_decide_eq_true hrepeat
  have hfirst := h.first_le
  simp only [Timer.restart, if_pos hrepeat]
  refine ⟨?_, ?_⟩
  · simp only [ExpiredTimer.key, Timestamp.addInt]
    omega
  · intro _ reading hreading
    have hagain := h.again hrepeat reading hreading
    simp only [ExpiredTimer.key, Timestamp.addInt]
    omega

/-! ## One step -/

theorem addFired_of_ne (ha : a ≠ .runTimer) : addFired timerid fired s a = fired := by
  unfold addFired
  split
  · exact absurd rfl ha
  · rfl

/-- What has run stays, and so do the entries or some of them. -/
theorem Spaced.of_frame (h : Spaced timer s fired)
    (htimers : ∀ e ∈ t.queue.timers, e.id = timer.id → Ready timer fired e)
    (hbatch : Batch timer fired t.phase) : Spaced timer t fired :=
  ⟨h.first_le, h.apart, htimers, hbatch⟩

/-- A timer has not run when it is added, and it has one entry. -/
theorem Spaced.of_added (hnew : ∀ e ∈ s.entries, e.id ≠ timer.id)
    (htimers : ∀ e ∈ t.queue.timers, e = ⟨timer.expiration, timer⟩ ∨ e ∈ s.queue.timers)
    (hphase : t.phase = s.phase) (hrest : s.rest ⊆ s.phase.expired) : Spaced timer t [] where
  first_le := by simp
  apart _ := List.Pairwise.nil
  timers e he hid := by
    rcases htimers e he with rfl | he
    · exact ⟨le_refl _, by simp⟩
    · exact absurd hid (hnew e (List.mem_append_left _ he))
  batch := by
    have hnone : ∀ e ∈ s.phase.expired, e.id ≠ timer.id := fun e he =>
      hnew e (List.mem_append_right _ he)
    rw [hphase]
    unfold rest at hrest
    cases hs : s.phase with
    | idle => trivial
    | running now expired rest =>
        rw [hs] at hnone hrest
        exact ⟨hrest, fun e he hid => absurd hid (hnone e he),
          fun e he hid => absurd hid (hnone e (hrest he))⟩
    | resetting now rest =>
        rw [hs] at hnone
        exact fun e he hid => absurd hid (hnone e he)

theorem Spaced.run {now : Timestamp} {expired rest : List ExpiredTimer} {e : ExpiredTimer}
    (h : Spaced timer s fired) (hadded : timer ∈ s.added) (hknown : s.Known) (hkept : s.Kept)
    (hphase : s.phase = .running now expired (e :: rest)) :
    Spaced timer { s with
      phase := .running now expired rest
      ran := s.ran ++ [e.id]
      ranNow := s.ranNow ++ [e.id] } (addFired timer.id fired s .runTimer) := by
  have hbatch := h.batch
  rw [hphase] at hbatch
  obtain ⟨hsub, hexpired, hrest⟩ := hbatch
  have hsub' : rest ⊆ expired := fun u hu => hsub (List.mem_cons_of_mem _ hu)
  by_cases hid : e.id = timer.id
  · obtain ⟨hready, hdue⟩ := hrest e List.mem_cons_self hid
    obtain ⟨-, htimers, -, hnot⟩ := hkept.runs hknown hphase
    rw [hid] at htimers hnot
    have hmem : e ∈ s.entries := by
      rw [entries, hphase]
      exact List.mem_append_right _ (hsub List.mem_cons_self)
    have hinterval := hknown.interval_eq hmem hadded hid.symm
    have hrepeat := hknown.repeat_eq hmem hadded hid.symm
    have hfired : addFired timer.id fired s .runTimer = fired ++ [now.microSecondsSinceEpoch] := by
      simp [addFired, hphase, hid]
    rw [hfired]
    refine ⟨?_, ?_, ?_, hsub', ?_, ?_⟩
    · intro reading hreading
      rcases List.mem_append.1 hreading with hold | hnow
      · exact h.first_le reading hold
      · rw [List.mem_singleton.1 hnow]
        exact hready.first_le.trans hdue
    · intro hagain
      refine List.pairwise_append.2 ⟨h.apart hagain, List.pairwise_singleton _ _, ?_⟩
      intro earlier hearlier later hlater
      rw [List.mem_singleton.1 hlater, hinterval]
      exact (hready.again (hrepeat ▸ hagain) earlier hearlier).trans hdue
    · exact fun u hu huid => absurd (List.mem_map.2 ⟨u, hu, huid⟩) htimers
    · intro u hu huid
      refine ⟨(hexpired u hu huid).first_le, fun hagain reading hreading => ?_⟩
      rcases List.mem_append.1 hreading with hold | hnow
      · exact (hexpired u hu huid).again hagain reading hold
      · exact (List.mem_singleton.1 hnow).le
    · exact fun u hu huid => absurd (List.mem_map.2 ⟨u, hu, huid⟩) hnot
  · have hfired : addFired timer.id fired s .runTimer = fired := by
      simp [addFired, hphase, hid]
    rw [hfired]
    exact h.of_frame h.timers
      ⟨hsub', hexpired, fun u hu => hrest u (List.mem_cons_of_mem _ hu)⟩

theorem Spaced.step (h : Spaced timer s fired) (hadded : timer ∈ s.added) (hknown : s.Known)
    (hkept : s.Kept) (hstep : s.step a = some t) :
    Spaced timer t (addFired timer.id fired s a) := by
  have hbatch := h.batch
  cases step_cases hstep with
  | @add new pos timers armed hcallable hnew hadd hplace =>
      rw [addFired_of_ne (by simp)]
      refine h.of_frame (fun e he hid => ?_) h.batch
      rcases Ordered.perm_of_place hplace with rfl | hperm
      · exact h.timers e he hid
      · rcases List.mem_cons.1 (hperm.mem_iff.1 he) with rfl | he
        · exact absurd hid.symm (hnew timer hadded)
        · exact h.timers e he hid
  | cancel hcallable =>
      rw [addFired_of_ne (by simp)]
      refine h.of_frame (fun e he => h.timers e ?_) h.batch
      exact (TimerQueue.cancelTimerInLoop_timers .. ▸ List.eraseP_sublist).subset he
  | @handleRead now expired timers hphase hsplit =>
      rw [addFired_of_ne (by simp)]
      have hdue := due_of_handleRead hstep
      have hready : ∀ e ∈ expired, e.id = timer.id →
          Ready timer fired e ∧ e.key ≤ now.microSecondsSinceEpoch := fun e he hid =>
        ⟨h.timers e (hdue e he).1 hid, (hdue e he).2⟩
      refine h.of_frame (fun e he => h.timers e ?_) ⟨List.Subset.refl _, ?_, hready⟩
      · rw [← hsplit]
        exact List.mem_append_right _ he
      · exact fun e he hid => (hready e he hid).1.taken (hready e he hid).2
  | runTimer hphase => exact h.run hadded hknown hkept hphase
  | beginReset hphase =>
      rw [addFired_of_ne (by simp)]
      rw [hphase] at hbatch
      exact h.of_frame h.timers hbatch.2.1
  | @resetTimer now rest e pos again timers hphase hrestarted hplace =>
      rw [addFired_of_ne (by simp)]
      rw [hphase] at hbatch
      refine h.of_frame (fun u hu hid => ?_) fun u hu => hbatch u (List.mem_cons_of_mem _ hu)
      rcases Ordered.perm_of_place hplace with rfl | hperm
      · exact h.timers u hu hid
      · rcases List.mem_cons.1 (hperm.mem_iff.1 hu) with rfl | hu
        · have hsame : e.id = timer.id := (restarted_eq hrestarted).1.symm.trans hid
          exact (hbatch e List.mem_cons_self hsame).restarted hrestarted
        · exact h.timers u hu hid
  | skipTimer hphase hnone =>
      rw [addFired_of_ne (by simp)]
      rw [hphase] at hbatch
      exact h.of_frame h.timers fun e he => hbatch e (List.mem_cons_of_mem _ he)
  | endReset hphase =>
      rw [addFired_of_ne (by simp)]
      refine h.of_frame (fun e he => h.timers e ?_) trivial
      simpa only [TimerQueue.rearm_timers] using he

/-! ## Runs -/

/-- What is known of every timer with the id. -/
structure Fires (timerid : TimerID) (s : TimerEvents) (fired : List Int) : Prop where
  known : s.Known
  kept : s.Kept
  rest : s.rest ⊆ s.phase.expired
  ran : fired ≠ [] → timerid ∈ s.ran
  spaced : ∀ timer ∈ s.added, timer.id = timerid → Spaced timer s fired

theorem rest_step (h : s.rest ⊆ s.phase.expired) (hstep : Step s a t) :
    t.rest ⊆ t.phase.expired := by
  cases hstep with
  | add | cancel => exact h
  | handleRead => exact List.Subset.refl _
  | runTimer hphase =>
      rw [rest, hphase] at h
      exact fun e he => h (List.mem_cons_of_mem _ he)
  | beginReset | resetTimer | skipTimer | endReset => exact List.nil_subset _

theorem ran_addFired (h : fired ≠ [] → timerid ∈ s.ran) (hstep : Step s a t) :
    addFired timerid fired s a ≠ [] → timerid ∈ t.ran := by
  cases hstep with
  | @runTimer now expired rest e hphase =>
      intro hne
      by_cases hid : e.id = timerid
      · simp [hid]
      · have hsame : addFired timerid fired s .runTimer = fired := by
          simp [addFired, hphase, hid]
        exact List.mem_append_left _ (h (hsame ▸ hne))
  | add | cancel | handleRead | beginReset | resetTimer | skipTimer | endReset =>
      rw [addFired_of_ne (by simp)]
      exact h

theorem Fires.step (h : Fires timerid s fired) (hstep : s.step a = some t) :
    Fires timerid t (addFired timerid fired s a) := by
  have hcases := step_cases hstep
  refine ⟨h.known.step hcases, h.kept.step h.known hcases, rest_step h.rest hcases,
    ran_addFired h.ran hcases, ?_⟩
  intro timer hadded hid
  by_cases hold : timer ∈ s.added
  · exact hid ▸ (h.spaced timer hold hid).step hold h.known h.kept hstep
  · cases hcases with
    | @add new pos timers armed hcallable hnew hadd hplace =>
        obtain rfl : timer = new := by simpa [hold] using hadded
        obtain ⟨hfresh, hperm⟩ := h.known.add_perm hnew hplace
        have hfired : fired = [] := by
          by_contra hne
          obtain ⟨other, hmem, hsame⟩ := List.mem_map.1 (h.kept.ran timerid (h.ran hne))
          exact hnew other hmem (hsame.trans hid.symm)
        rw [addFired_of_ne (by simp), hfired]
        refine Spaced.of_added (s := s) ?_ ?_ rfl h.rest
        · exact fun e he heq => hfresh (List.mem_map.2 ⟨e, he, heq⟩)
        · exact fun e he => List.mem_cons.1 (hperm.mem_iff.1 he)
    | cancel | handleRead | runTimer | beginReset | resetTimer | skipTimer | endReset =>
        exact absurd hadded hold

theorem fires_of_reachable {p : TimerEvents × List Int} (run : (firing timerid).Reachable p) :
    Fires timerid p.1 p.2 := by
  refine run.invariant (I := fun p => Fires timerid p.1 p.2) ?_ ?_
  · rintro ⟨s, fired⟩ ⟨hs, hfired⟩
    obtain rfl : s = new := hs
    obtain rfl : fired = [] := hfired
    obtain ⟨hknown, hkept⟩ := inv_of_reaches (.init rfl : machine.Reaches Machine.anyStep [] new)
    exact ⟨hknown, hkept, List.nil_subset _, by simp, by simp [new]⟩
  · rintro ⟨s, fired⟩ a q h hstep
    obtain ⟨t, ht, rfl⟩ := Option.map_eq_some_iff.1 hstep
    exact h.step ht

/-- In every run, for every timer that was added and the readings of the clock at which it ran: none
    is before its expiration, and a repeating timer leaves its interval between any two, so that its
    run `k` is not before `k` intervals behind its expiration. -/
theorem never_early {p : TimerEvents × List Int} {timer : Timer}
    (run : (firing timer.id).Reachable p) (hadded : timer ∈ p.1.added) :
    (∀ reading ∈ p.2, first timer ≤ reading) ∧
      (timer.repeat_ = true →
        (p.2.Pairwise fun earlier later => earlier + timer.interval ≤ later) ∧
        ∀ k (hk : k < p.2.length), first timer + k * timer.interval ≤ p.2[k]) := by
  have h := (fires_of_reachable run).spaced timer hadded rfl
  refine ⟨h.first_le, fun hrepeat => ⟨h.apart hrepeat, ?_⟩⟩
  intro k hk
  induction k with
  | zero => simpa using h.first_le _ (List.getElem_mem hk)
  | succ k ih =>
      have hprev := ih (Nat.lt_of_succ_lt hk)
      have hgap := List.pairwise_iff_getElem.1 (h.apart hrepeat) k (k + 1) (Nat.lt_of_succ_lt hk) hk
        (Nat.lt_succ_self k)
      rw [Nat.cast_succ, add_mul, one_mul]
      omega

/-- A timer with an interval of 10, and a reading in between that is too early. -/
def repeatsTwice : List Action :=
  [.addTimerInLoop ⟨⟨1⟩, 10, 1⟩ 0, .handleRead ⟨5⟩, .runTimer, .beginReset, .resetTimer 0,
    .endReset, .handleRead ⟨14⟩, .beginReset, .endReset, .handleRead ⟨20⟩, .runTimer]

theorem never_early_repeatsTwice :
    ∃ p, (firing 1).Reachable p ∧ p.2 = [5, 20] ∧
      p.2.Pairwise fun earlier later => earlier + 10 ≤ later := by
  obtain ⟨p, run, hfired, hadded⟩ := Machine.exists_reaches_of_exec (firing 1) Machine.anyStep
    (.new, []) repeatsTwice (fun p => p.2 = [5, 20] ∧ ⟨⟨1⟩, 10, 1⟩ ∈ p.1.added) ⟨rfl, rfl⟩
    (by decide)
  exact ⟨p, ⟨_, run⟩, hfired, ((never_early ⟨_, run⟩ hadded).2 rfl).1⟩

end TimerEvents
