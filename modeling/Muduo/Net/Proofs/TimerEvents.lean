import Muduo.Net.TimerEvents
import Muduo.Net.Proofs.TimerCancel
import Mathlib.Data.List.Nodup
import Mathlib.Data.List.Perm.Subperm

set_option autoImplicit false

/-! # No timer is lost or doubled

A timer that has been added is in `timers_`, or in the batch that `HandleRead` has taken out and not
put back yet, and it is there once. A one-shot timer leaves with its batch, a repeating one comes
back from it, unless somebody has cancelled it. -/

/-! ## The operations on the queue -/

namespace TimerQueue

variable {q q' : TimerQueue} {timer : Timer} {pos : Nat}

theorem lt_or_lt_of_ne {e u : ExpiredTimer} (h : e.id ≠ u.id) : e.lt u = true ∨ u.lt e = true := by
  rw [ExpiredTimer.lt_iff, ExpiredTimer.lt_iff]
  rcases lt_trichotomy e.key u.key with hlt | heq | hgt
  · exact Or.inl (Or.inl hlt)
  · exact (Nat.lt_or_gt_of_ne h).imp (fun hid => Or.inr ⟨heq.ge, hid⟩) fun hid =>
      Or.inr ⟨heq.le, hid⟩
  · exact Or.inr (Or.inl hgt)

/-- An entry whose id is not in `timers_` is not rejected. -/
theorem perm_of_place {timers timers' : List ExpiredTimer} {e : ExpiredTimer}
    (h : Ordered.place ExpiredTimer.lt timers e pos = some timers')
    (hnew : ∀ u ∈ timers, u.id ≠ e.id) : timers'.Perm (e :: timers) :=
  Ordered.perm_of_place_of_comparable h fun u hu => lt_or_lt_of_ne (hnew u hu)

end TimerQueue

namespace TimerEvents

variable {s t : TimerEvents} {a : Action}

/-! ## What a step does -/

inductive Step (s : TimerEvents) : Action → TimerEvents → Prop
  | add {timer : Timer} {pos : Nat} {timers : List ExpiredTimer} {armed : Option Timestamp}
      (hcallable : s.Callable = true) (hnew : ∀ t ∈ s.added, t.id ≠ timer.id)
      (hadd : s.queue.addTimerInLoop timer pos = some { s.queue with timers, armed })
      (hplace : Ordered.place ExpiredTimer.lt s.queue.timers ⟨timer.expiration, timer⟩ pos
        = some timers) :
      Step s (.addTimerInLoop timer pos)
        { s with
          queue := { s.queue with timers, armed }
          expiration := Function.update s.expiration timer.id timer.expiration
          added := s.added ++ [timer] }
  | cancel {timerid : TimerID} (hcallable : s.Callable = true) :
      Step s (.cancelTimerInLoop timerid)
        { s with
          queue := s.queue.cancelTimerInLoop timerid
          targets := s.targets ++ [timerid] }
  | handleRead {now : Timestamp} {expired timers : List ExpiredTimer} (hphase : s.phase = .idle)
      (hsplit : expired ++ timers = s.queue.timers) :
      Step s (.handleRead now)
        { s with
          queue := { s.queue with timers, callingExpiredTimers := false }
          phase := .running now expired expired
          ranNow := [] }
  | runTimer {now : Timestamp} {expired rest : List ExpiredTimer} {e : ExpiredTimer}
      (hphase : s.phase = .running now expired (e :: rest)) :
      Step s .runTimer
        { s with
          phase := .running now expired rest
          ran := s.ran ++ [e.id]
          ranNow := s.ranNow ++ [e.id] }
  | beginReset {now : Timestamp} {expired : List ExpiredTimer}
      (hphase : s.phase = .running now expired []) :
      Step s .beginReset
        { s with
          queue := { s.queue with callingExpiredTimers := false }
          phase := .resetting now expired }
  | resetTimer {now : Timestamp} {rest : List ExpiredTimer} {e : ExpiredTimer} {pos : Nat}
      {timer : Timer} {timers : List ExpiredTimer} (hphase : s.phase = .resetting now (e :: rest))
      (hrestarted : s.queue.restarted e now = some timer)
      (hplace : Ordered.place ExpiredTimer.lt s.queue.timers ⟨timer.expiration, timer⟩ pos
        = some timers) :
      Step s (.resetTimer pos)
        { s with
          queue := { s.queue with timers }
          phase := .resetting now rest
          expiration := Function.update s.expiration e.id timer.expiration }
  | skipTimer {now : Timestamp} {rest : List ExpiredTimer} {e : ExpiredTimer} {pos : Nat}
      (hphase : s.phase = .resetting now (e :: rest)) (hnone : s.queue.restarted e now = none) :
      Step s (.resetTimer pos) { s with phase := .resetting now rest }
  | endReset {now : Timestamp} (hphase : s.phase = .resetting now []) :
      Step s .endReset { s with queue := s.queue.rearm, phase := .idle }

theorem step_cases (h : s.step a = some t) : Step s a t := by
  cases a with
  | addTimerInLoop timer pos =>
      simp only [step, Option.ite_none_right_eq_some, Option.map_eq_some_iff] at h
      obtain ⟨⟨hcallable, hnew⟩, queue, hadd, rfl⟩ := h
      obtain ⟨timers, armed, hplace, rfl⟩ := TimerQueue.addTimerInLoop_eq_some hadd
      exact .add hcallable hnew hadd hplace
  | cancelTimerInLoop timerid =>
      simp only [step, Option.ite_none_right_eq_some, Option.some.injEq] at h
      obtain ⟨hcallable, rfl⟩ := h
      exact .cancel hcallable
  | handleRead now =>
      simp only [step] at h
      split at h
      · rename_i hphase
        obtain rfl := Option.some.inj h
        exact .handleRead hphase List.takeWhile_append_dropWhile
      · exact absurd h (by simp)
  | runTimer =>
      simp only [step] at h
      split at h
      · rename_i now expired e rest hphase
        obtain rfl := Option.some.inj h
        exact .runTimer hphase
      · exact absurd h (by simp)
  | beginReset =>
      simp only [step] at h
      split at h
      · rename_i now expired hphase
        obtain rfl := Option.some.inj h
        exact .beginReset hphase
      · exact absurd h (by simp)
  | resetTimer pos =>
      simp only [step] at h
      split at h
      · rename_i now e rest hphase
        obtain ⟨queue, hreset, rfl⟩ := Option.map_eq_some_iff.1 h
        rcases TimerQueue.resetOne_eq_some hreset with ⟨hnone, rfl⟩ |
          ⟨timer, timers, hrestarted, hplace, rfl⟩
        · rw [hnone]
          exact .skipTimer hphase hnone
        · rw [hrestarted]
          exact .resetTimer hphase hrestarted hplace
      · exact absurd h (by simp)
  | endReset =>
      simp only [step] at h
      split at h
      · rename_i now hphase
        obtain rfl := Option.some.inj h
        exact .endReset hphase
      · exact absurd h (by simp)

/-! ## Where a timer is -/

/-- The entries that are there: in `timers_`, or taken out and not put back yet. -/
def entries (s : TimerEvents) : List ExpiredTimer := s.queue.timers ++ s.phase.expired

/-- The entries whose callbacks are still to run. -/
def rest (s : TimerEvents) : List ExpiredTimer :=
  match s.phase with
  | .running _ _ rest => rest
  | .idle | .resetting _ _ => []

def ids (l : List ExpiredTimer) : List TimerID := l.map ExpiredTimer.id

/-- What is known of the entries. -/
structure Known (s : TimerEvents) : Prop where
  distinct : (s.added.map Timer.id).Nodup
  /-- No timer has two of them. -/
  once : (ids s.entries).Nodup
  added : ∀ e ∈ s.entries, ∃ timer ∈ s.added, timer.id = e.id ∧ timer.interval = e.timer.interval
  /-- An entry was inserted with the expiration that its timer has. -/
  expiration : ∀ e ∈ s.entries, e.timestamp = s.expiration e.id ∧ e.timer.expiration = e.timestamp

theorem Known.of_subperm (h : s.Known) (hsub : t.entries.Subperm s.entries)
    (hadded : t.added = s.added) (hexpiration : t.expiration = s.expiration) : t.Known where
  distinct := hadded ▸ h.distinct
  once := by
    obtain ⟨l, hperm, hl⟩ := hsub
    exact (hperm.map _).nodup_iff.1 ((hl.map _).nodup h.once)
  added e he := hadded ▸ h.added e (hsub.subset he)
  expiration e he := hexpiration ▸ h.expiration e (hsub.subset he)

/-- An entry is inserted, for a new timer or for one that had its entry among the others. -/
theorem Known.insert (h : s.Known) {l : List ExpiredTimer} {e : ExpiredTimer} {timer : Timer}
    (hl : l.Subperm s.entries) (hentries : t.entries.Perm (e :: l)) (hnew : e.id ∉ ids l)
    (hdistinct : (t.added.map Timer.id).Nodup) (hadded : s.added ⊆ t.added)
    (htimer : timer ∈ t.added) (hid : timer.id = e.id)
    (hinterval : timer.interval = e.timer.interval)
    (htimestamp : e.timer.expiration = e.timestamp)
    (hexpiration : t.expiration = Function.update s.expiration e.id e.timestamp) : t.Known where
  distinct := hdistinct
  once := by
    obtain ⟨l', hperm, hsub⟩ := hl
    have hids : (ids l).Nodup := (hperm.map _).nodup_iff.1 ((hsub.map _).nodup h.once)
    exact (hentries.map ExpiredTimer.id).nodup_iff.2 (List.nodup_cons.2 ⟨hnew, hids⟩)
  added x hx := by
    rcases List.mem_cons.1 (hentries.mem_iff.1 hx) with rfl | hx
    · exact ⟨timer, htimer, hid, hinterval⟩
    · obtain ⟨timer', hmem, hsame⟩ := h.added x (hl.subset hx)
      exact ⟨timer', hadded hmem, hsame⟩
  expiration x hx := by
    rw [hexpiration]
    rcases List.mem_cons.1 (hentries.mem_iff.1 hx) with rfl | hx
    · exact ⟨by rw [Function.update_self], htimestamp⟩
    · have hne : x.id ≠ e.id := fun heq => hnew (heq ▸ List.mem_map_of_mem hx)
      rw [Function.update_of_ne hne]
      exact h.expiration x (hl.subset hx)

theorem restarted_eq {q : TimerQueue} {e : ExpiredTimer} {now : Timestamp} {timer : Timer}
    (h : q.restarted e now = some timer) : timer.id = e.id ∧ timer.interval = e.timer.interval := by
  simp only [TimerQueue.restarted, Option.ite_none_right_eq_some, Option.some.injEq] at h
  obtain ⟨⟨hrepeat, -⟩, rfl⟩ := h
  simp [Timer.restart, hrepeat, ExpiredTimer.id]

/-- A timer with a new id gets its entry. -/
theorem Known.add_perm (h : s.Known) {timer : Timer} {timers : List ExpiredTimer} {pos : Nat}
    (hnew : ∀ t ∈ s.added, t.id ≠ timer.id)
    (hplace : Ordered.place ExpiredTimer.lt s.queue.timers ⟨timer.expiration, timer⟩ pos
      = some timers) :
    timer.id ∉ ids s.entries ∧ timers.Perm (⟨timer.expiration, timer⟩ :: s.queue.timers) := by
  have hfresh : timer.id ∉ ids s.entries := by
    intro hmem
    obtain ⟨e, he, hid⟩ := List.mem_map.1 hmem
    obtain ⟨timer', hmem', hid', -⟩ := h.added e he
    exact hnew timer' hmem' (hid'.trans hid)
  exact ⟨hfresh, TimerQueue.perm_of_place hplace fun u hu heq =>
    hfresh (List.mem_map.2 ⟨u, List.mem_append_left _ hu, heq⟩)⟩

/-- A timer that is restarted gets its entry again. -/
theorem Known.reset_perm (h : s.Known) {now : Timestamp} {rest timers : List ExpiredTimer}
    {e : ExpiredTimer} {timer : Timer} {pos : Nat} (hphase : s.phase = .resetting now (e :: rest))
    (hrestarted : s.queue.restarted e now = some timer)
    (hplace : Ordered.place ExpiredTimer.lt s.queue.timers ⟨timer.expiration, timer⟩ pos
      = some timers) :
    e.id ∉ ids (s.queue.timers ++ rest) ∧
      timers.Perm (⟨timer.expiration, timer⟩ :: s.queue.timers) := by
  have honce : (ids (e :: (s.queue.timers ++ rest))).Nodup := by
    refine ((List.Perm.map _ ?_).nodup_iff).1 h.once
    rw [entries, hphase]
    exact List.perm_middle
  have hnew := (List.nodup_cons.1 honce).1
  exact ⟨hnew, TimerQueue.perm_of_place hplace fun u hu heq =>
    hnew (List.mem_map.2 ⟨u, List.mem_append_left _ hu, heq.trans (restarted_eq hrestarted).1⟩)⟩

theorem Known.step (h : s.Known) (hstep : Step s a t) : t.Known := by
  cases hstep with
  | @add timer pos timers armed hcallable hnew hadd hplace =>
      obtain ⟨hfresh, hperm⟩ := h.add_perm hnew hplace
      refine h.insert (List.Subperm.refl _) (hperm.append_right _) hfresh ?_
        (List.subset_append_left _ _) (List.mem_append_right _ (List.mem_singleton.2 rfl)) rfl rfl
        rfl rfl
      rw [List.map_append, List.nodup_append]
      refine ⟨h.distinct, by simp, fun id hid id' hid' => ?_⟩
      obtain ⟨timer', hmem, rfl⟩ := List.mem_map.1 hid
      rw [List.mem_singleton.1 hid']
      exact hnew timer' hmem
  | @cancel timerid =>
      refine h.of_subperm (List.Sublist.subperm ?_) rfl rfl
      exact (TimerQueue.cancelTimerInLoop_timers .. ▸ List.eraseP_sublist).append_right _
  | handleRead hphase hsplit =>
      refine h.of_subperm (List.Perm.subperm ?_) rfl rfl
      rw [entries, entries, hphase, ← hsplit]
      simpa using List.perm_append_comm
  | runTimer hphase | beginReset hphase =>
      refine h.of_subperm (List.Perm.subperm (List.Perm.of_eq ?_)) rfl rfl
      rw [entries, entries, hphase]
      rfl
  | @resetTimer now rest e pos timer timers hphase hrestarted hplace =>
      obtain ⟨hid, hinterval⟩ := restarted_eq hrestarted
      obtain ⟨hnew, hperm⟩ := h.reset_perm hphase hrestarted hplace
      have hmem : e ∈ s.entries := by simp [entries, hphase]
      obtain ⟨timer', hmem', hid', hinterval'⟩ := h.added e hmem
      refine h.insert (List.Sublist.subperm ?_) (hperm.append_right _) ?_ h.distinct
        (List.Subset.refl _) hmem' (hid'.trans hid.symm) (hinterval'.trans hinterval.symm) rfl ?_
      · rw [entries, hphase]
        exact (List.sublist_cons_self _ _).append_left _
      · rw [show ExpiredTimer.id ⟨timer.expiration, timer⟩ = e.id from hid]
        exact hnew
      · rw [show ExpiredTimer.id ⟨timer.expiration, timer⟩ = e.id from hid]
  | skipTimer hphase =>
      refine h.of_subperm (List.Sublist.subperm ?_) rfl rfl
      rw [entries, entries, hphase]
      exact (List.sublist_cons_self _ _).append_left _
  | endReset hphase =>
      refine h.of_subperm (List.Perm.subperm (List.Perm.of_eq ?_)) rfl rfl
      rw [entries, entries, hphase, TimerQueue.rearm_timers]
      rfl

/-! ## What becomes of the timers -/

/-- A one-shot timer has run once and is gone, or it is there until it runs or is cancelled. -/
structure OneShot (s : TimerEvents) (timerid : TimerID) : Prop where
  once : s.ran.count timerid ≤ 1
  gone : timerid ∈ s.ran → timerid ∉ ids s.queue.timers ∧ timerid ∉ ids s.rest
  kept : timerid ∉ s.ran → timerid ∉ s.targets →
    timerid ∈ ids s.queue.timers ∨ timerid ∈ ids s.rest

/-- What has become of the timers. -/
structure Kept (s : TimerEvents) : Prop where
  ran : ∀ id ∈ s.ran, id ∈ s.added.map Timer.id
  /-- The batch is what has run and what is still to run. -/
  batch : ∀ now expired rest, s.phase = .running now expired rest →
    ids expired = s.ranNow ++ ids rest
  ranNow : s.ranNow.Nodup
  cancelled : ∀ id ∈ s.queue.cancelTimers, id ∈ s.targets
  oneShot : ∀ timer ∈ s.added, timer.repeat_ = false → s.OneShot timer.id
  repeating : ∀ timer ∈ s.added, timer.repeat_ = true → timer.id ∉ s.targets →
    timer.id ∈ ids s.entries

/-- The callback that runs next is of a timer in the batch, which has not run in this event. -/
theorem Kept.runs {now : Timestamp} {expired rest : List ExpiredTimer} {e : ExpiredTimer}
    (h : s.Kept) (hknown : s.Known) (hphase : s.phase = .running now expired (e :: rest)) :
    e.id ∈ ids s.entries ∧ e.id ∉ ids s.queue.timers ∧ e.id ∉ s.ranNow ∧ e.id ∉ ids rest := by
  have hbatch := h.batch now expired (e :: rest) hphase
  have hmem : e.id ∈ ids expired := by
    rw [hbatch]
    simp [ids]
  have hentries : ids s.entries = ids s.queue.timers ++ ids expired := by
    rw [entries, hphase]
    exact List.map_append
  have honce := hknown.once
  rw [hentries] at honce ⊢
  obtain ⟨-, hexpired, hapart⟩ := List.nodup_append.1 honce
  rw [hbatch] at hexpired
  obtain ⟨-, hrest, hnow⟩ := List.nodup_append.1 hexpired
  refine ⟨List.mem_append_right _ hmem, fun htimers => hapart _ htimers _ hmem rfl,
    fun hran => hnow _ hran _ List.mem_cons_self rfl, (List.nodup_cons.1 hrest).1⟩

theorem Known.interval_eq (h : s.Known) {e : ExpiredTimer} (he : e ∈ s.entries) {timer : Timer}
    (hadded : timer ∈ s.added) (hid : timer.id = e.id) : timer.interval = e.timer.interval := by
  obtain ⟨timer', hadded', hid', hinterval⟩ := h.added e he
  rw [List.inj_on_of_nodup_map h.distinct hadded hadded' (hid.trans hid'.symm), hinterval]

/-- Whether an entry repeats is up to the timer added. -/
theorem Known.repeat_eq (h : s.Known) {e : ExpiredTimer} (he : e ∈ s.entries) {timer : Timer}
    (hadded : timer ∈ s.added) (hid : timer.id = e.id) : timer.repeat_ = e.timer.repeat_ := by
  rw [Timer.repeat_, Timer.repeat_, h.interval_eq he hadded hid]

theorem cancel_ids {q : TimerQueue} {timerid id : TimerID} (hne : id ≠ timerid) :
    id ∈ ids (q.cancelTimerInLoop timerid).timers ↔ id ∈ ids q.timers := by
  rw [TimerQueue.cancelTimerInLoop_timers, ids, ids, List.mem_map, List.mem_map]
  refine exists_congr fun e => and_congr_left fun hid => ?_
  exact List.mem_eraseP_of_neg (by simpa [hid] using hne)

/-- The set of the entries of a step that inserts one. -/
theorem place_ids {timers timers' : List ExpiredTimer} {e : ExpiredTimer} {pos : Nat}
    (hplace : Ordered.place ExpiredTimer.lt timers e pos = some timers') {id : TimerID}
    (hne : id ≠ e.id) : id ∈ ids timers' ↔ id ∈ ids timers := by
  rcases Ordered.perm_of_place hplace with rfl | hperm
  · rfl
  · rw [ids, (hperm.map _).mem_iff, List.map_cons, List.mem_cons]
    exact or_iff_right hne

/-- Nothing happens to the timer. -/
theorem OneShot.of_same {timerid : TimerID} (h : s.OneShot timerid) (hran : t.ran = s.ran)
    (htargets : timerid ∈ s.targets → timerid ∈ t.targets)
    (htimers : timerid ∈ ids t.queue.timers ∨ timerid ∈ ids t.rest ↔
      timerid ∈ ids s.queue.timers ∨ timerid ∈ ids s.rest) : t.OneShot timerid where
  once := hran ▸ h.once
  gone hmem := by
    obtain ⟨hnot, hnot'⟩ := h.gone (hran ▸ hmem)
    exact not_or.1 fun hor => (htimers.1 hor).elim hnot hnot'
  kept hnot htarget := htimers.2 (h.kept (hran ▸ hnot) fun hmem => htarget (htargets hmem))

/-- It is cancelled. -/
theorem OneShot.cancel {timerid : TimerID} (h : s.OneShot timerid) :
    OneShot { s with
      queue := s.queue.cancelTimerInLoop timerid
      targets := s.targets ++ [timerid] } timerid where
  once := h.once
  gone hmem := by
    refine ⟨fun htimers => (h.gone hmem).1 ?_, (h.gone hmem).2⟩
    rw [TimerQueue.cancelTimerInLoop_timers] at htimers
    exact (List.eraseP_sublist.map _).subset htimers
  kept _ htarget := absurd (List.mem_append_right _ (List.mem_singleton.2 rfl)) htarget

/-- Its callback runs. -/
theorem OneShot.run {now : Timestamp} {expired rest : List ExpiredTimer} {e : ExpiredTimer}
    (h : s.OneShot e.id) (hphase : s.phase = .running now expired (e :: rest))
    (htimers : e.id ∉ ids s.queue.timers) (hrest : e.id ∉ ids rest) :
    OneShot { s with
      phase := .running now expired rest
      ran := s.ran ++ [e.id]
      ranNow := s.ranNow ++ [e.id] } e.id where
  once := by
    have hnot : e.id ∉ s.ran := fun hran =>
      (h.gone hran).2 (by simp [TimerEvents.rest, hphase, ids])
    rw [List.count_append, List.count_eq_zero.2 hnot]
    simp
  gone _ := ⟨htimers, hrest⟩
  kept hnot := absurd (List.mem_append_right _ (List.mem_singleton.2 rfl)) hnot

/-- The callback of another timer runs. -/
theorem OneShot.run_other {now : Timestamp} {expired rest : List ExpiredTimer} {e : ExpiredTimer}
    {timerid : TimerID} (h : s.OneShot timerid)
    (hphase : s.phase = .running now expired (e :: rest)) (hne : timerid ≠ e.id) :
    OneShot { s with
      phase := .running now expired rest
      ran := s.ran ++ [e.id]
      ranNow := s.ranNow ++ [e.id] } timerid := by
  have hran : timerid ∈ s.ran ++ [e.id] ↔ timerid ∈ s.ran := by simp [hne]
  have hrest : timerid ∈ ids s.rest ↔ timerid ∈ ids rest := by
    simp [TimerEvents.rest, hphase, ids, hne]
  refine ⟨?_, fun hmem => ?_, fun hnot htarget => ?_⟩
  · rw [List.count_append, List.count_singleton, if_neg (by simpa using hne.symm)]
    exact h.once
  · exact (h.gone (hran.1 hmem)).imp_right fun hnot hmem' => hnot (hrest.2 hmem')
  · exact (h.kept (fun hmem => hnot (hran.2 hmem)) htarget).imp_right hrest.1

theorem OneShot.step {timer : Timer} (h : s.OneShot timer.id) (hkept : s.Kept) (hknown : s.Known)
    (hadded : timer ∈ s.added) (honeShot : timer.repeat_ = false) (hstep : Step s a t) :
    t.OneShot timer.id := by
  cases hstep with
  | add _ hnew _ hplace =>
      exact h.of_same rfl id (or_congr_left (place_ids hplace (hnew timer hadded)))
  | @cancel timerid =>
      by_cases heq : timer.id = timerid
      · exact heq ▸ h.cancel
      · exact h.of_same rfl (List.mem_append_left _) (or_congr_left (cancel_ids heq))
  | @handleRead now expired timers hphase hsplit =>
      refine h.of_same rfl id ?_
      simp [rest, hphase, ids, ← hsplit, or_comm]
  | @runTimer now expired rest e hphase =>
      obtain ⟨-, htimers, -, hrest⟩ := hkept.runs hknown hphase
      by_cases heq : timer.id = e.id
      · rw [heq] at h ⊢
        exact h.run hphase htimers hrest
      · exact h.run_other hphase heq
  | beginReset hphase | endReset hphase | skipTimer hphase =>
      refine h.of_same rfl id ?_
      simp [rest, hphase, ids]
  | @resetTimer now rest e pos timer' timers hphase hrestarted hplace =>
      refine h.of_same rfl id (or_congr (place_ids hplace ?_) (by simp [TimerEvents.rest, hphase]))
      intro heq
      have he : e ∈ s.entries := by simp [entries, hphase]
      have hrepeat := (TimerLoop.restarted_eq_some hrestarted).1
      rw [← hknown.repeat_eq he hadded (heq.trans (restarted_eq hrestarted).1), honeShot] at hrepeat
      exact absurd hrepeat Bool.false_ne_true

/-- A repeating timer that nobody has cancelled keeps its entry. -/
theorem Kept.repeating_step (h : s.Kept) (hknown : s.Known) (hstep : Step s a t) (timer : Timer)
    (hadded : timer ∈ t.added) (hrepeat : timer.repeat_ = true) (htarget : timer.id ∉ t.targets) :
    timer.id ∈ ids t.entries := by
  have hsame (hentries : (ids s.entries).Perm (ids t.entries)) (hadded : timer ∈ s.added)
      (htargets : t.targets = s.targets) : timer.id ∈ ids t.entries :=
    hentries.mem_iff.1 (h.repeating timer hadded hrepeat (htargets ▸ htarget))
  cases hstep with
  | @add timer' pos timers armed hcallable hnew hadd hplace =>
      obtain ⟨-, hperm⟩ := hknown.add_perm hnew hplace
      refine ((hperm.append_right _).map ExpiredTimer.id).mem_iff.2 ?_
      rcases List.mem_append.1 hadded with hadded | hadded
      · exact List.mem_cons_of_mem _ (h.repeating timer hadded hrepeat htarget)
      · rw [List.mem_singleton.1 hadded]
        exact List.mem_cons_self
  | @cancel timerid =>
      obtain ⟨htarget, hne⟩ := not_or.1 (List.mem_append.not.1 htarget)
      have hmem := h.repeating timer hadded hrepeat htarget
      rw [entries, ids, List.map_append, List.mem_append] at hmem ⊢
      exact hmem.imp_left (cancel_ids (by simpa using hne)).2
  | @handleRead now expired timers hphase hsplit =>
      refine hsame (List.Perm.map _ ?_) hadded rfl
      rw [entries, entries, hphase, ← hsplit]
      simpa using List.perm_append_comm
  | runTimer hphase | beginReset hphase | endReset hphase =>
      refine hsame (List.Perm.of_eq ?_) hadded rfl
      simp [entries, hphase]
  | @skipTimer now rest e pos hphase hnone =>
      have hmem := h.repeating timer hadded hrepeat htarget
      have hne : timer.id ≠ e.id := by
        intro heq
        have he : e ∈ s.entries := by simp [entries, hphase]
        have hnot : e.id ∉ s.queue.cancelTimers := fun hcancelled =>
          htarget (heq ▸ h.cancelled _ hcancelled)
        rw [hknown.repeat_eq he hadded heq] at hrepeat
        exact absurd hnone (by simp [TimerQueue.restarted, hrepeat, hnot])
      simpa [entries, hphase, ids, hne] using hmem
  | @resetTimer now rest e pos timer' timers hphase hrestarted hplace =>
      obtain ⟨-, hperm⟩ := hknown.reset_perm hphase hrestarted hplace
      refine hsame (List.Perm.trans ?_ ((hperm.append_right _).map ExpiredTimer.id).symm) hadded rfl
      rw [entries, hphase, ids, List.map_append]
      refine List.perm_middle.trans (List.Perm.of_eq ?_)
      simp [← (restarted_eq hrestarted).1]
      rfl

theorem mem_cancelTimers {q : TimerQueue} {timerid id : TimerID}
    (h : id ∈ (q.cancelTimerInLoop timerid).cancelTimers) : id ∈ q.cancelTimers ∨ id = timerid := by
  simp only [TimerQueue.cancelTimerInLoop] at h
  split at h
  · exact Or.inl h
  · split at h
    · exact (List.mem_insert_iff.1 h).symm
    · exact Or.inl h

theorem rearm_cancelTimers (q : TimerQueue) : q.rearm.cancelTimers = q.cancelTimers := by
  unfold TimerQueue.rearm
  split <;> rfl

theorem Kept.ran_step (h : s.Kept) (hknown : s.Known) (hstep : Step s a t) :
    ∀ id ∈ t.ran, id ∈ t.added.map Timer.id := by
  cases hstep with
  | add =>
      intro id hid
      rw [List.map_append]
      exact List.mem_append_left _ (h.ran id hid)
  | runTimer hphase =>
      intro id hid
      rcases List.mem_append.1 hid with hid | hid
      · exact h.ran id hid
      · rw [List.mem_singleton.1 hid]
        obtain ⟨e, he, hmem⟩ := List.mem_map.1 (h.runs hknown hphase).1
        obtain ⟨timer, hadded, hid', -⟩ := hknown.added e he
        exact List.mem_map.2 ⟨timer, hadded, hid'.trans hmem⟩
  | cancel | handleRead | beginReset | resetTimer | skipTimer | endReset => exact h.ran

/-- What has run in this event stays apart from what is still to run. -/
theorem Kept.now_step (h : s.Kept) (hknown : s.Known) (hstep : Step s a t) :
    t.ranNow.Nodup ∧ ∀ now expired rest, t.phase = .running now expired rest →
      ids expired = t.ranNow ++ ids rest := by
  cases hstep with
  | handleRead =>
      refine ⟨List.nodup_nil, fun now expired rest hphase => ?_⟩
      obtain ⟨-, rfl, rfl⟩ := by simpa using hphase
      rfl
  | @runTimer now expired rest e hphase =>
      refine ⟨?_, fun now' expired' rest' hphase' => ?_⟩
      · refine List.nodup_append.2 ⟨h.ranNow, by simp, fun id hid id' hid' => ?_⟩
        rw [List.mem_singleton.1 hid']
        rintro rfl
        exact (h.runs hknown hphase).2.2.1 hid
      · obtain ⟨-, rfl, rfl⟩ := by simpa using hphase'
        rw [h.batch now expired _ hphase, List.append_assoc]
        rfl
  | add | cancel => exact ⟨h.ranNow, h.batch⟩
  | beginReset | resetTimer | skipTimer | endReset =>
      exact ⟨h.ranNow, fun _ _ _ hphase => absurd hphase (by simp)⟩

theorem Kept.oneShot_step (h : s.Kept) (hknown : s.Known) (hstep : Step s a t) (timer : Timer)
    (hadded : timer ∈ t.added) (honeShot : timer.repeat_ = false) : t.OneShot timer.id := by
  by_cases hold : timer ∈ s.added
  · exact (h.oneShot timer hold honeShot).step h hknown hold honeShot hstep
  · cases hstep with
    | @add timer' pos timers armed hcallable hnew hadd hplace =>
        obtain rfl : timer = timer' := by
          simpa using (List.mem_append.1 hadded).resolve_left hold
        obtain ⟨-, hperm⟩ := hknown.add_perm hnew hplace
        have hnot : timer.id ∉ s.ran := by
          intro hran
          obtain ⟨timer', hmem, hid⟩ := List.mem_map.1 (h.ran _ hran)
          exact hnew timer' hmem hid
        refine ⟨?_, fun hran => absurd hran hnot, fun _ _ => Or.inl ?_⟩
        · exact (List.count_eq_zero.2 hnot).trans_le (Nat.zero_le 1)
        · exact (hperm.map ExpiredTimer.id).mem_iff.2 List.mem_cons_self
    | cancel | handleRead | runTimer | beginReset | resetTimer | skipTimer | endReset =>
        exact absurd hadded hold

theorem Kept.step (h : s.Kept) (hknown : s.Known) (hstep : Step s a t) : t.Kept where
  ran := h.ran_step hknown hstep
  batch := (h.now_step hknown hstep).2
  ranNow := (h.now_step hknown hstep).1
  cancelled := by
    cases hstep with
    | cancel =>
        intro id hid
        rcases mem_cancelTimers hid with hid | rfl
        · exact List.mem_append_left _ (h.cancelled id hid)
        · exact List.mem_append_right _ (List.mem_singleton.2 rfl)
    | endReset =>
        intro id hid
        exact h.cancelled id (by simpa only [rearm_cancelTimers] using hid)
    | add | handleRead | runTimer | beginReset | resetTimer | skipTimer => exact h.cancelled
  oneShot := h.oneShot_step hknown hstep
  repeating := h.repeating_step hknown hstep

/-! ## Runs -/

theorem inv_of_reaches {ok : TimerEvents → Action → Prop} {as : List Action}
    (run : machine.Reaches ok as s) : s.Known ∧ s.Kept := by
  refine run.invariant (I := fun s => s.Known ∧ s.Kept) (fun _ hs => ?_) fun s a t h _ hstep =>
    ⟨h.1.step (step_cases hstep), h.2.step h.1 (step_cases hstep)⟩
  rw [show _ = new from hs]
  refine ⟨⟨?_, ?_, ?_, ?_⟩, ?_, ?_, ?_, ?_, ?_, ?_⟩
  all_goals simp [new, TimerQueue.new, entries, ids]

/-- Between two events every entry has the expiration of its timer and no timer has two. A one-shot
    timer runs once at most and is not in `timers_` then, and until then it is there unless somebody
    has cancelled it. A repeating timer that nobody has cancelled is there once. No timer runs twice
    in one event. -/
theorem conserved {as : List Action} (run : machine.Reaches Machine.anyStep as s) :
    (s.phase = .idle →
      (∀ e ∈ s.queue.timers, e.timestamp = s.expiration e.id) ∧ (ids s.queue.timers).Nodup) ∧
    (∀ timer ∈ s.added, timer.repeat_ = false → s.ran.count timer.id ≤ 1 ∧
      (timer.id ∈ s.ran → timer.id ∉ ids s.queue.timers) ∧
      (s.phase = .idle → timer.id ∉ s.ran → timer.id ∉ s.targets →
        timer.id ∈ ids s.queue.timers)) ∧
    (∀ timer ∈ s.added, timer.repeat_ = true → s.phase = .idle → timer.id ∉ s.targets →
      (ids s.queue.timers).count timer.id = 1) ∧
    s.ranNow.Nodup := by
  obtain ⟨hknown, hkept⟩ := inv_of_reaches run
  have hentries (hidle : s.phase = .idle) : s.entries = s.queue.timers := by
    simp [entries, hidle]
  refine ⟨fun hidle => ⟨fun e he => ?_, hentries hidle ▸ hknown.once⟩,
    fun timer hadded honeShot => ?_, fun timer hadded hrepeat hidle htarget => ?_, hkept.ranNow⟩
  · exact (hknown.expiration e (hentries hidle ▸ he)).1
  · have h := hkept.oneShot timer hadded honeShot
    refine ⟨h.once, fun hran => (h.gone hran).1, fun hidle hnot htarget => ?_⟩
    exact (h.kept hnot htarget).resolve_right (by simp [rest, hidle, ids])
  · have hmem := hkept.repeating timer hadded hrepeat htarget
    have honce := hknown.once
    rw [hentries hidle] at hmem honce
    exact List.count_eq_one_of_mem honce hmem

/-- The callback of the repeating timer 1 adds timer 3 and cancels timer 2, which has expired. -/
def addAndCancelInCallback : List Action :=
  [.addTimerInLoop ⟨⟨1⟩, 10, 1⟩ 0, .addTimerInLoop ⟨⟨5⟩, 0, 2⟩ 1, .handleRead ⟨5⟩, .runTimer,
    .addTimerInLoop ⟨⟨7⟩, 0, 3⟩ 0, .cancelTimerInLoop 2, .runTimer, .beginReset, .resetTimer 0,
    .resetTimer 0, .endReset]

theorem conserved_addAndCancelInCallback :
    ∃ s, machine.Reaches Machine.anyStep addAndCancelInCallback s ∧ s.ran = [1, 2] ∧
      ids s.queue.timers = [1, 3] ∧ s.ranNow.Nodup := by
  obtain ⟨s, run, hran, hids⟩ := Machine.exists_reaches_of_exec machine Machine.anyStep .new
    addAndCancelInCallback (fun s => s.ran = [1, 2] ∧ ids s.queue.timers = [1, 3]) rfl (by decide)
  exact ⟨s, run, hran, hids, (conserved run).2.2.2⟩

end TimerEvents
