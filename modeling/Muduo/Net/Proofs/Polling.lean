import Mathlib.Algebra.Group.Nat.Defs
import Mathlib.Data.List.Nodup
import Muduo.Lib.History
import Muduo.Net.Polling
import Muduo.Net.Proofs.Poller

set_option autoImplicit false

/-! # What a poll finds

The channels that a poll makes active are registered, and none is there twice. A poll that leaves
out a channel with something to report has filled `events_`, which it doubles: so few polls do. -/

universe u

namespace Polling

open Poller (Report Registry reports Agree)

variable {χ : Type u} {fd : χ → Nat} {ready : List (Nat × Revents)} {events : List (Report χ)}

/-! ## Reports -/

/-- Every registration is under the descriptor of its channel. -/
structure Registered (fd : χ → Nat) (s : Registry χ) : Prop where
  agree : Agree fd s
  owned : ∀ q event, s.epoll q = some event → fd event.ptr = q

theorem registered_new : Registered fd (.new fd) where
  agree := by
    constructor <;> intro p <;> simp [Registry.new, Channel.new, Poller.known, Poller.entry]
  owned q event h := absurd h (by simp [Registry.new])

theorem Registered.call [DecidableEq χ] {registry : Registry χ} (kernel : Poller.Kernel χ)
    (hfd : Function.Injective fd) (h : Registered fd registry) (p : χ) (call : Poller.Call) :
    Registered fd (registry.call kernel p call) where
  agree := Poller.agree_call kernel hfd h.agree p call
  owned q event hevent := by
    obtain ⟨c, ops, -, -, -, heq⟩ := Poller.call_eq kernel h.agree p call
    rw [heq] at hevent
    dsimp only at hevent
    by_cases hq : q = fd p
    · subst hq
      rw [Function.update_self, Poller.entry_eq_some_iff] at hevent
      rw [hevent.2]
    · rw [Function.update_of_ne hq] at hevent
      exact h.owned q event hevent

theorem eq_of_report {epoll : Poller.EpollSet χ} {q : Nat} {revents : Revents} {report : Report χ}
    (h : Poller.report? epoll q revents = some report) :
    ∃ event, epoll q = some event ∧ report = ⟨event.events.reported revents, event.ptr⟩ ∧
      report.events ≠ Revents.none := by
  obtain ⟨event, hevent, hsome⟩ := Option.bind_eq_some_iff.1 h
  dsimp only at hsome
  split at hsome
  · exact absurd hsome (by simp)
  · rename_i hsomething
    obtain rfl := Option.some.inj hsome
    exact ⟨event, hevent, rfl, hsomething⟩

/-- What can be reported is of a registered channel. -/
theorem Registered.report {registry : Registry χ} (h : Registered fd registry) {report : Report χ}
    (hreport : report ∈ reports registry.epoll ready) :
    registry.hasChannel report.ptr ∧ (registry.channel report.ptr).state = .add ∧
      report.events ≠ Revents.none ∧ ∃ revents, (fd report.ptr, revents) ∈ ready ∧
        report.events = (registry.channel report.ptr).events.reported revents := by
  obtain ⟨⟨q, revents⟩, hready, hsome⟩ := List.mem_filterMap.1 hreport
  obtain ⟨event, hevent, rfl, hsomething⟩ := eq_of_report hsome
  obtain rfl := h.owned q event hevent
  rw [h.agree.epoll, Poller.entry_eq_some_iff] at hevent
  obtain ⟨hstate, hevents⟩ := hevent
  refine ⟨?_, hstate, hsomething, revents, hready, congrArg (·.events.reported revents) hevents⟩
  unfold Registry.hasChannel
  rw [h.agree.fds, h.agree.channels, Poller.known_eq_some_iff, hstate]
  simp

/-- Each descriptor is reported once. -/
theorem Registered.sublist {registry : Registry χ} (h : Registered fd registry)
    (ready : List (Nat × Revents)) :
    ((reports registry.epoll ready).map fun report => fd report.ptr).Sublist
      (ready.map Prod.fst) := by
  induction ready with
  | nil => exact List.Sublist.refl _
  | cons r ready ih =>
      obtain ⟨q, revents⟩ := r
      simp only [reports, List.filterMap_cons, List.map_cons] at ih ⊢
      cases hreport : Poller.report? registry.epoll q revents with
      | none => exact ih.cons _
      | some report =>
          obtain ⟨event, hevent, rfl, -⟩ := eq_of_report hreport
          simp only [List.map_cons, h.owned q event hevent]
          exact ih.cons_cons _

theorem Registered.nodup {registry : Registry χ} (h : Registered fd registry)
    (hready : (ready.map Prod.fst).Nodup) :
    ((reports registry.epoll ready).map Report.ptr).Nodup := by
  refine List.Nodup.of_map fd ?_
  rw [List.map_map]
  exact hready.sublist (h.sublist ready)

/-! ## One poll -/

variable [DecidableEq χ] {s : Polling χ}

@[simp] theorem registry_fillActiveChannels (s : Polling χ) (events : List (Report χ)) :
    (s.fillActiveChannels events).registry = s.registry := by
  induction events generalizing s with
  | nil => rfl
  | cons event events ih => exact ih _

@[simp] theorem eventsSize_fillActiveChannels (s : Polling χ) (events : List (Report χ)) :
    (s.fillActiveChannels events).eventsSize = s.eventsSize := by
  induction events generalizing s with
  | nil => rfl
  | cons event events ih => exact ih _

@[simp] theorem activeChannels_fillActiveChannels (s : Polling χ) (events : List (Report χ)) :
    (s.fillActiveChannels events).activeChannels = s.activeChannels ++ events.map Report.ptr := by
  induction events generalizing s with
  | nil => simp [fillActiveChannels]
  | cons event events ih =>
      refine (ih _).trans ?_
      simp

/-- `SetRevents` of each report, none of which is overwritten. -/
theorem revents_fillActiveChannels (s : Polling χ) (hnodup : (events.map Report.ptr).Nodup) :
    (∀ event ∈ events, (s.fillActiveChannels events).revents event.ptr = event.events) ∧
      ∀ p, p ∉ events.map Report.ptr → (s.fillActiveChannels events).revents p = s.revents p := by
  induction events generalizing s with
  | nil => exact ⟨by simp, fun _ _ => rfl⟩
  | cons event events ih =>
      rw [List.map_cons, List.nodup_cons] at hnodup
      obtain ⟨hset, hkept⟩ := ih { s with
        revents := Function.update s.revents event.ptr event.events
        activeChannels := s.activeChannels ++ [event.ptr] } hnodup.2
      refine ⟨List.forall_mem_cons.2 ⟨(hkept _ hnodup.1).trans ?_, hset⟩, fun p hp => ?_⟩
      · simp
      · rw [List.map_cons, List.mem_cons, not_or] at hp
        refine (hkept p hp.2).trans ?_
        simp [hp.1]

/-- What a poll that `epoll_wait` answers does. -/
theorem poll_cases (s : Polling χ) (events : List (Report χ)) :
    (s.poll (some events)).registry = s.registry ∧
    (s.poll (some events)).activeChannels = events.map Report.ptr ∧
    (s.poll (some events)).revents
      = (({ s with activeChannels := [] } : Polling χ).fillActiveChannels events).revents ∧
    (s.poll (some events)).eventsSize
      = if 0 < events.length ∧ events.length = s.eventsSize then s.eventsSize * 2
        else s.eventsSize := by
  cases events with
  | nil => exact ⟨rfl, rfl, rfl, rfl⟩
  | cons event events =>
      simp only [poll, List.length_cons, Nat.succ_pos, if_true, eventsSize_fillActiveChannels,
        gt_iff_lt, true_and]
      split <;> simp

/-! ## Runs -/

theorem registered_of_reaches (kernel : Poller.Kernel χ) (hfd : Function.Injective fd)
    {ok : Polling χ → Action χ → Prop} {as : List (Action χ)}
    (run : (machine kernel fd).Reaches ok as s) : Registered fd s.registry := by
  refine run.invariant (I := fun s => Registered fd s.registry) ?_ ?_
  · rintro s rfl
    exact registered_new
  · rintro s a t h - hstep
    obtain rfl := Option.some.inj hstep
    cases a with
    | call channel call => exact h.call kernel hfd channel call
    | poll ready answer =>
        cases answer with
        | none => exact h
        | some events =>
            obtain ⟨hregistry, -⟩ := s.poll_cases events
            exact (congrArg (Registered fd) hregistry).mpr h

/-- In every run of calls on channels with distinct descriptors and of polls, a poll makes each
    channel active at most once, and only registered ones, with what they have asked for or an error
    or a hang-up, and with something. Either no channel with something to report is left out, or
    `events_` was full and has been doubled. -/
theorem poll_reports (kernel : Poller.Kernel χ) (hfd : Function.Injective fd)
    {as : List (Action χ)} (run : (machine kernel fd).Reaches EpollWait as s)
    (hwait : s.EpollWait (.poll ready (some events))) :
    let t := s.poll (some events)
    t.activeChannels.Nodup ∧
    (∀ p ∈ t.activeChannels, t.registry.hasChannel p ∧ (t.registry.channel p).state = .add ∧
      t.revents p ≠ Revents.none ∧ ∃ revents, (fd p, revents) ∈ ready ∧
        t.revents p = (t.registry.channel p).events.reported revents) ∧
    ((∀ report ∈ reports t.registry.epoll ready, report.ptr ∈ t.activeChannels) ∨
      t.activeChannels.length = s.eventsSize ∧ t.eventsSize = s.eventsSize * 2) := by
  have hregistered := registered_of_reaches kernel hfd run
  obtain ⟨hready, hsub, hlength⟩ := hwait
  obtain ⟨hregistry, hactive, hrevents, hsize⟩ := s.poll_cases events
  have hnodup : (events.map Report.ptr).Nodup := by
    obtain ⟨l, hperm, hsublist⟩ := hsub
    refine ((hperm.map Report.ptr).nodup_iff).1 ?_
    exact (hregistered.nodup hready).sublist (hsublist.map Report.ptr)
  obtain ⟨hset, -⟩ := revents_fillActiveChannels { s with activeChannels := [] } hnodup
  simp only [hregistry, hactive, hrevents, hsize]
  refine ⟨hnodup, fun p hp => ?_, ?_⟩
  · obtain ⟨report, hreport, rfl⟩ := List.mem_map.1 hp
    rw [hset report hreport]
    exact hregistered.report (List.Subperm.subset hsub hreport)
  · rcases Nat.lt_or_ge events.length (reports s.registry.epoll ready).length with hless | hall
    · right
      have hfull : events.length = s.eventsSize := by omega
      rw [List.length_map]
      refine ⟨hfull, ?_⟩
      split <;> omega
    · left
      have hperm := List.Subperm.perm_of_length_le hsub hall
      exact fun report hreport => List.mem_map_of_mem (hperm.mem_iff.2 hreport)

/-- Two channels, one of them reading. -/
def oneReads : List (Action Bool) := [.call true .enableReading, .call false .disableAll]

theorem poll_reports_oneReads :
    ∃ s, (machine (Poller.Kernel.strict Bool) (cond · 5 6)).Reaches EpollWait oneReads s ∧
      ∀ p ∈ (s.poll (some [⟨⟨true, false, false, false, true⟩, true⟩])).activeChannels,
        (s.poll (some [⟨⟨true, false, false, false, true⟩, true⟩])).registry.hasChannel p := by
  have hfd : Function.Injective fun b : Bool => cond b 5 6 := by
    intro a b h
    cases a <;> cases b <;> simp_all
  obtain ⟨s, run, hwait⟩ := Machine.exists_reaches_of_exec
    (machine (Poller.Kernel.strict Bool) (cond · 5 6)) EpollWait (new (cond · 5 6)) oneReads
    (EpollWait · (.poll [(5, ⟨true, false, true, false, true⟩)]
      (some [⟨⟨true, false, false, false, true⟩, true⟩]))) rfl (by decide)
  exact ⟨s, run, fun p hp => ((poll_reports _ hfd run hwait).2.1 p hp).1⟩

/-! ## How often a channel is left out -/

/-- Something to report is left out. -/
def leavesOut (s : Polling χ) : Action χ → Bool
  | .poll ready (some events) => events.length < (reports s.registry.epoll ready).length
  | _ => false

/-- The machine with the number of polls that have left out something. -/
def counting (kernel : Poller.Kernel χ) (fd : χ → Nat) : Machine (Polling χ × Nat) (Action χ) :=
  (machine kernel fd).observing (fun _ => 0) fun count s a _ => count + (s.leavesOut a).toNat

def Action.readyCount : Action χ → Nat
  | .poll ready _ => ready.length
  | .call _ _ => 0

/-- No more than `n` descriptors are ready at once. -/
def ReadyAtMost (n : Nat) (p : Polling χ × Nat) (a : Action χ) : Prop :=
  p.1.EpollWait a ∧ a.readyCount ≤ n

instance (n : Nat) (p : Polling χ × Nat) (a : Action χ) : Decidable (ReadyAtMost n p a) :=
  inferInstanceAs (Decidable (_ ∧ _))

/-- A step doubles the size only for a full `events_`, and does so when something is left out. -/
theorem eventsSize_cases (kernel : Poller.Kernel χ) {n : Nat} {a : Action χ}
    (hwait : s.EpollWait a) (hready : a.readyCount ≤ n)
    (hpos : 0 < s.eventsSize) :
    (s.leavesOut a = false ∧ (s.step kernel a).eventsSize = s.eventsSize) ∨
      (s.leavesOut a = false ∧ s.eventsSize ≤ n ∧
        (s.step kernel a).eventsSize = s.eventsSize * 2) ∨
      s.leavesOut a = true ∧ s.eventsSize < n ∧
        (s.step kernel a).eventsSize = s.eventsSize * 2 := by
  cases a with
  | call channel call => exact Or.inl ⟨rfl, rfl⟩
  | poll ready answer =>
      cases answer with
      | none => exact Or.inl ⟨rfl, rfl⟩
      | some events =>
          obtain ⟨-, -, hlength⟩ := hwait
          have hle : (reports s.registry.epoll ready).length ≤ n :=
            (List.length_filterMap_le _ _).trans hready
          obtain ⟨-, -, -, hsize⟩ := s.poll_cases events
          simp only [leavesOut, step, hsize, decide_eq_false_iff_not, decide_eq_true_eq]
          rcases Nat.lt_or_ge events.length (reports s.registry.epoll ready).length
            with hless | hall
          · exact Or.inr (Or.inr ⟨hless, by omega, if_pos (by omega)⟩)
          · by_cases hfull : events.length = s.eventsSize
            · exact Or.inr (Or.inl ⟨by omega, by omega, if_pos (by omega)⟩)
            · exact Or.inl ⟨by omega, if_neg (by omega)⟩

/-- When no more than `n` descriptors are ready at once, `events_` has room for twice as many at
    most, and the number of polls that leave a channel out is no more than it takes to double the
    size of `events_` up to there. -/
theorem rarely_incomplete (kernel : Poller.Kernel χ) {n : Nat} {as : List (Action χ)}
    {p : Polling χ × Nat} (run : (counting kernel fd).Reaches (ReadyAtMost n) as p) :
    p.1.eventsSize ≤ max initEventListSize (2 * n) ∧
      initEventListSize * 2 ^ p.2 ≤ p.1.eventsSize ∧
      (p.2 = 0 ∨ initEventListSize * 2 ^ (p.2 - 1) < n) := by
  refine run.invariant (I := fun p => p.1.eventsSize ≤ max initEventListSize (2 * n) ∧
    initEventListSize * 2 ^ p.2 ≤ p.1.eventsSize ∧
      (p.2 = 0 ∨ initEventListSize * 2 ^ (p.2 - 1) < n)) ?_ ?_
  · rintro ⟨s, count⟩ ⟨hs, hcount⟩
    obtain rfl : count = 0 := hcount
    obtain rfl : s = new fd := hs
    exact ⟨Nat.le_max_left _ _, Nat.le_refl _, Or.inl rfl⟩
  · rintro ⟨s, count⟩ a q ⟨hmax, hsize, hcount⟩ ⟨hwait, hready⟩ hstep
    obtain rfl := Option.some.inj hstep
    have hpos : 0 < initEventListSize * 2 ^ count := Nat.mul_pos (by decide) (Nat.two_pow_pos _)
    have hcases := eventsSize_cases kernel hwait hready (Nat.lt_of_lt_of_le hpos hsize)
    dsimp only at hmax hsize hcount hcases ⊢
    obtain ⟨hnone, hsame⟩ | ⟨hnone, hle, hdouble⟩ | ⟨hout, hless, hdouble⟩ := hcases
    · rw [hnone, hsame]
      exact ⟨hmax, hsize, hcount⟩
    · rw [hnone, hdouble]
      exact ⟨by omega, Nat.le_trans hsize (by omega), hcount⟩
    · rw [hout, hdouble]
      refine ⟨by omega, ?_, Or.inr (Nat.lt_of_le_of_lt hsize hless)⟩
      rw [Bool.toNat_true, Nat.pow_succ, ← Nat.mul_assoc]
      exact Nat.mul_le_mul_right 2 hsize

/-- Seventeen channels that are all readable, and a poll. -/
def seventeenReady : List (Action (Fin 17)) :=
  (List.finRange 17).map (.call · .enableReading) ++
    [.poll ((List.range 17).map (·, ⟨true, false, false, false, false⟩))
      (some ((List.finRange 16).map (⟨⟨true, false, false, false, false⟩, ·.succ⟩)))]

/-- The first poll leaves one out, and makes room for it. -/
theorem rarely_incomplete_seventeenReady :
    ∃ p, (counting (Poller.Kernel.strict (Fin 17)) Fin.val).Reaches (ReadyAtMost 17)
        seventeenReady p ∧ p.2 = 1 ∧ p.1.eventsSize ≤ max initEventListSize (2 * 17) := by
  obtain ⟨p, run, hcount⟩ := Machine.exists_reaches_of_exec
    (counting (Poller.Kernel.strict (Fin 17)) Fin.val) (ReadyAtMost 17) (new Fin.val, 0)
    seventeenReady (fun p => p.2 = 1) ⟨rfl, rfl⟩ (by decide +kernel)
  exact ⟨p, run, hcount, (rarely_incomplete _ run).1⟩

end Polling
