import Muduo.Net.Poller

set_option autoImplicit false

/-! # Channel, poller and kernel agree

The state and the mask of a channel determine its entry in `channels_` and its entry in the epoll
set (`known`, `entry`). Every function of a channel keeps both entries what they have to be
(`call_eq`), and so it only issues legal operations, which leaves no way to `LOG_FATAL`. -/

universe u

namespace Poller

variable {χ : Type u}

/-! ## What a channel's state says -/

/-- The entry of a channel in `channels_`. -/
def known (c : Channel) (channel : χ) : Option χ :=
  if c.state = .new then none else some channel

/-- The entry of a channel in the epoll set. -/
def entry (c : Channel) (channel : χ) : Option (EpollEvent χ) :=
  if c.state = .add then some ⟨c.events, channel⟩ else none

/-- All three copies of the registrations agree. -/
structure Agree (fd : χ → Nat) (s : Registry χ) : Prop where
  fds : ∀ p, (s.channel p).fd = fd p
  channels : ∀ p, s.channels (fd p) = known (s.channel p) p
  epoll : ∀ p, s.epoll (fd p) = entry (s.channel p) p
  deleted : ∀ p, (s.channel p).state = .deleted → (s.channel p).events = .none

theorem known_eq_some_iff {c : Channel} {channel : χ} :
    known c channel = some channel ↔ c.state ≠ .new := by
  unfold known
  split <;> simp_all

theorem entry_eq_some_iff {c : Channel} {channel : χ} {event : EpollEvent χ} :
    entry c channel = some event ↔ c.state = .add ∧ event = ⟨c.events, channel⟩ := by
  unfold entry
  split <;> simp_all [eq_comm]

/-! ## One function of a channel -/

/-- The mask a call leaves; `remove` leaves it alone. -/
def Call.mask : Call → Events → Events
  | .enableReading, e => { e with pollIn := true, pollPri := true }
  | .disableReading, e => { e with pollIn := false, pollPri := false }
  | .enableWriting, e => { e with pollOut := true }
  | .disableWriting, e => { e with pollOut := false }
  | .disableAll, _ => .none
  | .remove, e => e

/-- Five of the six are `UpdateChannel` on the new mask. -/
theorem Call.run_eq (call : Call) (hcall : call ≠ .remove) (c : Channel) :
    call.run c = updateChannel { c with events := call.mask c.events } := by
  cases call with
  | remove => exact absurd rfl hcall
  | enableReading => rfl
  | disableReading => rfl
  | enableWriting => rfl
  | disableWriting => rfl
  | disableAll => rfl

section

variable (kernel : Kernel χ) (channel : χ) {s : Registry χ} {c : Channel}

/-- A legal operation is carried out. -/
theorem perform_epollCtl {op : Op} {fd : Nat} {events : Events}
    (hlegal : legal s.epoll op fd = true) :
    s.perform kernel channel (.epollCtl op fd events) =
      { s with epoll := change s.epoll op fd ⟨events, channel⟩,
               issued := s.issued ++ [(op, true)] } := by
  simp only [Registry.perform, kernel.succeeds _ _ _ _ hlegal, hlegal]

/-- `UpdateChannel` leaves the entries of the channel it leaves, by one legal operation. -/
theorem foldl_updateChannel (hchannels : s.channels c.fd = known c channel)
    (hepoll : (s.epoll c.fd).isSome = decide (c.state = .add)) :
    ∃ op, (updateChannel c).2.foldl (Registry.perform kernel channel) s =
      { s with channels := Function.update s.channels c.fd (known (updateChannel c).1 channel),
               epoll := Function.update s.epoll c.fd (entry (updateChannel c).1 channel),
               issued := s.issued ++ [(op, true)] } := by
  cases hstate : c.state with
  | new =>
      have habsent : legal s.epoll .add c.fd = true := by simpa [legal, hstate] using hepoll
      refine ⟨.add, ?_⟩
      simp only [updateChannel, hstate, update, List.cons_append, List.nil_append,
        List.foldl_cons, List.foldl_nil]
      rw [perform_epollCtl kernel channel (s := s.perform kernel channel (.setChannel c.fd))
        habsent]
      rfl
  | deleted =>
      have habsent : legal s.epoll .add c.fd = true := by simpa [legal, hstate] using hepoll
      have hsame : s.channels c.fd = some channel := by simpa [known, hstate] using hchannels
      refine ⟨.add, ?_⟩
      simp only [updateChannel, hstate, update, List.foldl_cons, List.foldl_nil]
      rw [perform_epollCtl kernel channel habsent]
      simp [known, entry, change, ← hsame]
  | add =>
      have hsame : s.channels c.fd = some channel := by simpa [known, hstate] using hchannels
      by_cases hnone : c.isNoneEvent = true
      · have hpresent : legal s.epoll .del c.fd = true := by simpa [legal, hstate] using hepoll
        refine ⟨.del, ?_⟩
        simp only [updateChannel, hstate, hnone, update, if_true, List.foldl_cons, List.foldl_nil]
        rw [perform_epollCtl kernel channel hpresent]
        simp [known, entry, change, ← hsame]
      · have hpresent : legal s.epoll .mod c.fd = true := by simpa [legal, hstate] using hepoll
        refine ⟨.mod, ?_⟩
        simp only [updateChannel, hstate, hnone, update]
        rw [if_neg (by simp), List.foldl_cons, List.foldl_nil,
          perform_epollCtl kernel channel hpresent]
        simp [known, entry, change, hstate, ← hsame]

/-- `RemoveChannel` takes the entries out, by a legal operation if there is one to take out of the
    epoll set. -/
theorem foldl_removeChannel (hepoll : (s.epoll c.fd).isSome = decide (c.state = .add)) :
    ∃ ops : List (Op × Bool), (∀ o ∈ ops, o.2 = true) ∧
      (removeChannel c).2.foldl (Registry.perform kernel channel) s =
      { s with channels := Function.update s.channels c.fd (known (removeChannel c).1 channel),
               epoll := Function.update s.epoll c.fd (entry (removeChannel c).1 channel),
               issued := s.issued ++ ops } := by
  by_cases hstate : c.state = .add
  · have hpresent : legal s.epoll .del c.fd = true := by simpa [legal, hstate] using hepoll
    refine ⟨[(.del, true)], by simp, ?_⟩
    simp only [removeChannel, if_pos hstate, update, List.foldl_cons, List.foldl_nil]
    rw [perform_epollCtl kernel channel (s := s.perform kernel channel (.eraseChannel c.fd))
      hpresent]
    rfl
  · have habsent : s.epoll c.fd = none := by simpa [hstate] using hepoll
    refine ⟨[], by simp, ?_⟩
    simp only [removeChannel, if_neg hstate, List.foldl_cons, List.foldl_nil]
    simp [Registry.perform, known, entry, ← habsent]

end

/-- `DELETED` is left with an empty mask only. -/
theorem updateChannel_deleted {c : Channel} (h : (updateChannel c).1.state = .deleted) :
    (updateChannel c).1.events = .none := by
  rw [show (updateChannel c).1.events = c.events from c.update_events]
  unfold updateChannel at h
  split at h
  · exact absurd h (by simp)
  · exact absurd h (by simp)
  · rename_i hstate
    split at h
    · rename_i hnone
      exact of_decide_eq_true hnone
    · rw [hstate] at h
      exact absurd h (by simp)

variable [DecidableEq χ] {fd : χ → Nat} {s : Registry χ}

/-- One call: the channel's own record changes, its entries follow, and what is issued is legal. -/
theorem call_eq (kernel : Kernel χ) (hs : Agree fd s) (p : χ) (call : Call) :
    ∃ (c : Channel) (ops : List (Op × Bool)), c.fd = fd p ∧
      (c.state = .deleted → c.events = .none) ∧ (∀ o ∈ ops, o.2 = true) ∧
      s.call kernel p call =
        { channel := Function.update s.channel p c,
          channels := Function.update s.channels (fd p) (known c p),
          epoll := Function.update s.epoll (fd p) (entry c p),
          issued := s.issued ++ ops, logFatal := s.logFatal } := by
  have hchannels : s.channels (s.channel p).fd = known (s.channel p) p := by
    rw [hs.fds, hs.channels]
  have hepoll : (s.epoll (s.channel p).fd).isSome = decide ((s.channel p).state = .add) := by
    rw [hs.fds, hs.epoll]
    unfold entry
    split <;> simp_all
  by_cases hcall : call = .remove
  · subst hcall
    obtain ⟨ops, hops, h⟩ :=
      foldl_removeChannel kernel p (s := s.setChannel p (removeChannel (s.channel p)).1) hepoll
    refine ⟨(removeChannel (s.channel p)).1, ops, hs.fds p, ?_, hops, ?_⟩
    · intro hdeleted
      exact absurd hdeleted (by simp [removeChannel])
    · rw [hs.fds] at h
      exact h
  · let c : Channel := { s.channel p with events := call.mask (s.channel p).events }
    obtain ⟨op, h⟩ := foldl_updateChannel kernel p (c := c)
      (s := s.setChannel p (updateChannel c).1) hchannels hepoll
    refine ⟨(updateChannel c).1, [(op, true)], ?_, updateChannel_deleted, by simp, ?_⟩
    · exact (Channel.update_fd c).trans (hs.fds p)
    · rw [show c.fd = fd p from hs.fds p] at h
      simp only [Registry.call, call.run_eq hcall]
      exact h

/-! ## Every sequence of calls -/

/-- Calls on channels with descriptors of their own leave the other channels' entries alone. -/
theorem agree_call (kernel : Kernel χ) (hfd : Function.Injective fd) (hs : Agree fd s) (p : χ)
    (call : Call) : Agree fd (s.call kernel p call) := by
  obtain ⟨c, ops, hc, hdeleted, -, heq⟩ := call_eq kernel hs p call
  rw [heq]
  have hother : ∀ q, q ≠ p → fd q ≠ fd p := fun q hq h => hq (hfd h)
  constructor
  · intro q
    by_cases hq : q = p
    · subst hq
      simpa using hc
    · simpa [hq] using hs.fds q
  · intro q
    by_cases hq : q = p
    · subst hq
      simp
    · simpa [hq, hother q hq] using hs.channels q
  · intro q
    by_cases hq : q = p
    · subst hq
      simp
    · simpa [hq, hother q hq] using hs.epoll q
  · intro q
    by_cases hq : q = p
    · subst hq
      simpa using hdeleted
    · simpa [hq] using hs.deleted q

theorem agree_of_reachable (kernel : Kernel χ) (hfd : Function.Injective fd)
    (run : (machine kernel fd).Reachable s) : Agree fd s := by
  refine run.invariant ?_ ?_
  · intro s hinit
    obtain rfl := hinit
    constructor <;> intro p <;> simp [Registry.new, Channel.new, known, entry]
  · intro s a t hs hstep
    obtain rfl : s.call kernel a.1 a.2 = t := by simpa [machine] using hstep
    exact agree_call kernel hfd hs a.1 a.2

/-- Nothing illegal is issued, so nothing fails. -/
theorem issued_legal_of_reachable (kernel : Kernel χ) (hfd : Function.Injective fd)
    (run : (machine kernel fd).Reachable s) :
    (∀ o ∈ s.issued, o.2 = true) ∧ s.logFatal = false := by
  obtain ⟨as, run⟩ := run
  refine (run.invariant (I := fun s => Agree fd s ∧ (∀ o ∈ s.issued, o.2 = true) ∧
    s.logFatal = false) ?_ ?_).2
  · intro s hinit
    refine ⟨agree_of_reachable kernel hfd ⟨[], .init hinit⟩, ?_⟩
    obtain rfl := hinit
    simp [Registry.new]
  · intro s a t hs _ hstep
    obtain ⟨hagree, hissued, hfatal⟩ := hs
    obtain rfl : s.call kernel a.1 a.2 = t := by simpa [machine] using hstep
    refine ⟨agree_call kernel hfd hagree a.1 a.2, ?_⟩
    obtain ⟨c, ops, -, -, hops, heq⟩ := call_eq kernel hagree a.1 a.2
    rw [heq]
    refine ⟨?_, hfatal⟩
    intro o ho
    rcases List.mem_append.1 ho with ho | ho
    · exact hissued o ho
    · exact hops o ho

/-- After every sequence of calls on channels with distinct descriptors, channel, poller and kernel
    agree, every `epoll_ctl` was legal and `LOG_FATAL` was not reached. -/
theorem registrations_agree (kernel : Kernel χ) (hfd : Function.Injective fd)
    (run : (machine kernel fd).Reachable s) :
    (∀ p, ((s.channel p).state = .add ↔ (s.epoll (fd p)).isSome = true) ∧
      (∀ event ∈ s.epoll (fd p), event = ⟨(s.channel p).events, p⟩) ∧
      ((s.channel p).state = .add ∨ (s.channel p).state = .deleted ↔ s.hasChannel p) ∧
      ((s.channel p).state = .deleted → (s.channel p).events = .none)) ∧
    (∀ o ∈ s.issued, o.2 = true) ∧ s.logFatal = false := by
  have hs := agree_of_reachable kernel hfd run
  refine ⟨?_, issued_legal_of_reachable kernel hfd run⟩
  intro p
  refine ⟨?_, ?_, ?_, hs.deleted p⟩
  · rw [hs.epoll, Option.isSome_iff_exists]
    simp [entry_eq_some_iff]
  · intro event hevent
    rw [hs.epoll] at hevent
    exact (entry_eq_some_iff.1 hevent).2
  · unfold Registry.hasChannel
    rw [hs.fds, hs.channels, known_eq_some_iff]
    cases (s.channel p).state <;> simp

/-- Disabled twice, removed and enabled again beside another channel. -/
theorem registrations_agree_of_two :
    ∃ s, (machine (Kernel.strict Bool) (cond · 5 6)).Reachable s ∧
      (s.channel true).state = .add ∧ (s.epoll 5).isSome = true ∧ s.logFatal = false := by
  obtain ⟨s, run, hadd⟩ := Machine.exists_reaches_of_exec
    (machine (Kernel.strict Bool) (cond · 5 6)) Machine.anyStep (.new (cond · 5 6))
    [(true, .enableReading), (true, .disableReading), (true, .disableReading),
      (false, .enableWriting), (true, .remove), (true, .enableReading)]
    (fun s => (s.channel true).state = .add) rfl (by decide)
  have hfd : Function.Injective fun b : Bool => cond b 5 6 := by
    intro a b h
    cases a <;> cases b <;> simp_all
  have h := registrations_agree (Kernel.strict Bool) hfd ⟨_, run⟩
  exact ⟨s, ⟨_, run⟩, hadd, (h.1 true).1.1 hadd, h.2.2⟩

end Poller
