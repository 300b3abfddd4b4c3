import Muduo.Lib.History
import Muduo.Net.Proofs.ConnectionThreads

set_option autoImplicit false

/-! # The state of a connection over time

`state_` goes from `kConnecting` over `kConnected` and `kDisconnecting` to `kDisconnected`. The loop
thread keeps this order by itself. Another thread that calls `shutdown` tests `state_` and stores
`kDisconnecting` in two steps, and its store goes back if `HandleClose` or `ConnectDestoryed` comes
between them. It is the only step that can. -/

namespace TcpConnection

/-- The place of a state in the life of a connection. -/
def State.rank : State → Nat
  | .connecting => 0
  | .connected => 1
  | .disconnecting => 2
  | .disconnected => 3

@[simp] theorem connectEstablished_state (c : TcpConnection) :
    c.connectEstablished.1.state = .connected := rfl

theorem State.rank_le (state : State) : state.rank ≤ State.rank .disconnected := by
  cases state <;> decide

theorem State.rank_le_disconnecting_iff (state : State) :
    state.rank ≤ State.rank .disconnecting ↔ state ≠ .disconnected := by
  cases state <;> decide

theorem State.eq_of_rank_le {state : State} (h : State.rank .disconnected ≤ state.rank) :
    state = .disconnected := by
  cases state with
  | disconnected => rfl
  | disconnecting => exact absurd h (by decide)
  | connecting => exact absurd h (by decide)
  | connected => exact absurd h (by decide)

end TcpConnection

namespace ConnectionThreads

open TcpConnection (State)

variable {s t : ConnectionThreads} {a : Action}

/-- `state_`. -/
def state (s : ConnectionThreads) : State := s.conn.state

/-- No other thread stores `kDisconnecting` in a connection that went down between the test and the
    store of its `shutdown`. -/
def StoresBeforeDown (s : ConnectionThreads) : Action → Prop
  | .goOn .shutdownTested => s.state ≠ .disconnected
  | _ => True

instance (s : ConnectionThreads) (a : Action) : Decidable (StoresBeforeDown s a) := by
  unfold StoresBeforeDown
  split <;> infer_instance

/-- Between the test and the store of a `shutdown` on the loop thread nobody takes the connection
    down. -/
def Undisturbed (s : ConnectionThreads) : Prop :=
  s.loopCall = .shutdownTested → s.state ≠ .disconnected

theorem Undisturbed.of_state (h : s.Undisturbed) (hcall : t.loopCall = s.loopCall)
    (hstate : t.state = s.state) : t.Undisturbed := by
  unfold Undisturbed
  rw [hcall, hstate]
  exact h

theorem Undisturbed.step (h : s.Undisturbed) (hstep : Step s a t) : t.Undisturbed := by
  cases hstep with
  | loopShutdown hstate =>
      intro _
      simp [state, hstate]
  | @goOn caller hmem =>
      cases caller with
      | shutdownTested =>
          intro _
          simp [state, callerStep]
      | sendTested send => exact h.of_state rfl rfl
      | shutdownStored => exact h.of_state rfl rfl
  | loopStoreShutdown hcall => exact fun hnone => absurd hnone (by simp)
  | connectDestoryed hstate => exact fun hother => absurd hother (by simp)
  | storeDisconnected hcall => exact fun hnone => absurd hnone (by simp)
  | handleClose hcall hstate =>
      intro htested
      rw [show (s.perform s.conn.handleClose).loopCall = s.loopCall from rfl, hcall] at htested
      exact absurd htested (by simp)
  | connectEstablished hstate =>
      intro _
      simp [state, perform]
  | loopSend hstate hload => exact h.of_state rfl (TcpConnection.sendInLoop_state ..)
  | runSend hqueue hload => exact h.of_state rfl (TcpConnection.sendInLoop_state ..)
  | handleWrite => exact h.of_state rfl (TcpConnection.handleWrite_state ..)
  | _ => exact h.of_state rfl rfl

theorem undisturbed_of_reaches {ok : ConnectionThreads → Action → Prop} {as : List Action}
    (run : machine.Reaches ok as s) : s.Undisturbed := by
  refine run.invariant ?_ ?_
  · intro s hinit htested
    exact absurd (htested.symm.trans hinit.2.1) (by simp)
  · intro s a t h _ hstep
    exact h.step (step_cases hstep)

/-- Whatever else is done, `state_` does not go back. -/
theorem Step.rank_le (hstep : Step s a t) (h : s.Undisturbed)
    (hother : a ≠ .goOn .shutdownTested) : s.state.rank ≤ t.state.rank := by
  have hsame : t.state = s.state → s.state.rank ≤ t.state.rank := fun heq => heq ▸ Nat.le_refl _
  cases hstep with
  | @goOn caller hmem =>
      cases caller with
      | shutdownTested => exact absurd rfl hother
      | sendTested send => exact hsame rfl
      | shutdownStored => exact hsame rfl
  | loopStoreShutdown hcall => exact (State.rank_le_disconnecting_iff _).2 (h hcall)
  | handleClose hcall hstate => exact s.state.rank_le
  | storeDisconnected hcall => exact s.state.rank_le
  | connectEstablished hstate =>
      rw [show s.state = .connecting from hstate]
      exact Nat.zero_le _
  | loopSend hstate hload => exact hsame (TcpConnection.sendInLoop_state ..)
  | runSend hqueue hload => exact hsame (TcpConnection.sendInLoop_state ..)
  | handleWrite => exact hsame (TcpConnection.handleWrite_state ..)
  | _ => exact hsame rfl

/-- The steps that do not take `state_` back. -/
theorem rank_le_iff (h : s.Undisturbed) (hstep : s.step a = some t) :
    StoresBeforeDown s a ↔ s.state.rank ≤ t.state.rank := by
  by_cases hother : a = .goOn .shutdownTested
  · subst hother
    simp only [step, Option.ite_none_right_eq_some, Option.some.injEq] at hstep
    obtain ⟨-, rfl⟩ := hstep
    exact (State.rank_le_disconnecting_iff _).symm
  · refine iff_of_true ?_ ((step_cases hstep).rank_le h hother)
    unfold StoresBeforeDown
    split
    · exact absurd rfl hother
    · trivial

/-- The values of `state_` only go forward in exactly the runs in which no thread stores
    `kDisconnecting` in a connection that is down. -/
theorem state_sorted_iff {as : List Action} {p : ConnectionThreads × List State}
    (run : (machine.recording state).Reaches Machine.anyStep as p) :
    (Ordered.SortedBy State.rank p.2 ↔
      (machine.recording state).Reaches (fun p a => StoresBeforeDown p.1 a) as p) ∧
    (Ordered.SortedBy State.rank p.2 → .disconnected ∈ p.2 → p.1.state = .disconnected) := by
  refine ⟨run.sortedBy_history_iff (fun as s h => undisturbed_of_reaches h) ?_, ?_⟩
  · intro s a t h hstep
    exact rank_le_iff h hstep
  · intro hsorted hmem
    exact State.eq_of_rank_le (hsorted.le_getLast run.getLast_history _ hmem)

/-- Two `shutdown`s, one before and one behind the close of the peer. -/
def shutdownThenClose : List Action :=
  [.connectEstablished, .shutdown, .goOn .shutdownTested, .goOn .shutdownStored,
    .handleClose, .shutdown, .connectDestoryed, .runFunctor (.room 0)]

theorem state_sorted_shutdownThenClose :
    ∃ p, (machine.recording state).Reaches (fun p a => StoresBeforeDown p.1 a)
        shutdownThenClose p ∧
      .disconnecting ∈ p.2 ∧ Ordered.SortedBy State.rank p.2 ∧ p.1.state = .disconnected := by
  obtain ⟨p, run, hpast, hdown⟩ := (machine.recording state).exists_reaches_of_exec
    (fun p a => StoresBeforeDown p.1 a) (start, [.connecting]) shutdownThenClose
    (fun p => .disconnecting ∈ p.2 ∧ .disconnected ∈ p.2) ⟨init_start, rfl⟩ (by decide)
  obtain ⟨hiff, hstays⟩ := state_sorted_iff (run.mono fun _ _ _ => trivial)
  exact ⟨p, run, hpast, hiff.2 run, hstays (hiff.2 run) hdown⟩

/-- The peer closes between the test and the store of a `shutdown`. -/
theorem state_goes_back :
    ∃ p, (machine.recording state).Reaches Machine.anyStep
        [.connectEstablished, .shutdown, .handleClose, .goOn .shutdownTested] p ∧
      p.2 = [.connecting, .connected, .connected, .disconnected, .disconnecting] ∧
      ¬ Ordered.SortedBy State.rank p.2 := by
  obtain ⟨p, run, hhistory⟩ := (machine.recording state).exists_reaches_of_exec
    Machine.anyStep (start, [.connecting])
    [.connectEstablished, .shutdown, .handleClose, .goOn .shutdownTested]
    (fun p => p.2 = [.connecting, .connected, .connected, .disconnected, .disconnecting])
    ⟨init_start, rfl⟩ (by decide)
  refine ⟨p, run, hhistory, ?_⟩
  rw [hhistory]
  unfold Ordered.SortedBy
  decide

end ConnectionThreads
