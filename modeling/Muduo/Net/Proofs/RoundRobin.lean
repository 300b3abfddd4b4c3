import Muduo.Lib.Turns
import Muduo.Net.Proofs.Handshake

set_option autoImplicit false

/-! # Connections take the loops in turn

`NewConnection` asks the pool for a loop, and nothing else moves `next_`. So the loop of a
connection follows from the number that it was made with. -/

namespace TcpServer

variable {cfg : Config} {s t : TcpServer} {l : LoopId} {c : ConnId}

/-- The loop that the `c`-th connection gets. -/
def Config.dealt (cfg : Config) (c : ConnId) : LoopId :=
  if cfg.loops.isEmpty then cfg.loop
  else cfg.loops.getD ((c - 1) % cfg.loops.length) cfg.loop

/-- The number of connections that were made for a loop. -/
def load (s : TcpServer) (l : LoopId) : Nat :=
  Nat.count (fun k => s.loop (k + 1) = l) (s.nextConnectionId - 1)

/-! ## Runs -/

/-- `next_` follows the number of connections made, and each has the loop of its turn. -/
structure Dealt (cfg : Config) (s : TcpServer) : Prop where
  next_pos : 0 < s.nextConnectionId
  next : cfg.loops ≠ [] → s.next = (s.nextConnectionId - 1) % cfg.loops.length
  loop : ∀ c, s.Made c → s.loop c = cfg.dealt c

theorem Dealt.congr (h : s.Dealt cfg) (hbooks : t.books = s.books) : t.Dealt cfg := by
  simp only [books, Prod.mk.injEq] at hbooks
  obtain ⟨hid, hnext, hloop, -⟩ := hbooks
  refine ⟨hid ▸ h.next_pos, ?_, ?_⟩
  · rw [hid, hnext]
    exact h.next
  · intro c hc
    rw [hloop]
    exact h.loop c ⟨hc.1, hid ▸ hc.2⟩

theorem getNextLoop_eq (hloops : cfg.loops ≠ []) (next : Nat) :
    cfg.getNextLoop next
      = (cfg.loops.getD next cfg.loop, Turns.next cfg.loops.length next) := by
  simp [Config.getNextLoop, Turns.next, hloops]

theorem Dealt.insertConnection (h : s.Dealt cfg) (fd : Nat) :
    (s.insertConnection cfg fd).Dealt cfg := by
  have hpos := h.next_pos
  refine ⟨Nat.succ_pos _, ?_, ?_⟩
  · intro hloops
    show (cfg.getNextLoop s.next).2 = (s.nextConnectionId + 1 - 1) % cfg.loops.length
    rw [getNextLoop_eq hloops, h.next hloops, Turns.next_mod (List.length_pos_iff.2 hloops),
      Nat.sub_add_cancel hpos, Nat.add_sub_cancel]
  · intro c hc
    rcases Nat.lt_succ_iff_lt_or_eq.1 hc.2 with hlt | rfl
    · have hold : (s.insertConnection cfg fd).loop c = s.loop c :=
        Function.update_of_ne (Nat.ne_of_lt hlt) _ _
      rw [hold]
      exact h.loop c ⟨hc.1, hlt⟩
    · have hnew : (s.insertConnection cfg fd).loop s.nextConnectionId
          = (cfg.getNextLoop s.next).1 := Function.update_self _ _ _
      rw [hnew, Config.dealt]
      split
      · next hempty => simp [Config.getNextLoop, hempty]
      · next hsome =>
          have hloops : cfg.loops ≠ [] := by simpa using hsome
          rw [getNextLoop_eq hloops, h.next hloops]

theorem dealt_of_reachable (run : (machine cfg).Reachable s) : s.Dealt cfg := by
  obtain ⟨as, run⟩ := run
  induction run with
  | init hinit =>
      obtain rfl := hinit
      refine ⟨Nat.one_pos, fun _ => (Nat.zero_mod _).symm, ?_⟩
      rintro c ⟨hpos, hlt⟩
      exact absurd hlt (Nat.not_lt.2 hpos)
  | @step as s t a run _ hstep ih =>
      cases step_writes (homes_of_reaches run) (of_step_machine hstep).2 with
      | nothing hbooks | remove _ _ hbooks => exact ih.congr hbooks
      | @accept l active fd _ _ heq =>
          have hpass : (s.onLoop l (·.setPhase (.channels active))).Dealt cfg := ih.congr rfl
          rw [heq]
          exact (hpass.insertConnection fd).congr (books_newConnection fd).1
      | fault _ _ heq =>
          rw [heq]
          exact ⟨ih.next_pos, ih.next, ih.loop⟩

/-- The connections of the loop at place `i` are those whose turn it was. -/
theorem Dealt.load_eq (h : s.Dealt cfg) (hnodup : cfg.loops.Nodup) {i : Nat}
    (hi : i < cfg.loops.length) :
    s.load cfg.loops[i]
      = Nat.count (fun k => k % cfg.loops.length = i) (s.nextConnectionId - 1) := by
  have hturn : ∀ k < s.nextConnectionId - 1,
      (s.loop (k + 1) = cfg.loops[i] ↔ k % cfg.loops.length = i) := by
    intro k hk
    have hplace : k % cfg.loops.length < cfg.loops.length := Nat.mod_lt k (Nat.zero_lt_of_lt hi)
    have hmade : s.Made (k + 1) := ⟨Nat.succ_pos k, Nat.add_lt_of_lt_sub hk⟩
    have hloops : cfg.loops.isEmpty = false := by
      simpa using List.ne_nil_of_length_pos (Nat.zero_lt_of_lt hi)
    have hdealt : s.loop (k + 1) = cfg.loops[k % cfg.loops.length] := by
      rw [h.loop _ hmade, Config.dealt, hloops]
      simp [hplace]
    rw [hdealt, hnodup.getElem_inj_iff]
  exact le_antisymm (Nat.count_mono_left fun k hk => (hturn k hk).1)
    (Nat.count_mono_left fun k hk => (hturn k hk).2)

/-- In every run each connection has the loop of its turn, and no loop of the pool was given more
    than one connection more than another one. -/
theorem dealt_in_turn (hnodup : cfg.loops.Nodup) (run : (machine cfg).Reachable s) :
    (∀ c, s.Made c → s.loop c = cfg.dealt c) ∧
      ∀ l ∈ cfg.loops, ∀ l' ∈ cfg.loops, s.load l ≤ s.load l' + 1 := by
  have h := dealt_of_reachable run
  refine ⟨h.loop, ?_⟩
  intro l hl l' hl'
  obtain ⟨i, hi, rfl⟩ := List.getElem_of_mem hl
  obtain ⟨j, hj, rfl⟩ := List.getElem_of_mem hl'
  rw [h.load_eq hnodup hi, h.load_eq hnodup hj]
  exact Turns.count_le hi hj _

/-- Two loops in the pool, and three connections. -/
def threeConnections : List Action :=
  [.poll 0 [.acceptor], .next 0 { fd := some 5 }, .next 0 {}, .poll 0 [.acceptor],
    .next 0 { fd := some 6 }, .next 0 {}, .poll 0 [.acceptor], .next 0 { fd := some 7 }]

theorem dealt_in_turn_threeConnections :
    ∃ s, (machine { twoLoops with loops := [1, 2] }).Reachable s ∧ s.nextConnectionId = 4 ∧
      s.load 1 ≤ s.load 2 + 1 ∧ s.load 2 ≤ s.load 1 + 1 := by
  obtain ⟨s, run, hmade⟩ := Machine.exists_reaches_of_exec
    (machine { twoLoops with loops := [1, 2] }) Machine.anyStep new threeConnections
    (fun s => s.nextConnectionId = 4) rfl (by decide)
  obtain ⟨-, hload⟩ := dealt_in_turn (by decide) ⟨_, run⟩
  exact ⟨s, ⟨_, run⟩, hmade, hload 1 (by decide) 2 (by decide), hload 2 (by decide) 1 (by decide)⟩

end TcpServer
