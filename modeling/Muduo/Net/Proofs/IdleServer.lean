import Muduo.Net.Proofs.Teardown

set_option autoImplicit false

/-! # A server with nothing left to do

When all loops wait in `poll` with no functor queued, no handshake is under way: a connection is up
and in `connections_`, or it has been taken down completely and the server has no trace of it. -/

namespace TcpServer

variable {cfg : Config} {s : TcpServer} {l : LoopId} {c : ConnId} {as : List Action}

/-- The loop waits, and nothing is queued. -/
def Loop.Idle (loop : Loop) : Prop := loop = ⟨[], .poll, []⟩

instance (loop : Loop) : Decidable loop.Idle := inferInstanceAs (Decidable (_ = _))

/-- The base loop and those of the pool are idle. -/
def Idle (cfg : Config) (s : TcpServer) : Prop := ∀ l ∈ cfg.loop :: cfg.loops, (s.loops l).Idle

instance (s : TcpServer) : Decidable (s.Idle cfg) := inferInstanceAs (Decidable (∀ _ ∈ _, _))

/-- What the server says of a connection that it has and of one that it has not. -/
inductive Settled (cfg : Config) (s : TcpServer) (c : ConnId) : Prop
  | up (hlife : s.life c = []) (hentry : c ∈ s.connections.map (·.2))
  | gone (hlife : s.life c = [.handleClose, .connectDestoryed false, .destroyed])
      (hheld : s.held cfg c = false) (hchannels : ∀ l fd, s.channels l fd ≠ some c)

theorem idle_view (h : s.Homes cfg) (hidle : s.Idle cfg) (hc : s.Made c) :
    (view cfg s c).loop = ⟨[], .poll, []⟩ ∧ (view cfg s c).removals = 0 := by
  have hown : s.loops (s.loop c) = ⟨[], .poll, []⟩ := hidle _ (h.pool c hc)
  have hbase : s.loops cfg.loop = ⟨[], .poll, []⟩ := hidle _ List.mem_cons_self
  refine ⟨?_, ?_⟩
  · show (s.loops (s.loop c)).only c = _
    rw [hown]
    rfl
  · show (s.loops cfg.loop).removals c = 0
    rw [hbase]
    rfl

/-- With nothing queued and nothing in progress a handshake has not begun, or it is over. -/
theorem Handshake.At.stage_of_idle {v : Handshake} {stage : Stage} (h : v.At c stage)
    (hloop : v.loop = ⟨[], .poll, []⟩) (hremovals : v.removals = 0) :
    stage = .up ∨ stage = .gone := by
  have hduties := h.duties
  have htearing := h.tearing
  have hremoval := h.removals
  rw [hloop] at hduties htearing
  rw [hremovals] at hremoval
  cases stage with
  | up => exact Or.inl rfl
  | gone => exact Or.inr rfl
  | queued => exact absurd hduties (by simp [Stage.duties, Loop.duties, Loop.pending, Phase.todo])
  | destroying =>
      exact absurd hduties (by simp [Stage.duties, Loop.duties, Loop.pending, Phase.todo])
  | removing => exact absurd hremoval (by simp [Stage.removals])
  | closing => exact absurd htearing (by simp [Stage.Tearing, Loop.tearing])
  | finishing => exact absurd htearing (by simp [Stage.Tearing, Loop.tearing])

/-- Nothing in an idle server holds a connection that is not in `connections_`. -/
theorem held_of_idle (hidle : s.Idle cfg) (hentry : s.connections.any (·.2 = c) = false) :
    s.held cfg c = false := by
  have howns : ((cfg.loop :: cfg.loops).any fun l => (s.loops l).owns c) = false := by
    rw [List.any_eq_false]
    intro l hl
    have hloop : s.loops l = ⟨[], .poll, []⟩ := hidle l hl
    simp [hloop, Loop.owns, Phase.functors]
  rw [held, hentry, howns, Bool.or_self]

/-- In every run in which other threads do not call `send` and the server is not destroyed: when the
    loops are idle, each connection ever made is up and in `connections_`, or has been closed by its
    peer, torn down once, and is held by no part of the server and known to no poller. -/
theorem idle_settled (run : (machine cfg).Reaches SendsOnLoopThread as s) (hidle : s.Idle cfg)
    (hc : s.Made c) : s.Settled cfg c := by
  have hhomes := homes_of_reaches run
  obtain ⟨hloop, hremovals⟩ := idle_view hhomes hidle hc
  obtain ⟨stage, hat⟩ := at_of_reaches run c hc
  have hlife : s.life c = stage.life := hat.life
  have hentry : s.connections.any (·.2 = c) = stage.entry := hat.entry
  rcases hat.stage_of_idle hloop hremovals with rfl | rfl
  · refine .up hlife ?_
    obtain ⟨e, he, heq⟩ := List.any_eq_true.1 hentry
    exact List.mem_map.2 ⟨e, he, of_decide_eq_true heq⟩
  · refine .gone hlife (held_of_idle hidle hentry) ?_
    intro l fd hfd
    exact (hhomes.registered l c fd hfd).2 (hat.registered (Or.inr rfl))

/-- The first connection is taken down to the end, and a second one is established. -/
def closesThenAccepts : List Action :=
  peerCloses ++ [.next 1 {}, .next 1 {}, .poll 0 [.acceptor], .next 0 { fd := some 5 }, .next 0 {},
    .poll 1 [], .next 1 {}, .next 1 {}, .next 1 {}, .next 1 {}, .next 1 {}]

theorem idle_settled_closesThenAccepts :
    ∃ s, (machine twoLoops).Reaches SendsOnLoopThread closesThenAccepts s ∧
      s.connections.map (·.2) = [2] ∧ s.Settled twoLoops 1 ∧ s.Settled twoLoops 2 := by
  obtain ⟨s, run, hentries, hnext, hidle⟩ := Machine.exists_reaches_of_exec (machine twoLoops)
    SendsOnLoopThread new closesThenAccepts
    (fun s => s.connections.map (·.2) = [2] ∧ s.nextConnectionId = 3 ∧ s.Idle twoLoops) rfl
    (by decide)
  have hmade : s.Made 1 ∧ s.Made 2 := by simp [Made, hnext]
  exact ⟨s, run, hentries, idle_settled run hidle hmade.1, idle_settled run hidle hmade.2⟩

end TcpServer
