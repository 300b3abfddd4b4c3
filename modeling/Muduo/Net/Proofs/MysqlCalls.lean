import Muduo.Base.Proofs.QueueCalls
import Muduo.Base.Proofs.QueueProgress
import Muduo.Net.Proofs.Mysql

set_option autoImplicit false

/-! # The calls of a Mysql

Two threads never execute with one connection. A call that does not wait for a connection ends, so
one that hangs does wait: when nobody can go on, every connection that is left is in the pool. -/

namespace Mysql

open ThreadSafeQueue (Pc)

variable {s t : Mysql} {a : Action} {i : Nat} {size : Int} {n : Nat} {as : List Action}

/-! ## One connection, one thread -/

theorem inv_of_reaches {ok : Mysql → Action → Prop} (run : (machine size n).Reaches ok as s) :
    s.Inv ∧ s.pool.size = size := by
  refine run.invariant (I := fun s => s.Inv ∧ s.pool.size = size) ?_ ?_
  · rintro s rfl
    exact ⟨inv_new size n, rfl⟩
  · rintro s a t ⟨h, hsize⟩ - hstep
    have hcases := step_cases hstep
    refine ⟨h.step hcases, ?_⟩
    by_cases hopen : a = .close
    · subst hopen
      cases hcases
      exact hsize
    · exact (running_step hopen hcases).2.trans hsize

/-- In every run, closing and throwing included, the connection that a thread executes with is one
    of those of the constructor, no other thread executes with it, and it is not in the pool, nor
    with a thread inside a function of the pool. -/
theorem executes_alone (run : (machine size n).Reaches Machine.anyStep as s) {f : Statement}
    {con : SqlConnection} (hexecutes : s.calls[i]? = some (.executing f con)) :
    con < size.toNat ∧ con ∉ s.pool.pool.stored ∧ con ∉ s.pool.pool.held ∧
      ∀ j g, s.calls[j]? = some (.executing g con) → j = i := by
  obtain ⟨hinv, rfl⟩ := inv_of_reaches run
  have hall := hinv.pool.connections
  have hnodup := hall.nodup_iff.2 List.nodup_range
  have hborrowed : con ∈ s.pool.borrowed :=
    hinv.borrowed.mem_iff.2 (List.mem_filterMap.2 ⟨_, Threads.mem hexecutes, rfl⟩)
  have hcon : con ∈ s.pool.connections := by simp [MysqlPool.connections, hborrowed]
  simp only [MysqlPool.connections, List.append_assoc] at hnodup
  obtain ⟨-, hrest, hapart⟩ := List.nodup_append.1 hnodup
  have houtside : con ∉ s.pool.pool.values := fun hvalues =>
    hapart con hvalues con (List.mem_append_left _ hborrowed) rfl
  rw [ThreadSafeQueue.values, List.mem_append, not_or] at houtside
  refine ⟨List.mem_range.1 (hall.mem_iff.1 hcon), ?_, houtside.2, fun j g hj => ?_⟩
  · rw [hinv.pool.pool.stored_eq]
    exact houtside.1
  · have hcalls := hinv.borrowed.nodup_iff.1 (List.nodup_append.1 hrest).1
    exact Threads.eq_of_nodup_filterMap hcalls hj hexecutes rfl rfl

/-- Two threads execute at once. -/
def twoExecute : List Action :=
  [.call 0 .update, .call 1 .query, .next 0 0, .next 0 0, .next 0 0, .next 0 0, .next 0 0,
    .next 0 0, .got 0, .next 1 0, .next 1 0, .next 1 0, .next 1 0, .next 1 0, .next 1 0, .got 1]

theorem executes_alone_twoExecute :
    ∃ s, (machine 2 2).Reaches Machine.anyStep twoExecute s ∧
      s.calls = [.executing .update 0, .executing .query 1] ∧
      ∀ j g, s.calls[j]? = some (.executing g 0) → j = 0 := by
  obtain ⟨s, run, hcalls⟩ := Machine.exists_reaches_of_exec (machine 2 2) Machine.anyStep (new 2 2)
    twoExecute (fun s => s.calls = [.executing .update 0, .executing .query 1]) rfl (by decide)
  exact ⟨s, run, hcalls, (executes_alone run (by rw [hcalls]; rfl)).2.2.2⟩

/-! ## Where the threads are -/

/-- What a call says of its thread. -/
def Call.Within : Call → Pc SqlConnection → Prop
  | .idle, pc | .executing _ _, pc => pc = .returned none
  | .getting _, pc => pc.fetches = true
  | .returning _, pc => pc.pushes = true ∨ pc = .returned none

theorem Call.Within.goesOn {call : Call} {pc pc' : Pc SqlConnection} (h : call.Within pc)
    (hgoes : pc.GoesOn pc') : call.Within pc' := by
  cases call with
  | idle | executing => exact hgoes.outside h
  | getting => exact hgoes.fetches h
  | returning => exact h.elim hgoes.pushes fun hreturned => Or.inr (hgoes.outside hreturned)

/-- What every run keeps of the threads. -/
structure Placed (n : Nat) (s : Mysql) : Prop where
  tame : s.pool.pool.Tame
  threads : s.pool.pool.threads.length = n
  calls : s.calls.length = n
  within : ∀ (i : Nat) (call : Call), s.calls[i]? = some call →
    ∃ pc, s.pool.pool.threads[i]? = some pc ∧ call.Within pc

theorem placed_new (size : Int) (n : Nat) : Placed n (new size n) := by
  obtain ⟨-, hthreads, -, hheap⟩ := MysqlPool.fill_spec n size.toNat
  have hfree : (MysqlPool.fill n size.toNat).headMutex = none ∧
      (MysqlPool.fill n size.toNat).tailMutex = none := by
    induction size.toNat with
    | zero => exact ⟨rfl, rfl⟩
    | succ size ih => exact ih
  refine ⟨⟨?_, ?_, ⟨size.toNat + 1, hheap⟩⟩, ?_, List.length_replicate, fun i call hcall => ?_⟩
  · simp [new, MysqlPool.new, hfree.1]
  · simp [new, MysqlPool.new, hfree.2]
  · simp [new, MysqlPool.new, hthreads]
  · simp only [new, List.getElem?_replicate, Option.ite_none_right_eq_some] at hcall
    obtain ⟨hlt, heq⟩ := hcall
    obtain rfl := Option.some.inj heq
    exact ⟨.returned none, by simp [new, MysqlPool.new, hthreads, hlt], rfl⟩

/-- Something happens inside of the pool. -/
theorem Placed.inside (h : s.Placed n) (hinv : s.pool.pool.Inv)
    {b : ThreadSafeQueue.Action SqlConnection} {pool : ThreadSafeQueue SqlConnection}
    (hstep : s.pool.pool.step b = some pool)
    (hinside : (∃ i choice, b = .next i choice) ∨ (∃ i, b = .wake i) ∨ b = .notifyAll)
    {p : MysqlPool} (hp : p.pool = pool) : Placed n { s with pool := p } where
  tame := hp ▸ h.tame.step (ThreadSafeQueue.step_cases hstep)
  threads := hp ▸ (ThreadSafeQueue.length_step (ThreadSafeQueue.step_cases hstep)).trans h.threads
  calls := h.calls
  within i call hcall := by
    obtain ⟨pc, hpc, hwithin⟩ := h.within i call hcall
    obtain ⟨pc', hpc', hgoes⟩ := hinv.goesOn_step hstep hinside hpc
    exact ⟨pc', hp ▸ hpc', hwithin.goesOn hgoes⟩

/-- A call goes on with its thread, the other threads staying where they are. -/
theorem Placed.move (h : s.Placed n) {p : MysqlPool} {call : Call} {pc : Pc SqlConnection}
    (hcall : i < s.calls.length) (htame : p.pool.Tame)
    (hlength : p.pool.threads.length = s.pool.pool.threads.length)
    (hothers : ∀ j, i ≠ j → p.pool.threads[j]? = s.pool.pool.threads[j]?)
    (hpc : p.pool.threads[i]? = some pc) (hwithin : call.Within pc) :
    Placed n ({ s with pool := p }.goTo i call) where
  tame := htame
  threads := hlength.trans h.threads
  calls := (List.length_set ..).trans h.calls
  within j call' hj := by
    simp only [goTo] at hj ⊢
    by_cases heq : i = j
    · subst heq
      rw [List.getElem?_set_self hcall] at hj
      obtain rfl := Option.some.inj hj
      exact ⟨pc, hpc, hwithin⟩
    · rw [List.getElem?_set_ne heq] at hj
      rw [hothers j heq]
      exact h.within j call' hj

/-- A call goes on, and its thread with it. -/
theorem Placed.moveThread (h : s.Placed n) {b : ThreadSafeQueue.Action SqlConnection}
    {p : MysqlPool} {call call' : Call} {pc : Pc SqlConnection}
    (hcall : s.calls[i]? = some call) (hstep : s.pool.pool.step b = some p.pool)
    (hthreads : p.pool.threads = s.pool.pool.threads.set i pc) (hwithin : call'.Within pc) :
    Placed n ({ s with pool := p }.goTo i call') := by
  obtain ⟨x, hx, -⟩ := h.within i call hcall
  have hcases := ThreadSafeQueue.step_cases hstep
  refine h.move (Threads.lt_length hcall) (h.tame.step hcases)
    (ThreadSafeQueue.length_step hcases) (fun j hne => ?_) ?_ hwithin
  · rw [hthreads, List.getElem?_set_ne hne]
  · rw [hthreads]
    exact Threads.getElem?_set_self hx

/-- A call goes on while its thread is outside of the pool. -/
theorem Placed.moveCall (h : s.Placed n) {p : MysqlPool} {call call' : Call}
    (hcall : s.calls[i]? = some call) (hpool : p.pool = s.pool.pool)
    (hpc : s.pool.pool.threads[i]? = some (.returned none))
    (hwithin : call'.Within (.returned none)) :
    Placed n ({ s with pool := p }.goTo i call') :=
  h.move (Threads.lt_length hcall) (hpool ▸ h.tame) (by rw [hpool])
    (fun _ _ => by rw [hpool]) (hpool ▸ hpc) hwithin

theorem Placed.step (h : s.Placed n) (hinv : s.pool.pool.Inv) (hstep : Step s a t) :
    t.Placed n := by
  have houtside {p : MysqlPool} {i : Nat} (hp : p.outside i = true) :
      p.pool.threads[i]? = some (.returned none) := by simpa [MysqlPool.outside] using hp
  cases hstep with
  | @call i f pool hcall hstep =>
      cases MysqlPool.step_cases hstep with
      | enter hopen hqueue =>
          rw [if_pos hopen]
          cases hcases : ThreadSafeQueue.step_cases hqueue with
          | pop hpc => exact h.moveThread hcall hqueue rfl rfl
      | refuse hclosed hpc =>
          rw [if_neg (by simp [hclosed])]
          exact h.moveCall hcall rfl (houtside hpc) (Or.inr rfl)
  | next hstep =>
      cases MysqlPool.step_cases hstep with
      | next hqueue => exact h.inside hinv hqueue (Or.inl ⟨_, _, rfl⟩) rfl
  | wake hstep =>
      cases MysqlPool.step_cases hstep with
      | wake hqueue => exact h.inside hinv hqueue (Or.inr (Or.inl ⟨_, rfl⟩)) rfl
  | notifyAll hstep =>
      cases MysqlPool.step_cases hstep with
      | notifyAll => exact h.inside hinv (b := .notifyAll) rfl (Or.inr (Or.inr rfl)) rfl
  | got hcall hgot =>
      obtain ⟨queue, -, hqueue, rfl⟩ := MysqlPool.got_cases hgot
      cases ThreadSafeQueue.step_cases hqueue with
      | take hpc => exact h.moveThread hcall hqueue rfl rfl
  | putBack hcall _ hstep =>
      cases MysqlPool.step_cases hstep with
      | putBack _ _ hqueue =>
          cases ThreadSafeQueue.step_cases hqueue with
          | push hpc => exact h.moveThread hcall hqueue rfl (Or.inl rfl)
      | drop _ _ hpc => exact h.moveCall hcall rfl (houtside hpc) (Or.inr rfl)
  | destroy hcall _ hstep =>
      obtain ⟨pc, hpc, hwithin⟩ := h.within _ _ hcall
      obtain rfl : pc = .returned none := hwithin
      cases MysqlPool.step_cases hstep with
      | destroy => exact h.moveCall hcall rfl hpc (Or.inr rfl)
  | returned hcall hpc => exact h.moveCall (p := s.pool) hcall rfl (houtside hpc) rfl
  | close => exact ⟨h.tame, h.threads, h.calls, h.within⟩

theorem placed_of_reaches {ok : Mysql → Action → Prop} (run : (machine size n).Reaches ok as s) :
    s.Placed n := by
  refine (run.invariant (I := fun s => s.Inv ∧ s.Placed n) ?_ ?_).2
  · rintro s rfl
    exact ⟨inv_new size n, placed_new size n⟩
  · rintro s a t ⟨hinv, h⟩ - hstep
    have hcases := step_cases hstep
    exact ⟨hinv.step hcases, h.step hinv.pool.pool hcases⟩

/-! ## What a call has still to do -/

/-- The steps that a call has still to take at most, without those of its thread inside the pool;
    who has got a connection puts it back. -/
def Call.work : Call → Nat
  | .idle => 0
  | .returning _ => 1
  | .executing _ _ => 15
  | .getting _ => 16

def work (s : Mysql) : Nat := s.pool.pool.work + (s.calls.map Call.work).sum

/-- A call that has begun goes on. -/
def Action.goesOn : Action → Bool
  | .next _ _ | .got _ | .execute _ _ | .returned _ => true
  | .call _ _ | .wake _ | .close | .notifyAll => false

theorem work_goTo (p : MysqlPool) {call call' : Call} (hcall : s.calls[i]? = some call)
    (hless : p.pool.work + call'.work < s.pool.pool.work + call.work) :
    ({ s with pool := p }.goTo i call').work < s.work := by
  have hsum := Threads.sum_map_set Call.work hcall call'
  simp only [work, goTo]
  omega

theorem work_lt (hgo : a.goesOn = true) (hstep : Step s a t) : t.work < s.work := by
  cases hstep with
  | call | wake | close | notifyAll => exact absurd hgo (by simp [Action.goesOn])
  | next hstep =>
      cases MysqlPool.step_cases hstep with
      | next hqueue => exact Nat.add_lt_add_right (ThreadSafeQueue.work_lt hqueue) _
  | got hcall hgot =>
      obtain ⟨queue, -, hqueue, rfl⟩ := MysqlPool.got_cases hgot
      cases ThreadSafeQueue.step_cases hqueue with
      | take hpc =>
          have hsum := Threads.sum_map_set Pc.work hpc (.returned none)
          refine work_goTo _ hcall ?_
          simp only [ThreadSafeQueue.work, ThreadSafeQueue.goTo, Pc.work, Call.work] at hsum ⊢
          omega
  | @putBack i f con answer pool hcall _ hstep =>
      cases MysqlPool.step_cases hstep with
      | putBack _ _ hqueue =>
          cases ThreadSafeQueue.step_cases hqueue with
          | push hpc =>
              have hsum := Threads.sum_map_set Pc.work hpc (.push con)
              refine work_goTo _ hcall ?_
              simp only [ThreadSafeQueue.work, ThreadSafeQueue.goTo, Pc.work, Call.work] at hsum ⊢
              omega
      | drop => exact work_goTo _ hcall (by simp [Call.work])
  | destroy hcall _ hstep =>
      cases MysqlPool.step_cases hstep with
      | destroy => exact work_goTo _ hcall (by simp [Call.work])
  | returned hcall => exact work_goTo s.pool hcall (by simp [Call.work])

theorem Placed.work_le (h : s.Placed n) : s.work ≤ 29 * n := by
  have hqueue := s.pool.pool.work_le
  have hle : ∀ x ∈ s.calls.map Call.work, x ≤ 16 := by
    intro x hx
    obtain ⟨call, -, rfl⟩ := List.mem_map.1 hx
    cases call <;> simp [Call.work]
  have hcalls : (s.calls.map Call.work).sum ≤ 16 * n := by
    simpa [h.calls, Nat.mul_comm] using List.sum_le_card_nsmul (s.calls.map Call.work) 16 hle
  rw [h.threads] at hqueue
  unfold work
  omega

/-! ## When nobody can go on -/

/-- Every call has returned, or its thread is blocked in `GetConnection`. -/
def AtRest (s : Mysql) : Prop :=
  ∀ (i : Nat) (call : Call), s.calls[i]? = some call → call = .idle ∨
    (∃ f, call = .getting f) ∧ s.pool.pool.threads[i]?.any Pc.waiting = true

theorem atRest_of_stuck (hinv : s.Inv) (h : s.Placed n)
    (hstuck : ∀ a : Action, a.goesOn = true → s.step a = none) : s.AtRest := by
  have hqueue : ∀ i choice, s.pool.pool.step (.next i choice) = none := fun i choice => by
    simpa [step, poolStep, MysqlPool.step, MysqlPool.poolStep] using hstuck (.next i choice) rfl
  have hrest := ThreadSafeQueue.atRest_of_stuck hinv.pool.pool h.tame hqueue
  intro i call hcall
  obtain ⟨pc, hpc, hwithin⟩ := h.within i call hcall
  cases call with
  | idle => exact Or.inl rfl
  | getting f =>
      refine Or.inr ⟨⟨f, rfl⟩, ?_⟩
      obtain ⟨value, rfl⟩ | ⟨pop, rfl⟩ := hrest pc (Threads.mem hpc)
      · obtain ⟨con, rfl⟩ := Option.isSome_iff_exists.1 hwithin
        exact absurd (hstuck (.got i) rfl) (by
          simp [step, hcall, MysqlPool.got, hpc, MysqlPool.poolStep, ThreadSafeQueue.step])
      · simp [hpc, Pc.waiting]
  | executing f con =>
      obtain rfl : pc = .returned none := hwithin
      have hborrowed : con ∈ s.pool.borrowed :=
        hinv.borrowed.mem_iff.2 (List.mem_filterMap.2 ⟨_, Threads.mem hcall, rfl⟩)
      have hreturns : (ending f (some 0)).returnsConnection = true :=
        returnsConnection_iff.2 (by simp)
      have hnone := hstuck (.execute i (some 0)) rfl
      cases hrunning : s.pool.running <;>
        simp [step, hcall, finish, hreturns, poolStep, MysqlPool.step, MysqlPool.returnConnection,
          hborrowed, hrunning, MysqlPool.outside, MysqlPool.poolStep, ThreadSafeQueue.step,
          hpc] at hnone
  | returning value =>
      obtain hpushes | rfl := hwithin
      · obtain ⟨value', rfl⟩ | ⟨pop, rfl⟩ := hrest pc (Threads.mem hpc) <;>
          exact absurd hpushes (by simp [Pc.pushes])
      · exact absurd (hstuck (.returned i) rfl) (by
          simp [step, hcall, MysqlPool.outside, hpc])

/-- Where the threads are then. -/
theorem AtRest.threads (hrest : s.AtRest) (h : s.Placed n) {pc : Pc SqlConnection}
    (hmem : pc ∈ s.pool.pool.threads) : pc = .returned none ∨ pc.waiting = true := by
  obtain ⟨i, hpc⟩ := List.getElem?_of_mem hmem
  have hlt : i < s.calls.length := by
    rw [h.calls, ← h.threads]
    exact Threads.lt_length hpc
  have hcall := List.getElem?_eq_getElem hlt
  obtain hidle | ⟨-, hwaiting⟩ := hrest i _ hcall
  · obtain ⟨pc', hpc', hwithin⟩ := h.within i _ hcall
    rw [hidle] at hwithin
    exact Or.inl ((Option.some.inj (hpc.symm.trans hpc')).trans hwithin)
  · exact Or.inr (by simpa [hpc] using hwaiting)

/-- Nobody has a connection then. -/
theorem AtRest.length (hrest : s.AtRest) (h : s.Placed n) (hinv : s.Inv)
    (hopen : s.pool.running = true) :
    s.pool.pool.stored.length + s.pool.destroyed.length = s.pool.size.toNat := by
  have hthreads : s.pool.pool.held = [] := by
    refine List.filterMap_eq_nil_iff.2 fun pc hpc => ?_
    obtain rfl | hwaiting := hrest.threads h hpc
    · rfl
    · cases pc with
      | blocked pop => rfl
      | _ => exact absurd hwaiting (by simp [Pc.waiting])
  have hcalls : s.calls.filterMap Call.con = [] := by
    refine List.filterMap_eq_nil_iff.2 fun call hcall => ?_
    obtain ⟨i, hi⟩ := List.getElem?_of_mem hcall
    obtain rfl | ⟨⟨f, rfl⟩, -⟩ := hrest i call hi <;> rfl
  have hlength := hinv.length hopen
  rw [held, hthreads, hcalls] at hlength
  simpa using hlength

/-- While nobody closes the pool: from every state that any number of threads reach, however they
    go on and whatever the driver answers, after 29 steps for each of them at most nobody can go on;
    and when nobody can, every call has returned or waits for a connection, and all that no query
    has destroyed are in the pool. -/
theorem calls_end_or_wait (run : (machine size n).Reaches StaysOpen as s) {steps : List Action}
    (hgo : ∀ a ∈ steps, a.goesOn = true)
    (hsteps : (machine size n).exec StaysOpen s steps = some t) :
    steps.length ≤ 29 * n ∧
    ((∀ a : Action, a.goesOn = true → t.step a = none) → t.AtRest ∧
      t.pool.pool.stored.length + t.pool.destroyed.length = size.toNat) := by
  have hlabels : ∀ s : Mysql, ∀ a ∈ steps, ∀ t, True → (machine size n).step s a = some t →
      t.work < s.work := fun s a ha t _ hstep => work_lt (hgo a ha) (step_cases hstep)
  have hwork := Machine.exec_length_le work (fun _ _ _ _ _ => trivial) hlabels trivial hsteps
  have hle := (placed_of_reaches run).work_le
  refine ⟨by omega, fun hstuck => ?_⟩
  have hrun := run.exec_append _ hsteps
  obtain ⟨hinv, hopen⟩ := open_of_reaches hrun
  have hplaced := placed_of_reaches hrun
  have hrest := atRest_of_stuck hinv hplaced hstuck
  obtain ⟨-, rfl⟩ := inv_of_reaches hrun
  exact ⟨hrest, hrest.length hplaced hinv hopen⟩

/-- An update executes with the only connection, and a query waits for it. -/
def queryBehindUpdate : List Action :=
  [.call 0 .update, .next 0 0, .next 0 0, .next 0 0, .next 0 0, .next 0 0, .next 0 0, .got 0,
    .call 1 .query, .next 1 0, .next 1 0, .next 1 0, .next 1 0]

/-- Both go on to their end, the update to an exception of the driver. -/
def updateThrows : List Action :=
  [.execute 0 none, .next 0 0, .next 0 0, .next 0 5, .next 0 0, .next 0 1, .next 0 0, .returned 0,
    .next 1 0, .next 1 0, .next 1 0, .next 1 0, .next 1 0, .next 1 0, .got 1, .execute 1 (some 3),
    .next 1 0, .next 1 0, .next 1 6, .next 1 0, .next 1 0, .next 1 0, .returned 1]

/-- Nothing goes on when every call has returned. -/
theorem stuck_of_idle (hcalls : s.calls = [.idle, .idle])
    (hthreads : s.pool.pool.threads = [.returned none, .returned none]) (hgo : a.goesOn = true) :
    s.step a = none := by
  cases a with
  | call | wake | close | notifyAll => exact absurd hgo (by simp [Action.goesOn])
  | next i choice =>
      rcases i with _ | _ | i <;>
        simp [step, poolStep, MysqlPool.step, MysqlPool.poolStep, ThreadSafeQueue.step, hthreads,
          ThreadSafeQueue.goOn]
  | got i | execute i _ | returned i => rcases i with _ | _ | i <;> simp [step, hcalls]

theorem calls_end_or_wait_queryBehindUpdate :
    ∃ s t : Mysql, (machine 1 2).Reaches StaysOpen queryBehindUpdate s ∧
      (machine 1 2).exec StaysOpen s updateThrows = some t ∧ t.AtRest ∧
      t.pool.pool.stored.length + t.pool.destroyed.length = 1 := by
  obtain ⟨s, run, hs⟩ := Machine.exists_reaches_of_exec (machine 1 2) StaysOpen (new 1 2)
    queryBehindUpdate (fun s => ((machine 1 2).exec StaysOpen s updateThrows).any (fun t =>
      t.calls = [.idle, .idle] ∧ t.pool.pool.threads = [.returned none, .returned none]) = true)
    rfl (by decide +kernel)
  obtain ⟨t, ht, hidle⟩ := (Option.any_eq_true _ _).1 hs
  obtain ⟨hcalls, hthreads⟩ := of_decide_eq_true hidle
  refine ⟨s, t, run, ht, ?_⟩
  exact (calls_end_or_wait run (by decide) ht).2 fun _ => stuck_of_idle hcalls hthreads

/-! ## Which calls hang -/

/-- Nobody closes the pool, and a thread begins its wait for a connection only if everybody who
    waits is served with it. -/
def WaitsServed (s : Mysql) (a : Action) : Prop :=
  StaysOpen s a ∧
    match a with
    | .next i choice => s.pool.pool.BlocksServed (.next i choice)
    | _ => True

instance (s : Mysql) : (a : Action) → Decidable (WaitsServed s a)
  | .next _ _ => inferInstanceAs (Decidable (_ ∧ ThreadSafeQueue.BlocksServed _ _))
  | .call _ _ | .wake _ | .got _ | .execute _ _ | .returned _ | .close | .notifyAll =>
      inferInstanceAs (Decidable (_ ∧ True))

theorem served_step (hinv : s.Inv) (h : s.pool.pool.Served) (hok : WaitsServed s a)
    (hstep : Step s a t) : t.pool.pool.Served := by
  have hmove {b : ThreadSafeQueue.Action SqlConnection} {queue : ThreadSafeQueue SqlConnection}
      (hqueue : s.pool.pool.step b = some queue) (hok : s.pool.pool.BlocksServed b) :
      queue.Served := h.step (hinv.pool.pool.effect hqueue) hok
  cases hstep with
  | call _ hstep =>
      cases MysqlPool.step_cases hstep with
      | enter _ hqueue => exact hmove hqueue trivial
      | refuse => exact h
  | next hstep =>
      cases MysqlPool.step_cases hstep with
      | next hqueue => exact hmove hqueue hok.2
  | wake hstep =>
      cases MysqlPool.step_cases hstep with
      | wake hqueue => exact hmove hqueue trivial
  | notifyAll hstep =>
      cases MysqlPool.step_cases hstep with
      | notifyAll => exact hmove (b := .notifyAll) rfl trivial
  | got _ hgot =>
      obtain ⟨queue, -, hqueue, rfl⟩ := MysqlPool.got_cases hgot
      exact hmove hqueue trivial
  | putBack _ _ hstep =>
      cases MysqlPool.step_cases hstep with
      | putBack _ _ hqueue => exact hmove hqueue trivial
      | drop => exact h
  | destroy _ _ hstep =>
      cases MysqlPool.step_cases hstep with
      | destroy => exact h
  | returned | close => exact h

theorem served_of_reaches (run : (machine size n).Reaches WaitsServed as s) :
    s.pool.pool.Served := by
  refine (run.invariant (I := fun s => s.Inv ∧ s.pool.pool.Served) ?_ ?_).2
  · rintro s rfl
    obtain ⟨-, hthreads, -⟩ := MysqlPool.fill_spec n size.toNat
    refine ⟨inv_new size n, Or.inl (ThreadSafeQueue.count_blocked fun pc hpc => ?_)⟩
    rw [new, MysqlPool.new, hthreads] at hpc
    rw [List.eq_of_mem_replicate hpc]
    rfl
  · rintro s a t ⟨hinv, h⟩ hok hstep
    have hcases := step_cases hstep
    exact ⟨hinv.step hcases, served_step hinv h hok hcases⟩

/-- At rest a thread has no other role than the two that it can have there. -/
theorem AtRest.count_eq_zero (hrest : s.AtRest) (h : s.Placed n) (role : ThreadSafeQueue.Role)
    (houtside : role ≠ .outside) (hblocked : role ≠ .blocked) : s.pool.pool.count role = 0 := by
  refine List.countP_eq_zero.2 fun pc hpc => ?_
  rw [decide_eq_true_iff]
  obtain rfl | hwaiting := hrest.threads h hpc
  · exact houtside.symm
  · rw [ThreadSafeQueue.Pc.role_eq_blocked_iff.2 hwaiting]
    exact hblocked.symm

/-- A call hangs only for a lost wake-up or for want of connections: in a run without the first,
    when nobody can go on and the queries have left a connection, every call has returned. -/
theorem calls_return (run : (machine size n).Reaches WaitsServed as s)
    (hleft : s.pool.destroyed.length < size.toNat)
    (hstuck : ∀ a : Action, a.goesOn = true → s.step a = none) :
    ∀ call ∈ s.calls, call = .idle := by
  have hplaced := placed_of_reaches run
  obtain ⟨hinv, hopen⟩ := open_of_reaches (run.mono fun _ _ h => h.1)
  have hrest := atRest_of_stuck hinv hplaced hstuck
  have hlength := hrest.length hplaced hinv hopen
  obtain ⟨-, rfl⟩ := inv_of_reaches run
  have hserved := served_of_reaches run
  have hlooking := hrest.count_eq_zero hplaced .looking (by simp) (by simp)
  have hnotifying := hrest.count_eq_zero hplaced .notifying (by simp) (by simp)
  have hpushing := hrest.count_eq_zero hplaced .pushing (by simp) (by simp)
  rw [hinv.pool.pool.stored_eq] at hlength
  have hblocked : s.pool.pool.count .blocked = 0 := by
    simp only [ThreadSafeQueue.Served] at hserved
    omega
  intro call hcall
  obtain ⟨i, hi⟩ := List.getElem?_of_mem hcall
  obtain hidle | ⟨-, hwaiting⟩ := hrest i call hi
  · exact hidle
  · obtain ⟨pc, hpc, hwaits⟩ := (Option.any_eq_true _ _).1 hwaiting
    have hnone := List.countP_eq_zero.1 hblocked pc (Threads.mem hpc)
    exact absurd (decide_eq_true (ThreadSafeQueue.Pc.role_eq_blocked_iff.2 hwaits)) hnone

theorem calls_return_queryBehindUpdate :
    ∃ s, (machine 1 2).Reaches WaitsServed (queryBehindUpdate ++ updateThrows) s ∧
      s.pool.destroyed = [] ∧ ∀ call ∈ s.calls, call = .idle := by
  obtain ⟨s, run, hdestroyed, hsize, hcalls, hthreads⟩ := Machine.exists_reaches_of_exec
    (machine 1 2) WaitsServed (new 1 2) (queryBehindUpdate ++ updateThrows) (fun s =>
      s.pool.destroyed = [] ∧ s.pool.size = 1 ∧ s.calls = [.idle, .idle] ∧
        s.pool.pool.threads = [.returned none, .returned none]) rfl (by decide +kernel)
  refine ⟨s, run, hdestroyed, calls_return run ?_ fun _ => stuck_of_idle hcalls hthreads⟩
  simp [hdestroyed]

end Mysql
