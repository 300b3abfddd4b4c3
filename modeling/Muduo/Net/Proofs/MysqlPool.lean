import Muduo.Net.MysqlPool
import Muduo.Base.Proofs.QueueWaiters

set_option autoImplicit false

/-! # The connections of a MysqlPool

A connection is in `pool_`, with a thread inside a function of the pool, with a user, or gone. When
`close` has returned, the threads inside `GetConnection` wait for what is left in `pool_`:
the predicate of the wait does not look at `runing_`, and `ReturnConnection` puts nothing back. -/

namespace MysqlPool

variable {s t : MysqlPool} {a : Action} {i : Nat}

/-! ## Steps -/

/-- What a step does. -/
inductive Step (s : MysqlPool) : Action → MysqlPool → Prop
  | enter {i : Nat} {pool : ThreadSafeQueue SqlConnection} (hopen : s.running = true)
      (hstep : s.pool.step (.pop i .waitPop) = some pool) :
      Step s (.getConnection i) { s with pool }
  | refuse {i : Nat} (hclosed : s.running = false) (houtside : s.outside i = true) :
      Step s (.getConnection i) s
  | next {i choice : Nat} {pool : ThreadSafeQueue SqlConnection}
      (hstep : s.pool.step (.next i choice) = some pool) :
      Step s (.next i choice) { s with pool }
  | wake {i : Nat} {pool : ThreadSafeQueue SqlConnection}
      (hstep : s.pool.step (.wake i) = some pool) :
      Step s (.wake i) { s with pool }
  | got {i : Nat} {con : SqlConnection} {pool : ThreadSafeQueue SqlConnection}
      (hpc : s.pool.threads[i]? = some (.returned (some con)))
      (hstep : s.pool.step (.take i) = some pool) :
      Step s (.got i) { s with pool, borrowed := con :: s.borrowed }
  | putBack {i : Nat} {con : SqlConnection} {pool : ThreadSafeQueue SqlConnection}
      (hborrowed : con ∈ s.borrowed)
      (hopen : s.running = true) (hstep : s.pool.step (.push i con) = some pool) :
      Step s (.returnConnection i con) { s with pool, borrowed := s.borrowed.erase con }
  | drop {i : Nat} {con : SqlConnection} (hborrowed : con ∈ s.borrowed)
      (hclosed : s.running = false)
      (houtside : s.outside i = true) :
      Step s (.returnConnection i con)
        { s with borrowed := s.borrowed.erase con, dropped := con :: s.dropped }
  | destroy {con : SqlConnection} (hborrowed : con ∈ s.borrowed) :
      Step s (.destroy con)
        { s with borrowed := s.borrowed.erase con, destroyed := con :: s.destroyed }
  | close : Step s .close s.close
  | notifyAll (hclosing : 0 < s.closing) :
      Step s .notifyAll
        { s with pool := s.pool.notifyAll, closing := s.closing - 1, closed := true }

theorem got_cases {con : SqlConnection} (h : s.got i = some (con, t)) :
    ∃ pool, s.pool.threads[i]? = some (.returned (some con)) ∧
      s.pool.step (.take i) = some pool ∧ t = { s with pool, borrowed := con :: s.borrowed } := by
  unfold got at h
  split at h
  · next con' hpc =>
      simp only [poolStep, Option.map_map, Option.map_eq_some_iff] at h
      obtain ⟨pool, hstep, heq⟩ := h
      obtain ⟨rfl, rfl⟩ := Prod.mk.inj heq
      exact ⟨pool, hpc, hstep, rfl⟩
  · exact absurd h (by simp)

theorem step_cases (h : s.step a = some t) : Step s a t := by
  cases a with
  | getConnection i =>
      rw [step, getConnection] at h
      split at h
      · next hopen =>
          obtain ⟨pool, hstep, rfl⟩ := Option.map_eq_some_iff.1 h
          exact .enter hopen hstep
      · next hclosed =>
          rw [Option.ite_none_right_eq_some] at h
          obtain ⟨houtside, heq⟩ := h
          obtain rfl := Option.some.inj heq
          exact .refuse (by simpa using hclosed) houtside
  | next i choice =>
      obtain ⟨pool, hstep, rfl⟩ := Option.map_eq_some_iff.1 h
      exact .next hstep
  | wake i =>
      obtain ⟨pool, hstep, rfl⟩ := Option.map_eq_some_iff.1 h
      exact .wake hstep
  | got i =>
      obtain ⟨⟨con, t'⟩, hgot, rfl⟩ := Option.map_eq_some_iff.1 h
      obtain ⟨pool, hpc, hstep, rfl⟩ := got_cases hgot
      exact .got hpc hstep
  | returnConnection i con =>
      simp only [step, returnConnection, Option.ite_none_right_eq_some] at h
      obtain ⟨hborrowed, h⟩ := h
      split at h
      · next hopen =>
          obtain ⟨pool, hstep, rfl⟩ := Option.map_eq_some_iff.1 h
          exact .putBack hborrowed hopen hstep
      · next hclosed =>
          rw [Option.ite_none_right_eq_some] at h
          obtain ⟨houtside, heq⟩ := h
          obtain rfl := Option.some.inj heq
          exact .drop hborrowed (by simpa using hclosed) houtside
  | destroy con =>
      simp only [step, destroy, Option.ite_none_right_eq_some] at h
      obtain ⟨hborrowed, heq⟩ := h
      obtain rfl := Option.some.inj heq
      exact .destroy hborrowed
  | close =>
      obtain rfl := Option.some.inj h
      exact .close
  | notifyAll =>
      simp only [step, notifyAll, Option.ite_none_right_eq_some] at h
      obtain ⟨hclosing, heq⟩ := h
      obtain rfl := Option.some.inj heq
      exact .notifyAll hclosing

/-- What is borrowed and what is destroyed changes only when a user gets or gives a connection. -/
def KeepsBorrowed (s t : MysqlPool) : Action → Prop
  | .got i => ∃ con, s.pool.threads[i]? = some (.returned (some con)) ∧
      t.borrowed = con :: s.borrowed ∧ t.destroyed = s.destroyed
  | .returnConnection _ con =>
      con ∈ s.borrowed ∧ t.borrowed = s.borrowed.erase con ∧ t.destroyed = s.destroyed
  | .destroy con =>
      con ∈ s.borrowed ∧ t.borrowed = s.borrowed.erase con ∧ t.destroyed = con :: s.destroyed
  | _ => t.borrowed = s.borrowed ∧ t.destroyed = s.destroyed

theorem keepsBorrowed (h : s.step a = some t) : KeepsBorrowed s t a := by
  cases step_cases h with
  | got hpc => exact ⟨_, hpc, rfl, rfl⟩
  | putBack hborrowed | drop hborrowed | destroy hborrowed => exact ⟨hborrowed, rfl, rfl⟩
  | enter | refuse | next | wake | close | notifyAll => exact ⟨rfl, rfl⟩

/-- Only `close` closes the pool. -/
theorem running_step (h : s.step a = some t) (hclose : a ≠ .close) :
    t.running = s.running ∧ t.size = s.size := by
  cases step_cases h with
  | close => exact absurd rfl hclose
  | _ => exact ⟨rfl, rfl⟩

/-! ## The constructor -/

theorem fill_spec (n size : Nat) :
    (fill n size).Inv ∧ (fill n size).threads = List.replicate n (.returned none) ∧
      (fill n size).content = List.range size ∧ ∀ p, size < p → (fill n size).heap p = none := by
  induction size with
  | zero =>
      refine ⟨ThreadSafeQueue.inv_new n, rfl, rfl, fun p hp => ?_⟩
      simp [fill, ThreadSafeQueue.new, Nat.ne_of_gt hp]
  | succ size ih =>
      obtain ⟨hinv, hthreads, hcontent, hheap⟩ := ih
      have hidle : ∀ pc ∈ (fill n size).threads, pc = .returned none := fun pc hpc =>
        List.eq_of_mem_replicate (hthreads ▸ hpc)
      have htail := hinv.tailNode fun pc hpc => hidle pc hpc ▸ rfl
      refine ⟨hinv.pushAlone hidle (hheap _ (Nat.lt_succ_self size)), hthreads, ?_, fun p hp => ?_⟩
      · rw [List.range_succ, ← hcontent]
        exact ThreadSafeQueue.content_concat hinv.law
      · have hfree := hheap p (Nat.lt_of_succ_lt hp)
        have hne : p ≠ (fill n size).tail := by
          rintro rfl
          exact absurd htail (by simp [hfree])
        simp [fill, ThreadSafeQueue.pushAlone, ThreadSafeQueue.setData, ThreadSafeQueue.setNext,
          ThreadSafeQueue.setTail, Nat.ne_of_gt hp, hne, hfree]

/-! ## No connection is lost or made -/

/-- Where the connections are. -/
def connections (s : MysqlPool) : List SqlConnection :=
  s.pool.values ++ s.borrowed ++ s.dropped ++ s.destroyed

/-- What every run keeps. -/
structure Inv (s : MysqlPool) : Prop where
  pool : s.pool.Inv
  connections : s.connections.Perm (List.range s.size.toNat)
  /-- While the pool is open, nobody has called `close`. -/
  running : s.running = true → s.closing = 0 ∧ s.closed = false ∧ s.dropped = []

theorem inv_new (size : Int) (n : Nat) : Inv (new size n) := by
  obtain ⟨hinv, hthreads, hcontent, -⟩ := fill_spec n size.toNat
  refine ⟨hinv, ?_, fun _ => ⟨rfl, rfl, rfl⟩⟩
  have hheld : (fill n size.toNat).held = [] := by
    rw [ThreadSafeQueue.held, hthreads]
    simp [ThreadSafeQueue.Pc.holds]
  simp [connections, new, ThreadSafeQueue.values, hheld, hcontent]

/-- A connection goes from one place to the next. -/
theorem connections_step (hpool : s.pool.Inv) (hstep : Step s a t) :
    t.connections.Perm s.connections := by
  have hsame {pool : ThreadSafeQueue SqlConnection} (hvalues : pool.values.Perm s.pool.values) :
      ({ s with pool } : MysqlPool).connections.Perm s.connections :=
    ((hvalues.append_right _).append_right _).append_right _
  have herase {con : SqlConnection} (hborrowed : con ∈ s.borrowed) :
      (s.borrowed : Multiset SqlConnection)
        = {con} + (s.borrowed.erase con : Multiset SqlConnection) :=
    Multiset.coe_eq_coe.2 (List.perm_cons_erase hborrowed)
  cases hstep with
  | enter _ hstep | next hstep | wake hstep => exact hsame (hpool.effect hstep).values
  | notifyAll => exact hsame (hpool.effect (a := .notifyAll) rfl).values
  | refuse | close => rfl
  | @got i con pool hpc hstep =>
      have hvalues : ({con} + pool.values : Multiset SqlConnection) = s.pool.values :=
        Multiset.coe_eq_coe.2 ((hpool.effect hstep).values con hpc)
      rw [← Multiset.coe_eq_coe]
      simp only [connections, ← Multiset.coe_add, ← Multiset.cons_coe, ← Multiset.singleton_add,
        ← hvalues]
      abel
  | @putBack i con pool hborrowed _ hstep =>
      have hvalues : (pool.values : Multiset SqlConnection) = {con} + s.pool.values :=
        Multiset.coe_eq_coe.2 (hpool.effect hstep).values
      rw [← Multiset.coe_eq_coe]
      simp only [connections, ← Multiset.coe_add, hvalues, herase hborrowed]
      abel
  | drop hborrowed | destroy hborrowed =>
      rw [← Multiset.coe_eq_coe]
      simp only [connections, ← Multiset.coe_add, ← Multiset.cons_coe, ← Multiset.singleton_add,
        herase hborrowed]
      abel

theorem Inv.step (h : s.Inv) (hstep : Step s a t) : t.Inv := by
  have hconnections := (connections_step h.pool hstep).trans h.connections
  have hpool {b : ThreadSafeQueue.Action SqlConnection} {pool : ThreadSafeQueue SqlConnection}
      (hstep : s.pool.step b = some pool) : pool.Inv :=
    h.pool.step (ThreadSafeQueue.step_cases hstep)
  cases hstep with
  | enter _ hstep | next hstep | wake hstep | got _ hstep | putBack _ _ hstep =>
      exact ⟨hpool hstep, hconnections, h.running⟩
  | refuse => exact h
  | destroy => exact ⟨h.pool, hconnections, h.running⟩
  | drop _ hclosed => exact ⟨h.pool, hconnections, fun hopen => absurd hopen (by simp [hclosed])⟩
  | close => exact ⟨h.pool, hconnections, fun hopen => absurd hopen (by simp [MysqlPool.close])⟩
  | notifyAll hclosing =>
      exact ⟨hpool (b := .notifyAll) rfl, hconnections, fun hopen =>
        absurd (h.running hopen).1 (Nat.ne_of_gt hclosing)⟩

/-! ## Waiters behind close -/

/-- The threads inside `GetConnection` find a connection when `close` sets `runing_`, and are
    notified of it when it has returned. -/
def ReleasesWaiters (s : MysqlPool) : Action → Prop
  | .close => s.running = true → s.pool.Enough
  | .next i choice => s.closed = true → s.pool.BlocksServed (.next i choice)
  | _ => True

instance (s : MysqlPool) : (a : Action) → Decidable (s.ReleasesWaiters a)
  | .close => inferInstanceAs (Decidable (s.running = true → _ ≤ _))
  | .next _ _ => inferInstanceAs (Decidable (s.closed = true → s.pool.BlocksServed _))
  | .getConnection _ | .wake _ | .got _ | .returnConnection _ _ | .destroy _ | .notifyAll =>
      isTrue trivial

/-- `close` has returned, every connection borrowed has been handed to `ReturnConnection`, and the
    only threads inside a function of the pool are blocked in `GetConnection`, one of them at
    least. -/
def Stuck (s : MysqlPool) : Prop :=
  s.closed = true ∧ s.closing = 0 ∧ s.borrowed = [] ∧ s.destroyed = [] ∧
    (∀ pc ∈ s.pool.threads, pc = .returned none ∨ pc.waiting = true) ∧
    ∃ pc ∈ s.pool.threads, pc.waiting = true

/-- What holds behind `close` in a run that releases the waiters. -/
structure Released (s : MysqlPool) : Prop extends Inv s where
  enough : s.running = false → s.pool.Enough
  served : s.closed = true → s.pool.Served

theorem released_new (size : Int) (n : Nat) : Released (new size n) :=
  ⟨inv_new size n, fun hclosed => absurd hclosed (by simp [new]),
    fun hclosed => absurd hclosed (by simp [new])⟩

theorem Released.enough_step (h : s.Released) (hok : s.ReleasesWaiters a) (hstep : Step s a t)
    (hclosed : t.running = false) : t.pool.Enough := by
  cases hstep with
  | enter hopen | putBack _ hopen => exact absurd hopen (by simpa using hclosed)
  | refuse | drop | destroy => exact h.enough hclosed
  | next hstep | wake hstep | got _ hstep =>
      exact (h.enough hclosed).step (h.pool.effect hstep) (by simp)
  | close =>
      cases hrunning : s.running with
      | false => exact h.enough hrunning
      | true => exact hok hrunning
  | notifyAll =>
      exact (h.enough hclosed).step (h.pool.effect (a := .notifyAll) rfl) (by simp)

theorem Released.served_step (h : s.Released) (hok : s.ReleasesWaiters a) (hstep : Step s a t)
    (hclosed : t.closed = true) : t.pool.Served := by
  cases hstep with
  | enter hopen | putBack _ hopen =>
      exact absurd hclosed (by simp [(h.running hopen).2.1])
  | refuse | drop | destroy | close => exact h.served hclosed
  | next hstep => exact (h.served hclosed).step (h.pool.effect hstep) (hok hclosed)
  | wake hstep | got _ hstep => exact (h.served hclosed).step (h.pool.effect hstep) trivial
  | notifyAll => exact Or.inl (ThreadSafeQueue.count_notifyAll rfl).1

theorem Released.step (h : s.Released) (hok : s.ReleasesWaiters a) (hstep : Step s a t) :
    t.Released :=
  ⟨h.toInv.step hstep, h.enough_step hok hstep, h.served_step hok hstep⟩

/-- No thread has another role than the two that a stuck pool has left. -/
theorem Stuck.count_eq_zero (h : s.Stuck) (role : ThreadSafeQueue.Role)
    (houtside : role ≠ .outside) (hblocked : role ≠ .blocked) : s.pool.count role = 0 := by
  refine List.countP_eq_zero.2 fun pc hpc => ?_
  rw [decide_eq_true_iff]
  rcases h.2.2.2.2.1 pc hpc with rfl | hwaiting
  · exact houtside.symm
  · rw [ThreadSafeQueue.Pc.role_eq_blocked_iff.2 hwaiting]
    exact hblocked.symm

theorem Released.not_stuck (h : s.Released) : ¬ s.Stuck := by
  intro hstuck
  have hclosed : s.running = false := by
    by_contra hopen
    have := (h.running (by simpa using hopen)).2.1
    exact absurd hstuck.1 (by simp [this])
  have hblocked : 0 < s.pool.count .blocked := by
    obtain ⟨pc, hpc, hwaiting⟩ := hstuck.2.2.2.2.2
    exact List.countP_pos_iff.2
      ⟨pc, hpc, decide_eq_true (ThreadSafeQueue.Pc.role_eq_blocked_iff.2 hwaiting)⟩
  have henough := h.enough hclosed
  have hserved := h.served hstuck.1
  have hlooking := hstuck.count_eq_zero .looking (by simp) (by simp)
  have hpushing := hstuck.count_eq_zero .pushing (by simp) (by simp)
  have hnotifying := hstuck.count_eq_zero .notifying (by simp) (by simp)
  simp only [ThreadSafeQueue.Enough, ThreadSafeQueue.seeking] at henough
  simp only [ThreadSafeQueue.Served] at hserved
  omega

/-- `close` releases the threads inside `GetConnection` in every run in which they find a connection
    and are notified of it. -/
theorem close_releases {size : Int} {n : Nat} {as : List Action}
    (run : (machine size n).Reaches ReleasesWaiters as s) : ¬ s.Stuck :=
  (run.invariant (fun _ hs => hs ▸ released_new size n)
    fun _ _ _ h hok hstep => h.step hok (step_cases hstep)).not_stuck

instance : DecidablePred Stuck := fun _ => inferInstanceAs (Decidable (_ ∧ _ ∧ _ ∧ _ ∧ _ ∧ _))

/-- Thread 0 is inside `GetConnection` when `close` runs, and finds the connection. -/
def closeBesideGetConnection : List Action :=
  [.getConnection 0, .next 0 0, .close, .next 0 0, .notifyAll, .next 0 0, .next 0 0, .next 0 0,
    .next 0 0, .got 0, .returnConnection 0 0]

theorem close_releases_closeBesideGetConnection :
    ∃ s, (machine 1 1).Reaches ReleasesWaiters closeBesideGetConnection s ∧
      (s.closed = true ∧ s.dropped = [0]) ∧ ¬ s.Stuck := by
  obtain ⟨s, run, hclosed⟩ := Machine.exists_reaches_of_exec (machine 1 1) ReleasesWaiters (new 1 1)
    closeBesideGetConnection (fun s => s.closed = true ∧ s.dropped = [0]) rfl (by decide)
  exact ⟨s, run, hclosed, close_releases run⟩

/-- Thread 0 has the only connection and thread 1 waits for it when `close` runs. -/
def closeBesideWaiter : List Action :=
  [.getConnection 0, .next 0 0, .next 0 0, .next 0 0, .next 0 0, .next 0 0, .next 0 0, .got 0,
    .getConnection 1, .next 1 0, .next 1 0, .next 1 0, .next 1 0, .close, .notifyAll, .next 1 0,
    .next 1 0, .next 1 0, .next 1 0, .returnConnection 0 0]

theorem closeBesideWaiter_stuck :
    ∃ s, (machine 1 2).Reaches Machine.anyStep closeBesideWaiter s ∧ s.Stuck :=
  Machine.exists_reaches_of_exec (machine 1 2) Machine.anyStep (new 1 2) closeBesideWaiter Stuck rfl
    (by decide)

end MysqlPool
