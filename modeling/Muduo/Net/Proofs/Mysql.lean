import Muduo.Net.Mysql
import Muduo.Net.Proofs.MysqlPool

set_option autoImplicit false

/-! # The connections of a Mysql

Every connection that the pool has given out is with the one call that executes a statement with it,
so what the pool and the calls in progress hold is all of them but those that were destroyed: the
ones of the queries whose statement threw. -/

namespace Mysql

variable {s t : Mysql} {a : Action} {i : Nat}

/-! ## Steps -/

/-- What a step does. -/
inductive Step (s : Mysql) : Action → Mysql → Prop
  | call {i : Nat} {f : Statement} {pool : MysqlPool} (hcall : s.calls[i]? = some .idle)
      (hstep : s.pool.step (.getConnection i) = some pool) :
      Step s (.call i f) ({ s with pool }.goTo i
        (if pool.running then .getting f else .returning f.valueOfNull))
  | next {i choice : Nat} {pool : MysqlPool} (hstep : s.pool.step (.next i choice) = some pool) :
      Step s (.next i choice) { s with pool }
  | wake {i : Nat} {pool : MysqlPool} (hstep : s.pool.step (.wake i) = some pool) :
      Step s (.wake i) { s with pool }
  | got {i : Nat} {f : Statement} {con : SqlConnection} {pool : MysqlPool}
      (hcall : s.calls[i]? = some (.getting f)) (hgot : s.pool.got i = some (con, pool)) :
      Step s (.got i) ({ s with pool }.goTo i (.executing f con))
  | putBack {i : Nat} {f : Statement} {con : SqlConnection} {answer : Option Int} {pool : MysqlPool}
      (hcall : s.calls[i]? = some (.executing f con))
      (hreturns : (ending f answer).returnsConnection = true)
      (hstep : s.pool.step (.returnConnection i con) = some pool) :
      Step s (.execute i answer) ({ s with pool }.goTo i (.returning (ending f answer).value))
  | destroy {i : Nat} {f : Statement} {con : SqlConnection} {answer : Option Int} {pool : MysqlPool}
      (hcall : s.calls[i]? = some (.executing f con))
      (hreturns : (ending f answer).returnsConnection = false)
      (hstep : s.pool.step (.destroy con) = some pool) :
      Step s (.execute i answer) ({ s with pool }.goTo i (.returning (ending f answer).value))
  | returned {i : Nat} {value : Value} (hcall : s.calls[i]? = some (.returning value))
      (houtside : s.pool.outside i = true) : Step s (.returned i) (s.goTo i .idle)
  | close : Step s .close { s with pool := s.pool.close }
  | notifyAll {pool : MysqlPool} (hstep : s.pool.step .notifyAll = some pool) :
      Step s .notifyAll { s with pool }

theorem step_cases (h : s.step a = some t) : Step s a t := by
  cases a with
  | call i f =>
      simp only [step] at h
      split at h
      · next hcall =>
          simp only [poolStep, Option.map_map, Option.map_eq_some_iff] at h
          obtain ⟨pool, hstep, rfl⟩ := h
          exact .call hcall hstep
      · exact absurd h (by simp)
  | next i choice =>
      obtain ⟨pool, hstep, rfl⟩ := Option.map_eq_some_iff.1 h
      exact .next hstep
  | wake i =>
      obtain ⟨pool, hstep, rfl⟩ := Option.map_eq_some_iff.1 h
      exact .wake hstep
  | got i =>
      simp only [step] at h
      split at h
      · next f hcall =>
          obtain ⟨⟨con, pool⟩, hgot, rfl⟩ := Option.map_eq_some_iff.1 h
          exact .got hcall hgot
      · exact absurd h (by simp)
  | execute i answer =>
      simp only [step] at h
      split at h
      · next f con hcall =>
          simp only [finish, poolStep, Option.map_map, Option.map_eq_some_iff] at h
          obtain ⟨pool, hstep, rfl⟩ := h
          split at hstep
          · next hreturns => exact .putBack hcall hreturns hstep
          · next hreturns => exact .destroy hcall (by simpa using hreturns) hstep
      · exact absurd h (by simp)
  | returned i =>
      simp only [step] at h
      split at h
      · next value hcall =>
          rw [Option.ite_none_right_eq_some] at h
          obtain ⟨houtside, heq⟩ := h
          obtain rfl := Option.some.inj heq
          exact .returned hcall houtside
      · exact absurd h (by simp)
  | close =>
      obtain rfl := Option.some.inj h
      exact .close
  | notifyAll =>
      obtain ⟨pool, hstep, rfl⟩ := Option.map_eq_some_iff.1 h
      exact .notifyAll hstep

/-- Only `query` keeps its connection from the pool, when its statement throws. -/
theorem returnsConnection_iff {f : Statement} {answer : Option Int} :
    (ending f answer).returnsConnection = true ↔ ¬ (f = .query ∧ answer = none) := by
  cases f <;> cases answer <;> simp [ending, query, update, exec]

/-! ## What is borrowed -/

/-- What every run keeps. -/
structure Inv (s : Mysql) : Prop where
  pool : s.pool.Inv
  borrowed : s.pool.borrowed.Perm (s.calls.filterMap Call.con)

theorem inv_new (size : Int) (n : Nat) : Inv (new size n) := by
  refine ⟨MysqlPool.inv_new size n, ?_⟩
  simp [new, MysqlPool.new, Call.con]

/-- One call goes on, and what it has is what is borrowed more or less. -/
theorem Inv.borrowed_set (h : s.Inv) {pool : MysqlPool} {call call' : Call}
    (hcall : s.calls[i]? = some call)
    (hpool : (call.con.toList ++ pool.borrowed).Perm (call'.con.toList ++ s.pool.borrowed)) :
    pool.borrowed.Perm ((s.calls.set i call').filterMap Call.con) := by
  refine (List.perm_append_left_iff call.con.toList).1 (hpool.trans ?_)
  exact (h.borrowed.append_left _).trans (Threads.filterMap_set Call.con hcall call').symm

theorem Inv.step (h : s.Inv) (hstep : Step s a t) : t.Inv := by
  have hinv {b : MysqlPool.Action} {pool : MysqlPool} (hstep : s.pool.step b = some pool) :
      pool.Inv := h.pool.step (MysqlPool.step_cases hstep)
  cases hstep with
  | @call i f pool hcall hstep =>
      have hborrowed : pool.borrowed = s.pool.borrowed := (MysqlPool.keepsBorrowed hstep).1
      refine ⟨hinv hstep, h.borrowed_set hcall (List.Perm.of_eq ?_)⟩
      rw [← hborrowed]
      split <;> rfl
  | next hstep | wake hstep | notifyAll hstep =>
      exact ⟨hinv hstep, (MysqlPool.keepsBorrowed hstep).1 ▸ h.borrowed⟩
  | @got i f con pool hcall hgot =>
      have hstep : s.pool.step (.got i) = some pool := by rw [MysqlPool.step, hgot]; rfl
      obtain ⟨_, -, -, rfl⟩ := MysqlPool.got_cases hgot
      exact ⟨hinv hstep, h.borrowed_set hcall (List.Perm.refl _)⟩
  | putBack hcall _ hstep | destroy hcall _ hstep =>
      obtain ⟨hmem, hborrowed, -⟩ := MysqlPool.keepsBorrowed hstep
      refine ⟨hinv hstep, h.borrowed_set hcall ?_⟩
      exact (hborrowed ▸ List.perm_cons_erase hmem).symm
  | returned hcall => exact ⟨h.pool, h.borrowed_set hcall (List.Perm.refl _)⟩
  | close => exact ⟨hinv (b := .close) rfl, h.borrowed⟩

/-! ## No call leaks a connection -/

/-- The connections that calls in progress hold. -/
def held (s : Mysql) : List SqlConnection := s.pool.pool.held ++ s.calls.filterMap Call.con

/-- Nobody closes the pool. -/
def StaysOpen (_ : Mysql) (a : Action) : Prop := a ≠ .close

instance (s : Mysql) (a : Action) : Decidable (StaysOpen s a) := inferInstanceAs (Decidable (_ ≠ _))

/-- It executes the statement of a query. -/
def Call.queries : Call → Bool
  | .executing .query _ => true
  | _ => false

/-- The driver does not throw at the statement of a query. -/
def QueriesSucceed (s : Mysql) : Action → Prop
  | .execute i none => s.calls[i]?.any Call.queries = false
  | _ => True

instance (s : Mysql) : (a : Action) → Decidable (s.QueriesSucceed a)
  | .execute _ none => inferInstanceAs (Decidable (_ = false))
  | .execute _ (some _) | .call _ _ | .next _ _ | .wake _ | .got _ | .returned _ | .close
  | .notifyAll => isTrue trivial

/-- The pool and the calls in progress hold `size_` connections, none of them twice in the pool. -/
def Conserves (s : Mysql) : Prop :=
  ((s.pool.pool.stored.length + s.held.length : Nat) : Int) = s.pool.size ∧
    s.pool.pool.stored.Nodup

/-- A connection is destroyed by a query whose statement throws, and only by that. -/
theorem destroyed_step (hstep : Step s a t) :
    t.pool.destroyed = [] ↔ s.pool.destroyed = [] ∧ s.QueriesSucceed a := by
  have hsame {pool : MysqlPool} (hdestroyed : pool.destroyed = s.pool.destroyed) {P : Prop}
      (hP : P) : pool.destroyed = [] ↔ s.pool.destroyed = [] ∧ P := by
    rw [hdestroyed]
    exact (and_iff_left hP).symm
  cases hstep with
  | call _ hstep | next hstep | wake hstep | notifyAll hstep =>
      exact hsame (MysqlPool.keepsBorrowed hstep).2 trivial
  | got _ hgot =>
      obtain ⟨_, -, -, rfl⟩ := MysqlPool.got_cases hgot
      exact hsame rfl trivial
  | @putBack i f con answer pool hcall hreturns hstep =>
      refine hsame (MysqlPool.keepsBorrowed hstep).2.2 ?_
      cases answer with
      | some n => trivial
      | none =>
          have hquery : f ≠ .query := fun heq => returnsConnection_iff.1 hreturns ⟨heq, rfl⟩
          cases f with
          | query => exact absurd rfl hquery
          | update | exec => simp [QueriesSucceed, hcall, Call.queries]
  | @destroy i f con answer pool hcall hreturns hstep =>
      obtain ⟨-, -, hdestroyed⟩ := MysqlPool.keepsBorrowed hstep
      have hthrown : f = .query ∧ answer = none := by
        by_contra hnot
        exact absurd (returnsConnection_iff.2 hnot) (by simp [hreturns])
      obtain ⟨rfl, rfl⟩ := hthrown
      refine iff_of_false (fun hnil => ?_) fun hok => ?_
      · exact List.cons_ne_nil _ _ (hdestroyed.symm.trans hnil)
      · exact absurd hok.2 (by simp [QueriesSucceed, hcall, Call.queries])
  | returned | close => exact hsame rfl trivial

theorem running_step (hopen : a ≠ .close) (hstep : Step s a t) :
    t.pool.running = s.pool.running ∧ t.pool.size = s.pool.size := by
  cases hstep with
  | call _ hstep | next hstep | wake hstep | notifyAll hstep | putBack _ _ hstep
  | destroy _ _ hstep => exact MysqlPool.running_step hstep (by simp)
  | got _ hgot =>
      obtain ⟨_, -, -, rfl⟩ := MysqlPool.got_cases hgot
      exact ⟨rfl, rfl⟩
  | returned => exact ⟨rfl, rfl⟩
  | close => exact absurd rfl hopen

theorem open_of_reaches {size : Int} {n : Nat} {as : List Action}
    (run : (machine size n).Reaches StaysOpen as s) : s.Inv ∧ s.pool.running = true := by
  refine run.invariant (I := fun s => s.Inv ∧ s.pool.running = true) (fun _ hs => ?_)
    fun s a t h hok hstep => ?_
  · rw [hs]
    exact ⟨inv_new size n, rfl⟩
  have hcases := step_cases hstep
  exact ⟨h.1.step hcases, (running_step hok hcases).1.trans h.2⟩

/-- What the pool and the calls in progress do not hold has been destroyed. -/
theorem Inv.length (h : s.Inv) (hopen : s.pool.running = true) :
    s.pool.pool.stored.length + s.held.length + s.pool.destroyed.length = s.pool.size.toNat := by
  have hlength := h.pool.connections.length_eq
  have hborrowed := h.borrowed.length_eq
  have hdropped := (h.pool.running hopen).2.2
  simp only [MysqlPool.connections, ThreadSafeQueue.values, List.length_append, hdropped,
    List.length_nil, List.length_range] at hlength
  rw [h.pool.pool.stored_eq, held, List.length_append]
  omega

theorem Inv.stored_nodup (h : s.Inv) : s.pool.pool.stored.Nodup := by
  have hnodup := h.pool.connections.nodup_iff.2 List.nodup_range
  rw [h.pool.pool.stored_eq]
  simp only [MysqlPool.connections, ThreadSafeQueue.values, List.append_assoc] at hnodup
  exact hnodup.of_append_left

/-- Whether an open pool has lost a connection depends on the statements of the queries alone. -/
theorem conserves_iff {size : Int} {n : Nat} {as : List Action}
    (run : (machine size n).Reaches StaysOpen as s) :
    s.Conserves ↔ 0 ≤ s.pool.size ∧
      (machine size n).Reaches (fun s a => StaysOpen s a ∧ s.QueriesSucceed a) as s := by
  obtain ⟨hinv, hopen⟩ := open_of_reaches run
  have hlength := hinv.length hopen
  rw [← run.iff_guarded (P := fun _ s => s.pool.destroyed = []) (fun _ hs => hs ▸ rfl)
    fun _ _ _ _ _ _ hstep => destroyed_step (step_cases hstep), ← List.length_eq_zero_iff]
  constructor
  · rintro ⟨hcount, -⟩
    omega
  · rintro ⟨hsize, hdestroyed⟩
    exact ⟨by omega, hinv.stored_nodup⟩

/-- Two threads run an update that throws and a query that succeeds, with one connection. -/
def updateBesideQuery : List Action :=
  [.call 0 .update, .call 1 .query, .next 0 0, .next 0 0, .next 0 0, .next 0 0, .next 0 0,
    .next 0 0, .got 0, .next 1 0, .next 1 0, .next 1 0, .next 1 0, .execute 0 none, .next 0 0,
    .next 0 0, .next 0 5, .next 0 0, .next 0 1, .next 0 0, .next 1 0, .next 1 0, .next 1 0,
    .next 1 0, .next 1 0, .next 1 0, .got 1]

theorem conserves_updateBesideQuery :
    ∃ s, (machine 1 2).Reaches StaysOpen updateBesideQuery s ∧
      s.calls = [.returning (.count 0), .executing .query 0] ∧
      (s.Conserves ↔ 0 ≤ s.pool.size ∧ (machine 1 2).Reaches
        (fun s a => StaysOpen s a ∧ s.QueriesSucceed a) updateBesideQuery s) := by
  obtain ⟨s, run, hcalls⟩ := Machine.exists_reaches_of_exec (machine 1 2) StaysOpen (new 1 2)
    updateBesideQuery (fun s => s.calls = [.returning (.count 0), .executing .query 0]) rfl
    (by decide)
  exact ⟨s, run, hcalls, conserves_iff run⟩

/-- The statement of a query throws. -/
def queryThrows : List Action :=
  [.call 0 .query, .next 0 0, .next 0 0, .next 0 0, .next 0 0, .next 0 0, .next 0 0, .got 0,
    .execute 0 none]

theorem queryThrows_leaks :
    ∃ s, (machine 1 1).Reaches StaysOpen queryThrows s ∧ ¬ s.Conserves := by
  obtain ⟨s, run, hheld⟩ := Machine.exists_reaches_of_exec (machine 1 1) StaysOpen (new 1 1)
    queryThrows (fun s => s.pool.pool.stored = [] ∧ s.held = [] ∧ s.pool.size = 1) rfl (by decide)
  refine ⟨s, run, fun hconserves => absurd hconserves.1 ?_⟩
  simp [hheld]

end Mysql
