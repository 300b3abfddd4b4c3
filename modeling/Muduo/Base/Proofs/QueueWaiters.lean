import Muduo.Base.Proofs.QueueEffect

set_option autoImplicit false

/-! # The waiters of a ThreadSafeQueue

`push` notifies without `HeadMutex_`, so its `notify_one` may come between the test of the predicate
and the wait, where nobody is woken up by it. With one consumer nothing else goes wrong. -/

namespace ThreadSafeQueue

variable {α : Type} {s t : ThreadSafeQueue α} {i choice : Nat} {pc pc' : Pc α} {a : Action α}

/-! ## Enough values, enough notifications -/

/-- How many threads have popped nothing yet. -/
def seeking (s : ThreadSafeQueue α) : Nat := s.count .looking + s.count .leaving + s.count .blocked

/-- For every thread that seeks a value there is one in the queue, or one is being pushed. -/
def Enough (s : ThreadSafeQueue α) : Prop := s.seeking ≤ s.content.length + s.count .pushing

/-- Nobody is blocked, or there is somebody to look for every value, or a `notify_one` to come for
    everybody who is blocked. -/
def Served (s : ThreadSafeQueue α) : Prop :=
  s.count .blocked = 0 ∨ s.content.length ≤ s.count .looking + s.count .notifying ∨
    s.count .blocked ≤ s.count .notifying + s.count .pushing

/-- Before its wait begins. -/
def Pc.blocks : Pc α → Bool
  | .block _ => true
  | _ => false

/-- A thread begins its wait only if everybody who is blocked is served with it. -/
def BlocksServed (s : ThreadSafeQueue α) : Action α → Prop
  | .next i _ => s.threads[i]?.any Pc.blocks = true →
      s.content.length ≤ s.count .looking + s.count .notifying ∨
        s.count .blocked + 1 ≤ s.count .notifying + s.count .pushing
  | _ => True

instance (s : ThreadSafeQueue α) : (a : Action α) → Decidable (s.BlocksServed a)
  | .next i _ => inferInstanceAs (Decidable (s.threads[i]?.any Pc.blocks = true → _ ∨ _))
  | .push _ _ | .pop _ _ | .wake _ | .take _ | .notifyAll => isTrue trivial

/-- The equations of `count_move`, role by role. -/
theorem tally {r r' : Role}
    (hcount : ∀ role, t.count role + (if r = role then 1 else 0)
      = s.count role + if r' = role then 1 else 0) :
    (t.count .looking + (if r = .looking then 1 else 0)
        = s.count .looking + if r' = .looking then 1 else 0) ∧
    (t.count .leaving + (if r = .leaving then 1 else 0)
        = s.count .leaving + if r' = .leaving then 1 else 0) ∧
    (t.count .blocked + (if r = .blocked then 1 else 0)
        = s.count .blocked + if r' = .blocked then 1 else 0) ∧
    (t.count .pushing + (if r = .pushing then 1 else 0)
        = s.count .pushing + if r' = .pushing then 1 else 0) ∧
    (t.count .notifying + (if r = .notifying then 1 else 0)
        = s.count .notifying + if r' = .notifying then 1 else 0) :=
  ⟨hcount _, hcount _, hcount _, hcount _, hcount _⟩

theorem Enough.step (h : s.Enough) (heffect : Effect s t a) (hpop : ∀ i pop, a ≠ .pop i pop) :
    t.Enough := by
  simp only [Enough, seeking] at h ⊢
  cases heffect with
  | push hpc hthreads hcontent | take hpc hthreads hcontent =>
      have htally := tally (count_move hpc hthreads rfl rfl)
      simp [Pc.role] at htally
      rw [hcontent]
      omega
  | pop => exact absurd rfl (hpop _ _)
  | wake hpc hthreads hcontent | notifyNobody hpc _ hthreads hcontent =>
      have htally := tally (count_move hpc hthreads rfl rfl)
      simp [Pc.role] at htally
      rw [hcontent]
      omega
  | @notify i choice pop hpc hblocked hthreads hcontent =>
      let u := s.goTo choice (.lockHead pop)
      have hwoken := tally (t := u) (count_move hblocked rfl rfl rfl)
      have hi : u.threads[i]? = some .notifyOne := notifier_getElem? hpc hblocked _
      have htally := tally (s := u) (count_move hi hthreads rfl rfl)
      simp [Pc.role] at hwoken htally
      rw [hcontent]
      omega
  | notifyAll hthreads hcontent =>
      obtain ⟨hblocked, hlooking, hothers⟩ := count_notifyAll hthreads
      have hleaving := hothers .leaving (by simp) (by simp)
      have hpushing := hothers .pushing (by simp) (by simp)
      rw [hcontent]
      omega
  | @move i choice pc pc' hpc hthreads hshift =>
      generalize s.content = before at h hshift
      generalize t.content = after at hshift ⊢
      cases hshift with
      | quiet hrole =>
          simp only [count_same hpc hthreads hrole]
          exact h
      | empty hrole hrole' | publish hrole hrole' | pop hrole hrole' =>
          have htally := tally (count_move hpc hthreads hrole hrole')
          simp at htally h ⊢
          omega
      | fail _ _ hrole hrole' =>
          have htally := tally (count_move hpc hthreads hrole hrole')
          simp at htally
          omega
      | block hpc' hpc'' =>
          subst hpc' hpc''
          have htally := tally (count_move hpc hthreads rfl rfl)
          simp [Pc.role] at htally
          omega

theorem Served.step (h : s.Served) (heffect : Effect s t a) (hok : s.BlocksServed a) :
    t.Served := by
  simp only [Served] at h ⊢
  cases heffect with
  | push hpc hthreads hcontent | take hpc hthreads hcontent | pop hpc hthreads hcontent =>
      have htally := tally (count_move hpc hthreads rfl rfl)
      simp [Pc.role] at htally
      rw [hcontent]
      omega
  | wake hpc hthreads hcontent =>
      have htally := tally (count_move hpc hthreads rfl rfl)
      simp [Pc.role] at htally
      rw [hcontent]
      omega
  | notifyNobody hpc hnone hthreads hcontent =>
      have hblocked := count_blocked hnone
      have htally := tally (count_move hpc hthreads rfl rfl)
      simp [Pc.role] at htally
      omega
  | @notify i choice pop hpc hblocked hthreads hcontent =>
      let u := s.goTo choice (.lockHead pop)
      have hwoken := tally (t := u) (count_move hblocked rfl rfl rfl)
      have hi : u.threads[i]? = some .notifyOne := notifier_getElem? hpc hblocked _
      have htally := tally (s := u) (count_move hi hthreads rfl rfl)
      simp [Pc.role] at hwoken htally
      rw [hcontent]
      omega
  | notifyAll hthreads hcontent => exact Or.inl (count_notifyAll hthreads).1
  | @move i choice pc pc' hpc hthreads hshift =>
      simp only [BlocksServed] at hok
      generalize s.content = before at h hok hshift
      generalize t.content = after at hshift ⊢
      cases hshift with
      | quiet hrole =>
          simp only [count_same hpc hthreads hrole]
          exact h
      | empty => exact Or.inr (Or.inl (Nat.zero_le _))
      | publish hrole hrole' | pop hrole hrole' =>
          have htally := tally (count_move hpc hthreads hrole hrole')
          simp at htally h ⊢
          omega
      | fail _ _ hrole hrole' =>
          have htally := tally (count_move hpc hthreads hrole hrole')
          simp at htally
          omega
      | block hpc' hpc'' =>
          subst hpc' hpc''
          have hserved := hok (by simp [hpc, Pc.blocks])
          have htally := tally (count_move hpc hthreads rfl rfl)
          simp [Pc.role] at htally
          omega

/-! ## One consumer -/

/-- The thread is inside `push`. -/
def Pc.pushes : Pc α → Bool
  | .push _ | .setData _ | .setNext _ | .setTail _ _ | .notifyOne | .unlockTail => true
  | _ => false

/-- The thread is inside `push` and its `notify_one` is to come. -/
def Pc.pending (pc : Pc α) : Bool := pc.role = .pushing || pc.role = .notifying

/-- How many pushes have their `notify_one` still to come. -/
def pending (s : ThreadSafeQueue α) : Nat := s.threads.countP Pc.pending

/-- The thread is inside a function that pops, and has not popped. -/
def Pc.seeks (pc : Pc α) : Bool :=
  pc.role = .looking || pc.role = .leaving || pc.role = .blocked

/-- The consumer `c` calls `WaitPop`, the others push. -/
def OneConsumer (c : Nat) : Action α → Prop
  | .push i _ => i ≠ c
  | .pop i pop => i = c ∧ pop.waits = true
  | _ => True

instance (c : Nat) : (a : Action α) → Decidable (OneConsumer c a)
  | .push i _ => inferInstanceAs (Decidable (i ≠ c))
  | .pop i pop => inferInstanceAs (Decidable (i = c ∧ pop.waits = true))
  | .next _ _ | .wake _ | .take _ | .notifyAll => isTrue trivial

/-- A push makes its `notify_one` while the consumer is between the test that has found the queue
    empty and the wait only if another push has its own still to make. -/
def NotifiesInTime (c : Nat) (s : ThreadSafeQueue α) : Action α → Prop
  | .next i _ => s.threads[i]? = some .notifyOne →
      (s.threads[c]?.any fun pc => pc.role = .leaving) = true → 1 < s.pending
  | _ => True

instance [DecidableEq α] (c : Nat) (s : ThreadSafeQueue α) :
    (a : Action α) → Decidable (NotifiesInTime c s a)
  | .next i _ => inferInstanceAs (Decidable (s.threads[i]? = some .notifyOne →
      (s.threads[c]?.any fun pc => pc.role = .leaving) = true → 1 < s.pending))
  | .push _ _ | .pop _ _ | .wake _ | .take _ | .notifyAll => isTrue trivial

/-- What the consumer has not seen is announced. -/
structure Announced (c : Nat) (s : ThreadSafeQueue α) : Prop where
  inv : s.Inv
  consumer : ∀ (i : Nat) (pc : Pc α), s.threads[i]? = some pc → pc.seeks = true → i = c
  announced : ∀ pc, s.threads[c]? = some pc → pc.role = .leaving ∨ pc.role = .blocked →
    s.content = [] ∨ 0 < s.pending

theorem Shift.seeks {before after : List α} (h : Shift pc pc' before after)
    (hseeks : pc'.seeks = true) : pc.seeks = true := by
  cases h with
  | quiet hrole =>
      rw [Pc.seeks, ← hrole]
      exact hseeks
  | empty hrole => simp [Pc.seeks, hrole]
  | fail _ _ hrole => simp [Pc.seeks, hrole]
  | block hpc => simp [Pc.seeks, hpc, Pc.role]
  | publish _ hrole' => simp [Pc.seeks, hrole'] at hseeks
  | pop hrole => simp [Pc.seeks, hrole]

theorem Shift.pending {before after : List α} (h : Shift pc pc' before after) :
    pc'.pending = pc.pending := by
  cases h with
  | quiet hrole => simp only [Pc.pending, hrole]
  | empty hrole hrole' => simp [Pc.pending, hrole, hrole']
  | fail _ _ hrole hrole' => simp [Pc.pending, hrole, hrole']
  | block hpc hpc' => simp [Pc.pending, hpc, hpc', Pc.role]
  | publish hrole hrole' => simp [Pc.pending, hrole, hrole']
  | pop hrole hrole' => simp [Pc.pending, hrole, hrole']

/-- A thread that has come to leave the queue or to be blocked has found it empty, or it was there
    before. -/
theorem Shift.unseen {before after : List α} (h : Shift pc pc' before after)
    (hrole : pc'.role = .leaving ∨ pc'.role = .blocked) :
    after = [] ∨ after = before ∧ (pc.role = .leaving ∨ pc.role = .blocked) := by
  cases h with
  | quiet hsame => exact Or.inr ⟨rfl, hsame ▸ hrole⟩
  | empty => exact Or.inl rfl
  | block hpc => exact Or.inr ⟨rfl, Or.inl (congrArg Pc.role hpc)⟩
  | fail _ _ _ hrole' | publish _ hrole' | pop _ hrole' => simp [hrole'] at hrole

/-- An empty queue stays empty, unless the thread has still to notify. -/
theorem Shift.eq_nil {before after : List α} (h : Shift pc pc' before after)
    (hbefore : before = []) : after = [] ∨ pc'.pending = true := by
  cases h with
  | publish _ hrole' => exact Or.inr (by simp [Pc.pending, hrole'])
  | pop => exact absurd hbefore (by simp)
  | quiet | empty | fail | block => exact Or.inl hbefore

namespace Announced

variable {c : Nat}

theorem new (n : Nat) : Announced c (new α n) := by
  have hpcs : ∀ pc ∈ (ThreadSafeQueue.new α n).threads, pc = .returned none :=
    fun pc hpc => List.eq_of_mem_replicate hpc
  refine ⟨inv_new n, fun i pc hpc hseeks => ?_, fun pc hpc hrole => ?_⟩
  · rw [hpcs pc (Threads.mem hpc)] at hseeks
    exact absurd hseeks (by simp [Pc.seeks, Pc.role])
  · rw [hpcs pc (Threads.mem hpc)] at hrole
    exact absurd hrole (by simp [Pc.role])

/-- The thread that moves seeks a value afterwards only if it is the consumer. -/
theorem seeks_set {pcs : List (Pc α)} (h : ∀ j x, pcs[j]? = some x → x.seeks = true → j = c)
    (hpc : pcs[i]? = some pc) (hnew : pc'.seeks = true → i = c)
    (hthreads : t.threads = pcs.set i pc') (j : Nat) (x : Pc α) (hx : t.threads[j]? = some x)
    (hseeks : x.seeks = true) : j = c := by
  rw [hthreads] at hx
  rcases Threads.getElem?_set hpc hx with ⟨rfl, rfl⟩ | ⟨-, hold⟩
  · exact hnew hseeks
  · exact h j x hold hseeks

theorem consumer_step (h : Announced c s) (hone : OneConsumer c a) (heffect : Effect s t a) :
    ∀ (j : Nat) (x : Pc α), t.threads[j]? = some x → x.seeks = true → j = c := by
  cases heffect with
  | push hpc hthreads | notifyNobody hpc _ hthreads | take hpc hthreads =>
      exact seeks_set h.consumer hpc (by simp [Pc.seeks, Pc.role]) hthreads
  | pop hpc hthreads => exact seeks_set h.consumer hpc (fun _ => hone.1) hthreads
  | wake hpc hthreads => exact seeks_set h.consumer hpc (fun _ => h.consumer _ _ hpc rfl) hthreads
  | move hpc hthreads hshift =>
      have hold := h.consumer _ _ hpc
      exact seeks_set h.consumer hpc (fun hnew => hold (hshift.seeks hnew)) hthreads
  | @notify i choice pop hpc hblocked hthreads =>
      have hwoken := seeks_set (t := s.goTo choice (.lockHead pop)) h.consumer hblocked
        (fun _ => h.consumer _ _ hblocked rfl) rfl
      have hpc' := notifier_getElem? hpc hblocked (.lockHead pop)
      exact seeks_set hwoken hpc' (by simp [Pc.seeks, Pc.role]) hthreads
  | notifyAll hthreads =>
      intro j x hx hseeks
      rw [hthreads, List.getElem?_map, Option.map_eq_some_iff] at hx
      obtain ⟨y, hy, rfl⟩ := hx
      refine h.consumer j y hy ?_
      cases y with
      | blocked pop => rfl
      | _ => exact hseeks

theorem pending_set {t : ThreadSafeQueue α} (hpc : s.threads[i]? = some pc)
    (hthreads : t.threads = s.threads.set i pc') :
    t.pending + pc.pending.toNat = s.pending + pc'.pending.toNat := by
  rw [ThreadSafeQueue.pending, hthreads]
  exact Threads.countP_set Pc.pending hpc pc'

theorem pending_pos {t : ThreadSafeQueue α} (hx : pc ∈ t.threads) (hpending : pc.pending = true) :
    0 < t.pending := List.countP_pos_iff.2 ⟨pc, hx, hpending⟩

theorem announced_move (h : Announced c s) (hpc : s.threads[i]? = some pc)
    (hthreads : t.threads = s.threads.set i pc') (hshift : Shift pc pc' s.content t.content)
    (x : Pc α) (hx : t.threads[c]? = some x) (hrole : x.role = .leaving ∨ x.role = .blocked) :
    t.content = [] ∨ 0 < t.pending := by
  have hpending : t.pending = s.pending := by
    have hcount := pending_set hpc hthreads
    rw [hshift.pending] at hcount
    exact Nat.add_right_cancel hcount
  have hnew : pc' ∈ t.threads := hthreads ▸ Threads.mem_set_self hpc
  have hstays (hold : s.content = [] ∨ 0 < s.pending) : t.content = [] ∨ 0 < t.pending := by
    rcases hold with hnil | hpos
    · exact (hshift.eq_nil hnil).imp_right (pending_pos hnew)
    · exact Or.inr (hpending ▸ hpos)
  rw [hthreads] at hx
  rcases Threads.getElem?_set hpc hx with ⟨rfl, rfl⟩ | ⟨-, hx⟩
  · rcases hshift.unseen hrole with hnil | ⟨-, hbefore⟩
    · exact Or.inl hnil
    · exact hstays (h.announced pc hpc hbefore)
  · exact hstays (h.announced x hx hrole)

/-- Only the consumer is blocked. It looks again when it is notified; when it was about to block,
    another push has its `notify_one` still to make. -/
theorem pending_pos_of_notified (hok : NotifiesInTime c s (.next i choice))
    (hpc : s.threads[i]? = some .notifyOne) {threads : List (Pc α)}
    (hpending : threads.countP Pc.pending = s.pending) (hi : threads[i]? = some .notifyOne)
    (hleaving : ∀ x, threads[c]? = some x → x.role = .leaving ∨ x.role = .blocked →
      s.threads[c]? = some x ∧ x.role = .leaving)
    (hthreads : t.threads = threads.set i .unlockTail) (x : Pc α) (hx : t.threads[c]? = some x)
    (hrole : x.role = .leaving ∨ x.role = .blocked) : 0 < t.pending := by
  rw [hthreads] at hx
  rcases Threads.getElem?_set hi hx with ⟨rfl, rfl⟩ | ⟨-, hx⟩
  · exact absurd hrole (by simp [Pc.role])
  · obtain ⟨hold, hrole⟩ := hleaving x hx hrole
    have hmany : 1 < s.pending := hok hpc (by simp [hold, hrole])
    have hcount := Threads.countP_set Pc.pending hi .unlockTail
    have hnotifies : Pc.pending (.notifyOne : Pc α) = true := rfl
    have hdone : Pc.pending (.unlockTail : Pc α) = false := rfl
    rw [← hthreads, hpending, hnotifies, hdone] at hcount
    change t.pending + 1 = s.pending at hcount
    omega

theorem announced_step (h : Announced c s) (hone : OneConsumer c a) (hok : NotifiesInTime c s a)
    (heffect : Effect s t a) (x : Pc α) (hx : t.threads[c]? = some x)
    (hrole : x.role = .leaving ∨ x.role = .blocked) : t.content = [] ∨ 0 < t.pending := by
  cases heffect with
  | @push i value hpc hthreads hcontent =>
      rw [hthreads] at hx
      rcases Threads.getElem?_set hpc hx with ⟨rfl, -⟩ | ⟨-, hold⟩
      · exact absurd rfl hone
      · exact Or.inr (pending_pos (hthreads ▸ Threads.mem_set_self hpc) rfl)
  | pop hpc hthreads hcontent =>
      rw [hthreads] at hx
      rcases Threads.getElem?_set hpc hx with ⟨rfl, rfl⟩ | ⟨hne, -⟩
      · exact absurd hrole (by simp [Pc.role])
      · exact absurd hone.1.symm hne
  | move hpc hthreads hshift => exact h.announced_move hpc hthreads hshift x hx hrole
  | @notify i choice pop hpc hblocked hthreads hcontent =>
      obtain rfl := h.consumer _ _ hblocked rfl
      refine Or.inr (pending_pos_of_notified hok hpc ?_ (notifier_getElem? hpc hblocked _) ?_
        hthreads x hx hrole)
      · exact Nat.add_right_cancel (Threads.countP_set Pc.pending hblocked (.lockHead pop))
      · intro y hy hy'
        rw [Threads.getElem?_set_self hblocked, Option.some.injEq] at hy
        subst hy
        exact absurd hy' (by simp [Pc.role])
  | notifyNobody hpc hnone hthreads hcontent =>
      refine Or.inr (pending_pos_of_notified hok hpc rfl hpc ?_ hthreads x hx hrole)
      intro y hy hy'
      refine ⟨hy, hy'.resolve_right fun hblocked => ?_⟩
      have hwaiting := hnone y (Threads.mem hy)
      exact absurd (Pc.role_eq_blocked_iff.1 hblocked) (by simp [hwaiting])
  | wake hpc hthreads hcontent =>
      obtain rfl := h.consumer _ _ hpc rfl
      rw [hthreads, Threads.getElem?_set_self hpc, Option.some.injEq] at hx
      subst hx
      exact absurd hrole (by simp [Pc.role])
  | take hpc hthreads hcontent =>
      rw [hthreads] at hx
      rcases Threads.getElem?_set hpc hx with ⟨rfl, rfl⟩ | ⟨-, hold⟩
      · exact absurd hrole (by simp [Pc.role])
      · have hcount := pending_set hpc hthreads
        rw [hcontent]
        refine (h.announced x hold hrole).imp_right fun hpos => ?_
        exact lt_of_lt_of_eq hpos (Nat.add_right_cancel hcount).symm
  | notifyAll hthreads hcontent =>
      rw [hthreads, List.getElem?_map, Option.map_eq_some_iff] at hx
      obtain ⟨y, hy, rfl⟩ := hx
      have hpending : t.pending = s.pending := by
        rw [ThreadSafeQueue.pending, hthreads, List.countP_map]
        refine List.countP_congr fun z _ => ?_
        cases z <;> rfl
      rw [hpending, hcontent]
      refine h.announced y hy ?_
      cases y with
      | blocked pop => exact Or.inr rfl
      | _ => exact hrole

theorem step (h : Announced c s) (hone : OneConsumer c a) (hok : NotifiesInTime c s a)
    (hstep : s.step a = some t) : Announced c t :=
  have heffect := h.inv.effect hstep
  ⟨h.inv.step (step_cases hstep), h.consumer_step hone heffect, h.announced_step hone hok heffect⟩

end Announced

/-- One consumer, and every `notify_one` comes in time. -/
def InTime (c : Nat) (s : ThreadSafeQueue α) (a : Action α) : Prop :=
  OneConsumer c a ∧ NotifiesInTime c s a

instance [DecidableEq α] (c : Nat) (s : ThreadSafeQueue α) (a : Action α) :
    Decidable (InTime c s a) := inferInstanceAs (Decidable (_ ∧ _))

/-- Every push has finished, the queue holds something, and the consumer is blocked. -/
def LostWakeup (c : Nat) (s : ThreadSafeQueue α) : Prop :=
  (∀ pc ∈ s.threads, pc.pushes = false) ∧ s.stored ≠ [] ∧ s.threads[c]?.any Pc.waiting = true

instance (c : Nat) : DecidablePred (LostWakeup (α := Nat) c) := fun _ =>
  inferInstanceAs (Decidable (_ ∧ _ ∧ _))

theorem exists_blocked {o : Option (Pc α)} (h : o.any Pc.waiting = true) :
    ∃ pop, o = some (.blocked pop) := by
  obtain ⟨pc, rfl, hwaiting⟩ := (Option.any_eq_true _ _).1 h
  cases pc with
  | blocked pop => exact ⟨pop, rfl⟩
  | _ => exact absurd hwaiting (by simp [Pc.waiting])

theorem pending_eq_zero (h : ∀ pc ∈ s.threads, pc.pushes = false) : s.pending = 0 := by
  refine List.countP_eq_zero.2 fun pc hpc => ?_
  have hpushes := h pc hpc
  cases pc with
  | push value | setData value | setNext value | setTail value newTail | notifyOne | unlockTail =>
      exact absurd hpushes (by simp [Pc.pushes])
  | compare pop tail seen => simp only [Pc.pending, Pc.role]; split <;> simp
  | popHead value => cases value <;> simp [Pc.pending, Pc.role]
  | _ => simp [Pc.pending, Pc.role]

/-- No wakeup is lost while every `notify_one` comes in time. -/
theorem no_lost_wakeup {n c : Nat} {as : List (Action α)}
    (run : (machine α n).Reaches (InTime c) as s) : ¬ LostWakeup c s := by
  rintro ⟨hpushes, hstored, hwaiting⟩
  obtain ⟨pop, hblocked⟩ := exists_blocked hwaiting
  have hinv : Announced c s := run.invariant (fun _ hs => hs ▸ Announced.new n)
    fun _ _ _ h hok hstep => h.step hok.1 hok.2 hstep
  rcases hinv.announced _ hblocked (Or.inr rfl) with hnil | hpos
  · exact hstored (hinv.inv.stored_eq.trans hnil)
  · exact absurd (pending_eq_zero hpushes) (Nat.ne_of_gt hpos)

/-- The consumer 0 is blocked before the push of thread 1 comes to its `notify_one`. -/
def pushBehindWait : List (Action Nat) :=
  [.pop 0 .waitPop, .next 0 0, .next 0 0, .push 1 7, .next 1 0, .next 0 0, .next 0 0, .next 1 0,
    .next 1 1, .next 1 0, .next 1 0, .next 1 0]

theorem no_lost_wakeup_pushBehindWait :
    ∃ s, (machine Nat 2).Reaches (InTime 0) pushBehindWait s ∧ s.stored = [7] ∧
      ¬ LostWakeup 0 s := by
  obtain ⟨s, run, hstored⟩ := Machine.exists_reaches_of_exec (machine Nat 2) (InTime 0)
    (new Nat 2) pushBehindWait (fun s => s.stored = [7]) rfl (by decide)
  exact ⟨s, run, hstored, no_lost_wakeup run⟩

/-- A whole push runs between the test of the consumer 0 and its wait. -/
def pushBeforeWait : List (Action Nat) :=
  [.pop 0 .waitPop, .next 0 0, .next 0 0, .next 0 0, .push 1 7, .next 1 0, .next 1 0, .next 1 1,
    .next 1 0, .next 1 0, .next 1 0, .next 0 0]

theorem pushBeforeWait_lostWakeup :
    ∃ s, (machine Nat 2).Reaches (fun _ a => OneConsumer 0 a) pushBeforeWait s ∧
      LostWakeup 0 s := by
  refine Machine.exists_reaches_of_exec (machine Nat 2) (fun _ a => OneConsumer 0 a)
    (new Nat 2) pushBeforeWait (LostWakeup 0) rfl (by decide)

end ThreadSafeQueue
