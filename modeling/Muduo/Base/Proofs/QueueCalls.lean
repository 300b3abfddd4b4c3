import Muduo.Base.Proofs.QueueWaiters

set_option autoImplicit false

/-! # Inside a call on a ThreadSafeQueue

A thread that goes on stays inside of the function that it has called until the function returns: a
pop that waits returns a value, and a push nothing. The steps of the others leave it where it is,
or wake it up. -/

namespace ThreadSafeQueue

variable {α : Type} {s t : ThreadSafeQueue α} {i j choice : Nat} {pc pc' : Pc α} {a : Action α}

/-- The thread is inside `WaitPop`, or has what it has returned. -/
def Pc.fetches : Pc α → Bool
  | .lockHead pop | .readTail pop | .compare pop _ _ | .block pop | .blocked pop | .moveData pop =>
      pop.waits
  | .popHead _ => true
  | .unlockHead value oldHead | .destroy value oldHead => (result value oldHead).isSome
  | .returned value => value.isSome
  | _ => false

/-- The thread does nothing, or goes on in its call. -/
structure Pc.GoesOn (pc pc' : Pc α) : Prop where
  outside : pc = .returned none → pc' = .returned none
  fetches : pc.fetches = true → pc'.fetches = true
  pushes : pc.pushes = true → pc'.pushes = true ∨ pc' = .returned none

theorem Pc.GoesOn.refl (pc : Pc α) : pc.GoesOn pc := ⟨id, id, Or.inl⟩

theorem Pc.GoesOn.trans {pc'' : Pc α} (h : pc.GoesOn pc') (h' : pc'.GoesOn pc'') :
    pc.GoesOn pc'' where
  outside := h'.outside ∘ h.outside
  fetches := h'.fetches ∘ h.fetches
  pushes hpushes := (h.pushes hpushes).elim h'.pushes fun hreturned => Or.inr (h'.outside hreturned)

theorem Pc.goesOn_woken (pc : Pc α) : pc.GoesOn pc.woken := by
  cases pc with
  | blocked pop => exact ⟨by simp, id, by simp [Pc.pushes]⟩
  | _ => exact .refl _

/-- `PopHead` leaves a pop with a value: that of the node, or the one moved out of it before. -/
theorem Inv.fetches_popHead (h : s.Inv) {value : Option α} {data : Option (Option α)}
    {next : NodePtr} (hpc : s.threads[i]? = some (.popHead value))
    (hhead : s.heap s.head = some ⟨data, some next⟩) :
    (result value (some ⟨data, some next⟩)).isSome = true := by
  have hshift := h.shift_popHead hpc hhead
  cases value with
  | some value => rfl
  | none =>
      generalize s.content = before at hshift
      generalize s.pushed.drop (s.popped ++ data.join.toList).length = after at hshift
      cases hshift with
      | quiet hrole => exact absurd hrole (by simp [Pc.role])
      | pop _ _ _ hholds => exact Option.isSome_iff_exists.2 ⟨_, hholds⟩
      | empty _ hrole | publish _ hrole => exact absurd hrole (by simp [Pc.role])
      | fail hpc' | block hpc' => exact absurd hpc' (by simp)

/-- How the thread that goes on does. -/
theorem Inv.goesOn (h : s.Inv) (hpc : s.threads[i]? = some pc) (hgo : GoOn s i choice pc t)
    {x : Pc α} (hx : s.threads[j]? = some x) :
    ∃ x', t.threads[j]? = some x' ∧ x.GoesOn x' := by
  have hmove {pc' : Pc α} (hthreads : t.threads = s.threads.set i pc') (hgoes : pc.GoesOn pc') :
      ∃ x', t.threads[j]? = some x' ∧ x.GoesOn x' :=
    hthreads ▸ Threads.exists_getElem?_set Pc.GoesOn.refl hpc hgoes hx
  cases hgo with
  | @notifyOne pop hblocked =>
      have hi : (s.threads.set choice (.lockHead pop))[i]? = some .notifyOne :=
        notifier_getElem? hpc hblocked _
      have hunlock : (Pc.notifyOne : Pc α).GoesOn .unlockTail :=
        ⟨by simp, by simp [Pc.fetches], fun _ => Or.inl rfl⟩
      obtain ⟨y, hy, hwoken⟩ := Threads.exists_getElem?_set Pc.GoesOn.refl hblocked
        (Pc.goesOn_woken (.blocked pop)) hx
      obtain ⟨x', hx', hgoes⟩ := Threads.exists_getElem?_set Pc.GoesOn.refl hi hunlock hy
      exact ⟨x', hx', hwoken.trans hgoes⟩
  | lockTail | setData | setNext | setTail | notifyNobody =>
      exact hmove rfl ⟨by simp, by simp [Pc.fetches], fun _ => Or.inl rfl⟩
  | unlockTail => exact hmove rfl ⟨by simp, by simp [Pc.fetches], fun _ => Or.inr rfl⟩
  | lockHead | readTail | wait | block => exact hmove rfl ⟨by simp, id, by simp [Pc.pushes]⟩
  | @found pop tail seen =>
      refine hmove rfl ⟨by simp, fun hwaits => ?_, by simp [Pc.pushes]⟩
      split
      · exact hwaits
      · rfl
  | @fail pop tail seen _ hwaits =>
      exact hmove rfl ⟨by simp, by simp [Pc.fetches, hwaits], by simp [Pc.pushes]⟩
  | moveData => exact hmove rfl ⟨by simp, fun _ => rfl, by simp [Pc.pushes]⟩
  | popHead hhead =>
      exact hmove rfl ⟨by simp, fun _ => h.fetches_popHead hpc hhead, by simp [Pc.pushes]⟩
  | unlockHead | destroy => exact hmove rfl ⟨by simp, id, by simp [Pc.pushes]⟩

/-- Where a thread is when something happens inside of the queue. -/
theorem Inv.goesOn_step (h : s.Inv) (hstep : s.step a = some t)
    (hinside : (∃ i choice, a = .next i choice) ∨ (∃ i, a = .wake i) ∨ a = .notifyAll) {x : Pc α}
    (hx : s.threads[j]? = some x) : ∃ x', t.threads[j]? = some x' ∧ x.GoesOn x' := by
  obtain ⟨i, choice, rfl⟩ | ⟨i, rfl⟩ | rfl := hinside
  · cases step_cases hstep with
    | next hpc hgo => exact h.goesOn hpc hgo hx
  · cases step_cases hstep with
    | @wake _ pop hpc =>
        exact Threads.exists_getElem?_set Pc.GoesOn.refl hpc (Pc.goesOn_woken (.blocked pop)) hx
  · cases step_cases hstep with
    | notifyAll =>
        refine ⟨x.woken, ?_, x.goesOn_woken⟩
        simp [ThreadSafeQueue.notifyAll, hx]

end ThreadSafeQueue
