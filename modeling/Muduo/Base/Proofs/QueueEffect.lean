import Muduo.Base.Proofs.ThreadSafeQueue
import Mathlib.Algebra.Order.Group.Multiset
import Mathlib.Tactic.Abel

set_option autoImplicit false

/-! # What a step of a ThreadSafeQueue does

What the users of the queue need to know of it: what every thread still does for the others (its
`Role`), the value that it has, and how a step changes both together with the content (`Effect`).
The lemmas below count the threads of a role and the values. -/

namespace ThreadSafeQueue

variable {α : Type} {s t : ThreadSafeQueue α} {i choice : Nat} {pc pc' : Pc α} {a : Action α}

/-! ## Roles -/

/-- What a thread still does for the others. -/
inductive Role
  | outside
  /-- It will put a value into the queue. -/
  | pushing
  /-- Its value is in the queue, its `notify_one` is to come. -/
  | notifying
  /-- It will look into the queue, or has found a value there to pop. -/
  | looking
  /-- It has found the queue empty. -/
  | leaving
  /-- Blocked in `cond_.wait`. -/
  | blocked
deriving DecidableEq

def Pc.role : Pc α → Role
  | .push _ | .setData _ | .setNext _ | .setTail _ _ => .pushing
  | .notifyOne => .notifying
  | .lockHead _ | .readTail _ | .moveData _ | .popHead none => .looking
  | .compare _ _ seen => if seen.isEmpty then .leaving else .looking
  | .block _ => .leaving
  | .blocked _ => .blocked
  | .returned _ | .unlockTail | .popHead (some _) | .unlockHead _ _ | .destroy _ _ => .outside

theorem Pc.role_eq_blocked_iff : pc.role = .blocked ↔ pc.waiting = true := by
  cases pc with
  | compare pop tail seen => cases seen <;> simp [Pc.role, Pc.waiting]
  | popHead value => cases value <;> simp [Pc.role, Pc.waiting]
  | _ => simp [Pc.role, Pc.waiting]

/-- The value that a thread has taken over from its caller or from the queue. -/
def Pc.holds : Pc α → Option α
  | .push value | .setData value | .setNext value | .setTail value _ => some value
  | .popHead value => value
  | .unlockHead value oldHead | .destroy value oldHead => result value oldHead
  | .returned value => value
  | _ => none

/-- How many threads have the role. -/
def count (s : ThreadSafeQueue α) (role : Role) : Nat := s.threads.countP (·.role = role)

/-- The ways in which a thread and the content change together. -/
inductive Shift (pc pc' : Pc α) : (before after : List α) → Prop
  | quiet {content : List α} (hrole : pc'.role = pc.role) (hholds : pc'.holds = pc.holds) :
      Shift pc pc' content content
  | empty (hrole : pc.role = .looking) (hrole' : pc'.role = .leaving) (hholds : pc.holds = none)
      (hholds' : pc'.holds = none) : Shift pc pc' [] []
  | fail {pop : Pop} {content seen : List α} {tail : NodePtr} (hpc : pc = .compare pop tail seen)
      (hwaits : pop.waits = false) (hrole : pc.role = .leaving) (hrole' : pc'.role = .outside)
      (hholds' : pc'.holds = none) : Shift pc pc' content content
  | block {content : List α} {pop : Pop} (hpc : pc = .block pop) (hpc' : pc' = .blocked pop) :
      Shift pc pc' content content
  | publish {content : List α} {value : α} (hrole : pc.role = .pushing)
      (hrole' : pc'.role = .notifying) (hholds : pc.holds = some value)
      (hholds' : pc'.holds = none) : Shift pc pc' content (content ++ [value])
  | pop {content : List α} {value : α} (hrole : pc.role = .looking) (hrole' : pc'.role = .outside)
      (hholds : pc.holds = none) (hholds' : pc'.holds = some value) :
      Shift pc pc' (value :: content) content

/-- What a step does to the threads and the content. -/
inductive Effect (s t : ThreadSafeQueue α) : Action α → Prop
  | push {i : Nat} {value : α} (hpc : s.threads[i]? = some (.returned none))
      (hthreads : t.threads = s.threads.set i (.push value)) (hcontent : t.content = s.content) :
      Effect s t (.push i value)
  | pop {i : Nat} {pop : Pop} (hpc : s.threads[i]? = some (.returned none))
      (hthreads : t.threads = s.threads.set i (.lockHead pop)) (hcontent : t.content = s.content) :
      Effect s t (.pop i pop)
  | move {i choice : Nat} {pc pc' : Pc α} (hpc : s.threads[i]? = some pc)
      (hthreads : t.threads = s.threads.set i pc') (hshift : Shift pc pc' s.content t.content) :
      Effect s t (.next i choice)
  | notify {i choice : Nat} {pop : Pop} (hpc : s.threads[i]? = some .notifyOne)
      (hblocked : s.threads[choice]? = some (.blocked pop))
      (hthreads : t.threads = (s.threads.set choice (.lockHead pop)).set i .unlockTail)
      (hcontent : t.content = s.content) : Effect s t (.next i choice)
  | notifyNobody {i choice : Nat} (hpc : s.threads[i]? = some .notifyOne)
      (hnone : ∀ pc ∈ s.threads, pc.waiting = false)
      (hthreads : t.threads = s.threads.set i .unlockTail) (hcontent : t.content = s.content) :
      Effect s t (.next i choice)
  | wake {i : Nat} {pop : Pop} (hpc : s.threads[i]? = some (.blocked pop))
      (hthreads : t.threads = s.threads.set i (.lockHead pop)) (hcontent : t.content = s.content) :
      Effect s t (.wake i)
  | take {i : Nat} {value : α} (hpc : s.threads[i]? = some (.returned (some value)))
      (hthreads : t.threads = s.threads.set i (.returned none)) (hcontent : t.content = s.content) :
      Effect s t (.take i)
  | notifyAll (hthreads : t.threads = s.threads.map Pc.woken) (hcontent : t.content = s.content) :
      Effect s t .notifyAll

/-- `PopHead` takes the first value, unless it has been moved out before. -/
theorem Inv.shift_popHead (h : s.Inv) {value : Option α} {data : Option (Option α)}
    {next : NodePtr} (hpc : s.threads[i]? = some (.popHead value))
    (hhead : s.heap s.head = some ⟨data, some next⟩) :
    Shift (.popHead value) (.unlockHead value (some ⟨data, some next⟩)) s.content
      (s.pushed.drop (s.popped ++ data.join.toList).length) := by
  cases value with
  | none =>
      obtain ⟨rest, hshape⟩ := h.shape_whole (Threads.mem hpc) rfl rfl
      obtain ⟨_, value, content, link, -, hcontent, hnode, -⟩ :=
        hshape.exists_head (h.head _ (Threads.mem hpc))
      obtain ⟨rfl, -⟩ : some (some value) = data ∧ link = next := by
        rw [hnode] at hhead
        simpa using hhead
      have hdrop : s.pushed.drop (s.popped ++ (some (some value)).join.toList).length = content :=
        content_drop hcontent
      rw [hdrop, hcontent]
      exact .pop rfl rfl rfl rfl
  | some value =>
      obtain ⟨front, rest, hshape, -, hfront⟩ := h.shape
      have hne : front ≠ [] := hfront.2 ⟨_, Threads.mem hpc, rfl⟩
      obtain ⟨a, front, rfl⟩ := List.exists_cons_of_ne_nil hne
      have hmoved := hshape.moved a List.mem_cons_self
      rw [hshape.leads.head_eq, ThreadSafeQueue.data, hhead] at hmoved
      obtain rfl : data = some none := hmoved
      have hpopped : s.popped ++ (some (none : Option α)).join.toList = s.popped :=
        List.append_nil _
      rw [hpopped]
      exact .quiet rfl rfl

theorem Inv.effect_goOn (h : s.Inv) (hpc : s.threads[i]? = some pc)
    (hgo : GoOn s i choice pc t) : Effect s t (.next i choice) := by
  have hmem := Threads.mem hpc
  cases hgo with
  | lockTail hfree => exact .move hpc rfl (.quiet rfl rfl)
  | setData => exact .move hpc rfl (.quiet rfl rfl)
  | setNext hfree => exact .move hpc rfl (.quiet rfl rfl)
  | @setTail value newTail =>
      refine .move hpc rfl ?_
      change Shift _ _ _ (s.setTail value newTail).content
      rw [show (s.setTail value newTail).content = s.content ++ [value] from content_concat h.law]
      exact .publish rfl rfl rfl rfl
  | notifyOne hblocked => exact .notify hpc hblocked rfl rfl
  | notifyNobody hnone => exact .notifyNobody hpc hnone rfl rfl
  | unlockTail => exact .move hpc rfl (.quiet rfl rfl)
  | lockHead hfree => exact .move hpc rfl (.quiet rfl rfl)
  | @readTail pop hfree =>
      refine .move hpc rfl ?_
      change Shift _ _ s.content s.content
      cases hcontent : s.content with
      | nil => exact .empty rfl rfl rfl rfl
      | cons value content => exact .quiet rfl rfl
  | @found pop tail seen hne =>
      refine .move hpc rfl (.quiet ?_ ?_)
      · have hseen : seen ≠ [] := fun hnil => hne ((h.head _ hmem).1.2 hnil)
        have hrole : (Pc.compare pop tail seen).role = .looking := by
          simp [Pc.role, hseen]
        rw [hrole]
        split <;> rfl
      · split <;> rfl
  | @wait pop tail seen heq hwaits =>
      have hseen := (h.head _ hmem).1.1 heq
      exact .move hpc rfl (.quiet (by simp [Pc.role, hseen]) rfl)
  | @fail pop tail seen heq hwaits =>
      have hseen := (h.head _ hmem).1.1 heq
      exact .move hpc rfl (.fail rfl hwaits (by simp [Pc.role, hseen]) rfl rfl)
  | block => exact .move hpc rfl (.block rfl rfl)
  | @moveData pop value link hhead =>
      refine .move hpc rfl ?_
      obtain ⟨rest, hshape⟩ := h.shape_whole hmem rfl rfl
      obtain ⟨_, first, content, next, -, hcontent, hnode, -⟩ :=
        hshape.exists_head (h.head _ hmem)
      obtain ⟨rfl, -⟩ : first = value ∧ some next = link := by
        rw [hnode] at hhead
        simpa using hhead
      change Shift _ _ s.content (s.pushed.drop (s.popped ++ [first]).length)
      rw [content_drop hcontent, hcontent]
      exact .pop rfl rfl rfl rfl
  | popHead hhead => exact .move hpc rfl (h.shift_popHead hpc hhead)
  | unlockHead => exact .move hpc rfl (.quiet rfl rfl)
  | destroy => exact .move hpc rfl (.quiet rfl rfl)

theorem Inv.effect (h : s.Inv) (hstep : s.step a = some t) : Effect s t a := by
  cases step_cases hstep with
  | push hpc => exact .push hpc rfl rfl
  | pop hpc => exact .pop hpc rfl rfl
  | next hpc hgo => exact h.effect_goOn hpc hgo
  | wake hpc => exact .wake hpc rfl rfl
  | take hpc => exact .take hpc rfl rfl
  | notifyAll => exact .notifyAll rfl rfl

/-- The thread that notifies is not the one that is woken up. -/
theorem notifier_getElem? {threads : List (Pc α)} {pop : Pop}
    (hpc : threads[i]? = some .notifyOne) (hblocked : threads[choice]? = some (.blocked pop))
    (pc : Pc α) : (threads.set choice pc)[i]? = some .notifyOne := by
  refine Threads.getElem?_set_of_ne hpc ?_
  rintro rfl
  exact absurd (hblocked.symm.trans hpc) (by simp)

/-! ## How many threads have a role -/

theorem count_move {r r' : Role} (hpc : s.threads[i]? = some pc)
    (hthreads : t.threads = s.threads.set i pc') (hr : pc.role = r) (hr' : pc'.role = r')
    (role : Role) :
    t.count role + (if r = role then 1 else 0) = s.count role + if r' = role then 1 else 0 := by
  have hone (role' : Role) : (decide (role' = role)).toNat = if role' = role then 1 else 0 := by
    split
    · next h => simp [h]
    · next h => simp [h]
  have hcount := Threads.countP_set (fun pc => decide (pc.role = role)) hpc pc'
  rw [← hthreads, hr, hr', hone, hone] at hcount
  exact hcount

theorem count_same (hpc : s.threads[i]? = some pc) (hthreads : t.threads = s.threads.set i pc')
    (hrole : pc'.role = pc.role) (role : Role) : t.count role = s.count role :=
  Nat.add_right_cancel (count_move hpc hthreads rfl hrole role)

/-- `notify_all` lets everybody who is blocked look again. -/
theorem role_woken (pc : Pc α) :
    pc.woken.role = if pc.role = .blocked then .looking else pc.role := by
  cases pc with
  | compare pop tail seen => cases seen <;> rfl
  | popHead value => cases value <;> rfl
  | _ => rfl

theorem count_blocked (hnone : ∀ pc ∈ s.threads, pc.waiting = false) : s.count .blocked = 0 := by
  refine List.countP_eq_zero.2 fun pc hpc => ?_
  rw [decide_eq_true_iff, Pc.role_eq_blocked_iff, hnone pc hpc]
  exact Bool.false_ne_true

theorem count_notifyAll (hthreads : t.threads = s.threads.map Pc.woken) :
    t.count .blocked = 0 ∧ t.count .looking = s.count .looking + s.count .blocked ∧
      ∀ role, role ≠ .blocked → role ≠ .looking → t.count role = s.count role := by
  have hcount (role : Role) : t.count role
      = s.threads.countP fun pc => (if pc.role = .blocked then .looking else pc.role) = role := by
    rw [count, hthreads, List.countP_map]
    refine List.countP_congr fun pc _ => ?_
    simp only [Function.comp_apply, role_woken]
  refine ⟨?_, ?_, fun role hblocked hlooking => ?_⟩
  · rw [hcount, List.countP_eq_zero]
    intro pc _
    split <;> simp_all
  · rw [hcount, count, count]
    clear hcount hthreads
    induction s.threads with
    | nil => rfl
    | cons pc threads ih =>
        simp only [List.countP_cons, ih]
        by_cases hblocked : pc.role = .blocked
        · simp [hblocked]
          omega
        · simp [hblocked]
          omega
  · rw [hcount, count]
    refine List.countP_congr fun pc _ => ?_
    split
    · next heq => simp [heq, hblocked.symm, hlooking.symm]
    · rfl

/-! ## Values -/

/-- The values that the threads have. -/
def held (s : ThreadSafeQueue α) : List α := s.threads.filterMap Pc.holds

/-- The values in the queue and those that the threads have. -/
def values (s : ThreadSafeQueue α) : List α := s.content ++ s.held

theorem Shift.values {before after : List α} (h : Shift pc pc' before after) :
    (after ++ pc'.holds.toList).Perm (before ++ pc.holds.toList) := by
  cases h with
  | quiet _ hholds => rw [hholds]
  | empty _ _ hholds hholds' => rw [hholds, hholds']
  | fail hpc _ _ _ hholds' => rw [hholds', hpc]; rfl
  | block hpc hpc' => rw [hpc, hpc']; rfl
  | publish _ _ hholds hholds' =>
      rw [hholds, hholds']
      simp
  | pop _ _ hholds hholds' =>
      rw [hholds, hholds']
      exact (List.perm_append_singleton _ _).trans (by simp)

/-- One thread moves. `gone` and `come` balance what it and the queue hold before and after. -/
theorem values_set (gone come : List α) (hpc : s.threads[i]? = some pc)
    (hthreads : t.threads = s.threads.set i pc')
    (hbalance : (gone ++ (t.content ++ pc'.holds.toList)).Perm
      (come ++ (s.content ++ pc.holds.toList))) :
    (gone ++ t.values).Perm (come ++ s.values) := by
  have hheld : (pc.holds.toList ++ t.held).Perm (pc'.holds.toList ++ s.held) := by
    rw [held, hthreads]
    exact Threads.filterMap_set Pc.holds hpc pc'
  refine (List.perm_append_left_iff pc.holds.toList).1 ?_
  rw [← Multiset.coe_eq_coe] at hheld hbalance ⊢
  simp only [values, ← Multiset.coe_add] at hheld hbalance ⊢
  calc (pc.holds.toList : Multiset α) + (gone + (t.content + t.held))
      = (gone + t.content) + (pc.holds.toList + t.held) := by abel
    _ = (gone + (t.content + pc'.holds.toList)) + s.held := by rw [hheld]; abel
    _ = (come + (s.content + pc.holds.toList)) + s.held := by rw [hbalance]
    _ = pc.holds.toList + (come + (s.content + s.held)) := by abel

/-- A push brings a value, the caller of a pop takes one. -/
def KeepsValues (s t : ThreadSafeQueue α) : Action α → Prop
  | .push _ value => t.values.Perm (value :: s.values)
  | .take i => ∀ value, s.threads[i]? = some (.returned (some value)) →
      (value :: t.values).Perm s.values
  | _ => t.values.Perm s.values

theorem Effect.values (h : Effect s t a) : KeepsValues s t a := by
  have hsame {u v : ThreadSafeQueue α} {i : Nat} {pc pc' : Pc α} (hpc : u.threads[i]? = some pc)
      (hthreads : v.threads = u.threads.set i pc') (hcontent : v.content = u.content)
      (hholds : pc'.holds = pc.holds) : v.values.Perm u.values :=
    values_set [] [] hpc hthreads (by rw [hcontent, hholds])
  cases h with
  | @push i value hpc hthreads hcontent =>
      refine values_set [] [value] hpc hthreads ?_
      rw [hcontent]
      exact (List.perm_append_singleton _ _).trans (by simp [Pc.holds])
  | pop hpc hthreads hcontent | wake hpc hthreads hcontent | notifyNobody hpc _ hthreads hcontent =>
      exact hsame hpc hthreads hcontent rfl
  | move hpc hthreads hshift => exact values_set [] [] hpc hthreads hshift.values
  | @notify i choice pop hpc hblocked hthreads hcontent =>
      let u := s.goTo choice (.lockHead pop)
      have hwoken : u.values.Perm s.values := hsame hblocked rfl rfl rfl
      have hi : u.threads[i]? = some .notifyOne := notifier_getElem? hpc hblocked _
      exact (hsame hi hthreads hcontent rfl).trans hwoken
  | @take i value hpc hthreads hcontent =>
      intro value' hvalue
      obtain rfl : value = value' := by simpa using hpc.symm.trans hvalue
      refine values_set [value] [] hpc hthreads ?_
      rw [hcontent]
      exact (List.perm_append_singleton _ _).symm.trans (by simp [Pc.holds])
  | notifyAll hthreads hcontent =>
      have hheld : t.held = s.held := by
        rw [held, hthreads, List.filterMap_map, held]
        congr 1
        funext pc
        cases pc <;> rfl
      exact List.Perm.of_eq (congrArg₂ (· ++ ·) hcontent hheld)

end ThreadSafeQueue
