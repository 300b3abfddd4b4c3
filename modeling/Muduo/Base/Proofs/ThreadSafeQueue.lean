import Muduo.Base.ThreadSafeQueue
import Muduo.Lib.Threads

set_option autoImplicit false

/-! # ThreadSafeQueue is a FIFO queue

The nodes between `head_` and `tail_` hold the content, except that the value of the first one may
have been moved out by the pop that holds `HeadMutex_`. A push writes only to the node at `tail_`
and a pop only to the node at `head_`, which are the same node only while the queue is empty. -/

namespace ThreadSafeQueue

variable {α : Type} {s t : ThreadSafeQueue α} {i choice : Nat} {pc pc' : Pc α} {a : Action α}

/-! ## What a step does -/

/-- The ways in which the thread `i` can go on, one constructor for each. -/
inductive GoOn (s : ThreadSafeQueue α) (i choice : Nat) : Pc α → ThreadSafeQueue α → Prop
  | lockTail {value : α} (hfree : s.tailMutex = none) :
      GoOn s i choice (.push value) ({ s with tailMutex := some i }.goTo i (.setData value))
  | setData {value : α} :
      GoOn s i choice (.setData value) ((s.setData value).goTo i (.setNext value))
  | setNext {value : α} (hfree : s.heap choice = none) :
      GoOn s i choice (.setNext value) ((s.setNext choice).goTo i (.setTail value choice))
  | setTail {value : α} {newTail : NodePtr} :
      GoOn s i choice (.setTail value newTail) ((s.setTail value newTail).goTo i .notifyOne)
  | notifyOne {pop : Pop} (hblocked : s.threads[choice]? = some (.blocked pop)) :
      GoOn s i choice .notifyOne ((s.goTo choice (.lockHead pop)).goTo i .unlockTail)
  | notifyNobody (hnone : ∀ pc ∈ s.threads, pc.waiting = false) :
      GoOn s i choice .notifyOne (s.goTo i .unlockTail)
  | unlockTail :
      GoOn s i choice .unlockTail ({ s with tailMutex := none }.goTo i (.returned none))
  | lockHead {pop : Pop} (hfree : s.headMutex = none) :
      GoOn s i choice (.lockHead pop) ({ s with headMutex := some i }.goTo i (.readTail pop))
  | readTail {pop : Pop} (hfree : s.tailMutex = none) :
      GoOn s i choice (.readTail pop) (s.goTo i (.compare pop s.tail s.content))
  | found {pop : Pop} {tail : NodePtr} {seen : List α} (hne : s.head ≠ tail) :
      GoOn s i choice (.compare pop tail seen)
        (s.goTo i (if pop.moves then .moveData pop else .popHead none))
  | wait {pop : Pop} {tail : NodePtr} {seen : List α} (heq : s.head = tail)
      (hwaits : pop.waits = true) :
      GoOn s i choice (.compare pop tail seen) (s.goTo i (.block pop))
  | fail {pop : Pop} {tail : NodePtr} {seen : List α} (heq : s.head = tail)
      (hwaits : pop.waits = false) :
      GoOn s i choice (.compare pop tail seen)
        ({ s with failed := s.failed ++ [seen] }.goTo i (.unlockHead none none))
  | block {pop : Pop} :
      GoOn s i choice (.block pop) ({ s with headMutex := none }.goTo i (.blocked pop))
  | moveData {pop : Pop} {value : α} {next : Option NodePtr}
      (hhead : s.heap s.head = some ⟨some (some value), next⟩) :
      GoOn s i choice (.moveData pop) ({ s with
        heap := Function.update s.heap s.head (some ⟨some none, next⟩)
        popped := s.popped ++ [value] }.goTo i (.popHead (some value)))
  | popHead {value : Option α} {data : Option (Option α)} {next : NodePtr}
      (hhead : s.heap s.head = some ⟨data, some next⟩) :
      GoOn s i choice (.popHead value) ({ s with
        heap := Function.update s.heap s.head none
        head := next
        popped := s.popped ++ data.join.toList }.goTo i
          (.unlockHead value (some ⟨data, some next⟩)))
  | unlockHead {value : Option α} {oldHead : Option (Node α)} :
      GoOn s i choice (.unlockHead value oldHead)
        ({ s with headMutex := none }.goTo i (.destroy value oldHead))
  | destroy {value : Option α} {oldHead : Option (Node α)} :
      GoOn s i choice (.destroy value oldHead) (s.goTo i (.returned (result value oldHead)))

theorem goOn_cases (h : s.goOn i choice pc = some t) : GoOn s i choice pc t := by
  cases pc with
  | returned value | blocked pop => exact absurd h (by simp [goOn])
  | push value =>
      simp only [goOn, Option.ite_none_right_eq_some, Option.some.injEq] at h
      obtain ⟨hfree, rfl⟩ := h
      exact .lockTail hfree
  | setData value =>
      obtain rfl := Option.some.inj h
      exact .setData
  | setNext value =>
      simp only [goOn, Option.ite_none_right_eq_some, Option.some.injEq] at h
      obtain ⟨hfree, rfl⟩ := h
      exact .setNext hfree
  | setTail value newTail =>
      obtain rfl := Option.some.inj h
      exact .setTail
  | notifyOne =>
      obtain ⟨s', hs', rfl⟩ := Option.map_eq_some_iff.1 h
      unfold ThreadSafeQueue.notifyOne at hs'
      split at hs'
      · split at hs'
        · next pop hblocked =>
            obtain rfl := Option.some.inj hs'
            exact .notifyOne hblocked
        · exact absurd hs' (by simp)
      · next hnone =>
          obtain rfl := Option.some.inj hs'
          exact .notifyNobody (by simpa using hnone)
  | unlockTail =>
      obtain rfl := Option.some.inj h
      exact .unlockTail
  | lockHead pop =>
      simp only [goOn, Option.ite_none_right_eq_some, Option.some.injEq] at h
      obtain ⟨hfree, rfl⟩ := h
      exact .lockHead hfree
  | readTail pop =>
      simp only [goOn, Option.ite_none_right_eq_some, Option.some.injEq] at h
      obtain ⟨hfree, rfl⟩ := h
      exact .readTail hfree
  | compare pop tail seen =>
      simp only [goOn] at h
      split at h
      · next hne =>
          obtain rfl := Option.some.inj h
          exact .found hne
      · next heq =>
          rw [ne_eq, not_not] at heq
          split at h
          · next hwaits =>
              obtain rfl := Option.some.inj h
              exact .wait heq hwaits
          · next hwaits =>
              obtain rfl := Option.some.inj h
              exact .fail heq (by simpa using hwaits)
  | block pop =>
      obtain rfl := Option.some.inj h
      exact .block
  | moveData pop =>
      simp only [goOn, ThreadSafeQueue.moveData] at h
      split at h
      · next value next hhead =>
          obtain rfl := Option.some.inj h
          exact .moveData hhead
      · exact absurd h (by simp)
  | popHead value =>
      simp only [goOn, ThreadSafeQueue.popHead] at h
      split at h
      · next data next hhead =>
          obtain rfl := Option.some.inj h
          exact .popHead hhead
      · exact absurd h (by simp)
  | unlockHead value oldHead =>
      obtain rfl := Option.some.inj h
      exact .unlockHead
  | destroy value oldHead =>
      obtain rfl := Option.some.inj h
      exact .destroy

/-- The steps. -/
inductive Step (s : ThreadSafeQueue α) : Action α → ThreadSafeQueue α → Prop
  | push {i : Nat} {value : α} (hpc : s.threads[i]? = some (.returned none)) :
      Step s (.push i value) (s.goTo i (.push value))
  | pop {i : Nat} {pop : Pop} (hpc : s.threads[i]? = some (.returned none)) :
      Step s (.pop i pop) (s.goTo i (.lockHead pop))
  | next {i choice : Nat} {pc : Pc α} {t : ThreadSafeQueue α} (hpc : s.threads[i]? = some pc)
      (hgo : GoOn s i choice pc t) : Step s (.next i choice) t
  | wake {i : Nat} {pop : Pop} (hpc : s.threads[i]? = some (.blocked pop)) :
      Step s (.wake i) (s.goTo i (.lockHead pop))
  | take {i : Nat} {value : α} (hpc : s.threads[i]? = some (.returned (some value))) :
      Step s (.take i) (s.goTo i (.returned none))
  | notifyAll : Step s .notifyAll s.notifyAll

theorem step_cases (h : s.step a = some t) : Step s a t := by
  cases a with
  | push i value | pop i pop =>
      simp only [step] at h
      split at h
      · next hpc =>
          obtain rfl := Option.some.inj h
          constructor
          exact hpc
      · exact absurd h (by simp)
  | next i choice =>
      obtain ⟨pc, hpc, hgo⟩ := Option.bind_eq_some_iff.1 h
      exact .next hpc (goOn_cases hgo)
  | wake i =>
      simp only [step] at h
      split at h
      · next pop hpc =>
          obtain rfl := Option.some.inj h
          exact .wake hpc
      · exact absurd h (by simp)
  | take i =>
      simp only [step] at h
      split at h
      · next value hpc =>
          obtain rfl := Option.some.inj h
          exact .take hpc
      · exact absurd h (by simp)
  | notifyAll =>
      obtain rfl := Option.some.inj h
      exact .notifyAll

/-! ## The invariant -/

/-- The thread has locked `HeadMutex_`. -/
def Pc.holdsHead : Pc α → Bool
  | .readTail _ | .compare _ _ _ | .block _ | .moveData _ | .popHead _ | .unlockHead _ _ => true
  | _ => false

/-- The thread has locked `TailMutex`. -/
def Pc.holdsTail : Pc α → Bool
  | .setData _ | .setNext _ | .setTail _ _ | .notifyOne | .unlockTail => true
  | _ => false

/-- The thread is between the writes of `push`. -/
def Pc.linking : Pc α → Bool
  | .setNext _ | .setTail _ _ => true
  | _ => false

/-- The thread has moved the value out of the node at `head_`. -/
def Pc.hasMoved : Pc α → Bool
  | .popHead (some _) => true
  | _ => false

/-- The nodes in front of `tail_`: `front` has lost its value, `rest` holds the content. -/
structure Shape (s : ThreadSafeQueue α) (front rest : List NodePtr) : Prop where
  leads : Chain.Leads s.next s.head (front ++ rest) s.tail
  nodup : (front ++ rest ++ [s.tail]).Nodup
  moved : ∀ a ∈ front, s.data a = some none
  stored : rest.map s.data = s.content.map fun value => some (some value)

/-- What a pop knows of the queue. -/
def HeadOk (s : ThreadSafeQueue α) : Pc α → Prop
  | .compare _ tail seen => (s.head = tail ↔ seen = []) ∧ (seen ≠ [] → s.content ≠ [])
  | .moveData _ | .popHead none => s.content ≠ []
  | _ => True

/-- What a push knows of the node at `tail_` and of the new node. -/
def TailOk (s : ThreadSafeQueue α) : Pc α → Prop
  | .setNext value => s.heap s.tail = some ⟨some (some value), none⟩
  | .setTail value newTail =>
      s.heap s.tail = some ⟨some (some value), some newTail⟩ ∧ s.heap newTail = some ⟨none, none⟩
  | _ => True

/-- What every run keeps. -/
structure Inv (s : ThreadSafeQueue α) : Prop where
  headOwner : Threads.Owns Pc.holdsHead s.threads s.headMutex
  tailOwner : Threads.Owns Pc.holdsTail s.threads s.tailMutex
  law : s.popped ++ s.content = s.pushed
  shape : ∃ front rest, s.Shape front rest ∧ front.length ≤ 1 ∧
    (front ≠ [] ↔ ∃ pc ∈ s.threads, pc.hasMoved = true)
  head : ∀ pc ∈ s.threads, s.HeadOk pc
  tail : ∀ pc ∈ s.threads, s.TailOk pc
  /-- Between two pushes the node at `tail_` is empty. -/
  tailNode : (∀ pc ∈ s.threads, pc.linking = false) → s.heap s.tail = some ⟨none, none⟩
  failed : ∀ seen ∈ s.failed, seen = []

theorem HeadOk.of_not_holdsHead (h : pc.holdsHead = false) : s.HeadOk pc := by
  unfold HeadOk
  split
  · exact absurd h (by simp [Pc.holdsHead])
  · exact absurd h (by simp [Pc.holdsHead])
  · exact absurd h (by simp [Pc.holdsHead])
  · trivial

theorem TailOk.of_not_linking (h : pc.linking = false) : s.TailOk pc := by
  unfold TailOk
  split
  · exact absurd h (by simp [Pc.linking])
  · exact absurd h (by simp [Pc.linking])
  · trivial

theorem holdsTail_of_linking (h : pc.linking = true) : pc.holdsTail = true := by
  cases pc with
  | setNext _ | setTail _ _ => rfl
  | _ => exact absurd h (by simp [Pc.linking])

theorem holdsHead_of_hasMoved (h : pc.hasMoved = true) : pc.holdsHead = true := by
  cases pc with
  | popHead _ => rfl
  | _ => exact absurd h (by simp [Pc.hasMoved])

theorem inv_new (n : Nat) : Inv (new α n) := by
  have hpcs : ∀ pc ∈ (new α n).threads, pc = .returned none := fun pc hpc =>
    List.eq_of_mem_replicate hpc
  have howns (p : Pc α → Bool) (hp : p (.returned none) = false) :
      Threads.Owns p (new α n).threads none := .of_none fun pc hpc => hpcs pc hpc ▸ hp
  constructor
  · exact howns _ rfl
  · exact howns _ rfl
  · rfl
  · refine ⟨[], [], ⟨rfl, by simp, by simp, rfl⟩, by simp, ?_⟩
    · refine iff_of_false (by simp) ?_
      rintro ⟨pc, hpc, hmoved⟩
      rw [hpcs pc hpc] at hmoved
      exact absurd hmoved (by simp [Pc.hasMoved])
  · intro pc hpc
    rw [hpcs pc hpc]
    trivial
  · intro pc hpc
    rw [hpcs pc hpc]
    trivial
  · intro _
    simp [new]
  · simp [new]

/-! ### Steps that leave the list alone -/

/-- The threads go on without a write to a node. -/
theorem Inv.quiet (h : s.Inv) {headMutex tailMutex : Option Nat} {threads : List (Pc α)}
    {failed : List (List α)} (hheadOwner : Threads.Owns Pc.holdsHead threads headMutex)
    (htailOwner : Threads.Owns Pc.holdsTail threads tailMutex)
    (hmoved : (∃ pc ∈ threads, pc.hasMoved = true) ↔ ∃ pc ∈ s.threads, pc.hasMoved = true)
    (hlinking : (∀ pc ∈ threads, pc.linking = false) → ∀ pc ∈ s.threads, pc.linking = false)
    (hpcs : ∀ pc ∈ threads, pc ∈ s.threads ∨ s.HeadOk pc ∧ s.TailOk pc)
    (hfailed : ∀ seen ∈ failed, seen = []) :
    Inv { s with headMutex, tailMutex, threads, failed } where
  headOwner := hheadOwner
  tailOwner := htailOwner
  law := h.law
  shape := by
    obtain ⟨front, rest, hshape, hle, hfront⟩ := h.shape
    exact ⟨front, rest, ⟨hshape.leads, hshape.nodup, hshape.moved, hshape.stored⟩, hle,
      hfront.trans hmoved.symm⟩
  head pc hpc := by
    rcases hpcs pc hpc with hold | ⟨hnew, -⟩
    · exact h.head pc hold
    · exact hnew
  tail pc hpc := by
    rcases hpcs pc hpc with hold | ⟨-, hnew⟩
    · exact h.tail pc hold
    · exact hnew
  tailNode hnone := h.tailNode (hlinking hnone)
  failed := hfailed

/-- One thread moves, from a place and to a place where the list is whole. -/
theorem Inv.goTo (h : s.Inv) {headMutex tailMutex : Option Nat} {failed : List (List α)}
    (hpc : s.threads[i]? = some pc)
    (hheadOwner : Threads.Owns Pc.holdsHead (s.threads.set i pc') headMutex)
    (htailOwner : Threads.Owns Pc.holdsTail (s.threads.set i pc') tailMutex)
    (hmoved : pc.hasMoved = false) (hlinking : pc.linking = false)
    (hmoved' : pc'.hasMoved = false) (hlinking' : pc'.linking = false) (hok : s.HeadOk pc')
    (hfailed : ∀ seen ∈ failed, seen = []) :
    Inv ({ s with headMutex, tailMutex, failed }.goTo i pc') := by
  refine h.quiet hheadOwner htailOwner (Threads.exists_mem_set_iff hpc hmoved hmoved') ?_ ?_ hfailed
  · intro hnone x hx
    have hor : x = pc ∨ x ∈ s.threads.set i pc' := Threads.mem_or_mem_set hpc hx
    rcases hor with rfl | hnew
    · exact hlinking
    · exact hnone x hnew
  · intro x hx
    rcases Threads.mem_set hx with hold | rfl
    · exact Or.inl hold
    · exact Or.inr ⟨hok, .of_not_linking hlinking'⟩

/-- It locks and unlocks nothing. -/
theorem Inv.move (h : s.Inv) (hpc : s.threads[i]? = some pc)
    (hhead : pc'.holdsHead = pc.holdsHead) (htail : pc'.holdsTail = pc.holdsTail)
    (hmoved : pc.hasMoved = false) (hlinking : pc.linking = false)
    (hmoved' : pc'.hasMoved = false) (hlinking' : pc'.linking = false) (hok : s.HeadOk pc') :
    Inv (s.goTo i pc') :=
  h.goTo hpc (h.headOwner.set hpc hhead) (h.tailOwner.set hpc htail) hmoved hlinking hmoved'
    hlinking' hok h.failed

/-! ### Steps that write to the list -/

section

variable {front rest : List NodePtr} {value : α}

theorem Shape.data_ne_none (h : s.Shape front rest) {a : NodePtr} (ha : a ∈ front ++ rest) :
    s.data a ≠ none := by
  rcases List.mem_append.1 ha with ha | ha
  · rw [h.moved a ha]
    exact Option.some_ne_none _
  · have hmem := List.mem_map_of_mem (f := s.data) ha
    rw [h.stored] at hmem
    obtain ⟨value, -, hdata⟩ := List.mem_map.1 hmem
    rw [← hdata]
    exact Option.some_ne_none _

theorem Shape.ne_of_data_eq_none (h : s.Shape front rest) {a b : NodePtr} (ha : a ∈ front ++ rest)
    (hb : s.data b = none) : a ≠ b := by
  rintro rfl
  exact h.data_ne_none ha hb

theorem Shape.tail_notMem (h : s.Shape front rest) : s.tail ∉ front ++ rest := by
  intro hmem
  exact (List.nodup_append.1 h.nodup).2.2 _ hmem _ (List.mem_singleton.2 rfl) rfl

/-- The list does not notice what happens to other nodes. -/
theorem Shape.frame (h : s.Shape front rest) (hheap : ∀ a ∈ front ++ rest, t.heap a = s.heap a)
    (hhead : t.head = s.head) (htail : t.tail = s.tail) (hcontent : t.content = s.content) :
    t.Shape front rest where
  leads := by
    rw [hhead, htail]
    refine h.leads.congr fun a ha => ?_
    simp only [next, hheap a ha]
  nodup := by
    rw [htail]
    exact h.nodup
  moved a ha := by
    rw [data, hheap a (List.mem_append_left _ ha)]
    exact h.moved a ha
  stored := by
    rw [hcontent, ← h.stored]
    refine List.map_congr_left fun a ha => ?_
    rw [data, hheap a (List.mem_append_right _ ha), data]

theorem content_concat (h : s.popped ++ s.content = s.pushed) :
    (s.pushed ++ [value]).drop s.popped.length = s.content ++ [value] := by
  have hle : s.popped.length ≤ s.pushed.length := by
    rw [← h, List.length_append]
    exact Nat.le_add_right _ _
  rw [List.drop_append_of_le_length hle]
  rfl

/-- Nobody else holds the mutex that the thread of `pc` holds. -/
theorem head_of_owner {threads : List (Pc α)} {owner : Option Nat}
    (howner : Threads.Owns Pc.holdsHead threads owner) (hmem : pc ∈ threads)
    (hholds : pc.holdsHead = true) (hok : s.HeadOk pc) : ∀ x ∈ threads, s.HeadOk x := by
  intro x hx
  by_cases hxholds : x.holdsHead = true
  · rw [howner.eq_of_mem hx hmem hxholds hholds]
    exact hok
  · exact .of_not_holdsHead (by simpa using hxholds)

theorem tail_of_owner {threads : List (Pc α)} {owner : Option Nat}
    (howner : Threads.Owns Pc.holdsTail threads owner) (hmem : pc ∈ threads)
    (hholds : pc.holdsTail = true) (hok : s.TailOk pc) : ∀ x ∈ threads, s.TailOk x := by
  intro x hx
  by_cases hxlinking : x.linking = true
  · rw [howner.eq_of_mem hx hmem (holdsTail_of_linking hxlinking) hholds]
    exact hok
  · exact .of_not_linking (by simpa using hxlinking)

/-- A push makes the content longer at most. -/
theorem HeadOk.grow (h : s.HeadOk pc) (hhead : t.head = s.head)
    (hcontent : s.content ≠ [] → t.content ≠ []) : t.HeadOk pc := by
  cases pc with
  | compare pop tail seen =>
      obtain ⟨heq, hseen⟩ := h
      exact ⟨by rw [hhead]; exact heq, fun hne => hcontent (hseen hne)⟩
  | moveData pop => exact hcontent h
  | popHead value =>
      cases value with
      | none => exact hcontent h
      | some value => trivial
  | _ => trivial

/-- A pop writes only to a node with data in front of `tail_`. -/
theorem TailOk.frame (h : s.TailOk pc) (htail : t.tail = s.tail)
    (hheap : ∀ a, s.data a = none ∨ a = s.tail → t.heap a = s.heap a) : t.TailOk pc := by
  cases pc with
  | setNext value =>
      rw [TailOk, htail, hheap s.tail (Or.inr rfl)]
      exact h
  | setTail value newTail =>
      obtain ⟨hdata, hnew⟩ := h
      refine ⟨?_, ?_⟩
      · rw [htail, hheap s.tail (Or.inr rfl)]
        exact hdata
      · rw [hheap newTail (Or.inl (by rw [data, hnew]; rfl))]
        exact hnew
  | _ => trivial

/-- The node at `tail_` before the first write of a push. -/
theorem Inv.heap_tail (h : s.Inv) (hmem : .setData value ∈ s.threads) :
    s.heap s.tail = some ⟨none, none⟩ := by
  refine h.tailNode fun x hx => ?_
  by_contra hlinking
  rw [Bool.not_eq_false] at hlinking
  have heq := h.tailOwner.eq_of_mem hx hmem (holdsTail_of_linking hlinking) rfl
  rw [heq] at hlinking
  exact absurd hlinking (by simp [Pc.linking])

/-- A push writes to nodes that are not in the list yet. -/
theorem Inv.writeTail (h : s.Inv) {heap : NodePtr → Option (Node α)}
    (hpc : s.threads[i]? = some pc) (hhead : pc'.holdsHead = pc.holdsHead)
    (hholds : pc.holdsTail = true) (hlinking : pc'.linking = true)
    (hmoved : pc.hasMoved = false) (hmoved' : pc'.hasMoved = false)
    (hframe : ∀ front rest, s.Shape front rest → ∀ a ∈ front ++ rest, heap a = s.heap a)
    (hok : TailOk { s with heap } pc') : Inv ({ s with heap }.goTo i pc') := by
  have hholds' := holdsTail_of_linking hlinking
  have howner : Threads.Owns Pc.holdsTail (s.threads.set i pc') s.tailMutex :=
    h.tailOwner.set hpc (hholds'.trans hholds.symm)
  obtain ⟨front, rest, hshape, hle, hfront⟩ := h.shape
  constructor
  · exact h.headOwner.set hpc hhead
  · exact howner
  · exact h.law
  · exact ⟨front, rest, hshape.frame (hframe front rest hshape) rfl rfl rfl, hle,
      hfront.trans (Threads.exists_mem_set_iff hpc hmoved hmoved').symm⟩
  · intro x hx
    rcases Threads.mem_set hx with hold | rfl
    · exact (h.head x hold).grow rfl id
    · cases x with
      | setNext _ | setTail _ _ => trivial
      | _ => exact absurd hlinking (by simp [Pc.linking])
  · exact tail_of_owner howner (Threads.mem_set_self hpc) hholds' hok
  · intro hnone
    exact absurd hlinking (by simp [hnone _ (Threads.mem_set_self hpc)])
  · exact h.failed

theorem Inv.setData (h : s.Inv) (hpc : s.threads[i]? = some (.setData value)) :
    Inv ((s.setData value).goTo i (.setNext value)) := by
  have hnode := h.heap_tail (Threads.mem hpc)
  refine h.writeTail hpc rfl rfl rfl rfl rfl (fun front rest hshape a ha => ?_) ?_
  · refine Function.update_of_ne ?_ _ _
    rintro rfl
    exact hshape.tail_notMem ha
  · simp [TailOk, hnode]

theorem Inv.setNext (h : s.Inv) (hpc : s.threads[i]? = some (.setNext value))
    (hfree : s.heap choice = none) :
    Inv ((s.setNext choice).goTo i (.setTail value choice)) := by
  have hnode : s.heap s.tail = some ⟨some (some value), none⟩ := h.tail _ (Threads.mem hpc)
  have hne : choice ≠ s.tail := by
    rintro rfl
    rw [hfree] at hnode
    exact absurd hnode (by simp)
  refine h.writeTail hpc rfl rfl rfl rfl rfl (fun front rest hshape a ha => ?_) ?_
  · have hchoice : a ≠ choice := hshape.ne_of_data_eq_none ha (by rw [data, hfree]; rfl)
    have htail : a ≠ s.tail := by
      rintro rfl
      exact hshape.tail_notMem ha
    exact (Function.update_of_ne htail _ _).trans (Function.update_of_ne hchoice _ _)
  · simp [TailOk, hnode, hne]

/-- With `tail_` moved on, the node that it leaves holds the value pushed. -/
theorem Inv.setTail (h : s.Inv) {newTail : NodePtr}
    (hpc : s.threads[i]? = some (.setTail value newTail)) :
    Inv ((s.setTail value newTail).goTo i .notifyOne) := by
  obtain ⟨hnode, hnew⟩ := h.tail _ (Threads.mem hpc)
  have howner : Threads.Owns Pc.holdsTail (s.threads.set i .notifyOne) s.tailMutex :=
    h.tailOwner.set hpc rfl
  have hcontent : (s.setTail value newTail).content = s.content ++ [value] := content_concat h.law
  have hdata : s.data s.tail = some (some value) := by
    rw [data, hnode]
    rfl
  have hnone : s.data newTail = none := by
    rw [data, hnew]
    rfl
  obtain ⟨front, rest, hshape, hle, hfront⟩ := h.shape
  constructor
  · exact h.headOwner.set hpc rfl
  · exact howner
  · change s.popped ++ (s.setTail value newTail).content = s.pushed ++ [value]
    rw [hcontent, ← List.append_assoc, h.law]
  · refine ⟨front, rest ++ [s.tail], ⟨?_, ?_, hshape.moved, ?_⟩, hle,
      hfront.trans (Threads.exists_mem_set_iff hpc rfl rfl).symm⟩
    · rw [← List.append_assoc]
      refine hshape.leads.concat ?_
      rw [next, hnode]
      rfl
    · rw [← List.append_assoc]
      refine List.nodup_append.2 ⟨hshape.nodup, List.nodup_singleton _, ?_⟩
      intro a ha b hb
      obtain rfl := List.mem_singleton.1 hb
      rcases List.mem_append.1 ha with ha | ha
      · exact hshape.ne_of_data_eq_none ha hnone
      · obtain rfl := List.mem_singleton.1 ha
        rintro heq
        rw [heq] at hdata
        exact absurd (hnone.symm.trans hdata) (by simp)
    · change (rest ++ [s.tail]).map s.data = _
      rw [List.map_append, hshape.stored]
      change _ = (s.setTail value newTail).content.map _
      rw [hcontent, List.map_append, List.map_singleton, List.map_singleton, hdata]
  · intro x hx
    rcases Threads.mem_set hx with hold | rfl
    · refine (h.head x hold).grow rfl fun _ => ?_
      change (s.setTail value newTail).content ≠ []
      rw [hcontent]
      exact List.append_ne_nil_of_right_ne_nil _ (List.cons_ne_nil _ _)
    · trivial
  · exact tail_of_owner howner (Threads.mem_set_self hpc) rfl trivial
  · intro _
    exact hnew
  · exact h.failed

/-- Whoever has locked `HeadMutex_` and has not moved a value finds every node with its value. -/
theorem Inv.shape_whole (h : s.Inv) (hmem : pc ∈ s.threads) (hholds : pc.holdsHead = true)
    (hmoved : pc.hasMoved = false) : ∃ rest, s.Shape [] rest := by
  obtain ⟨front, rest, hshape, -, hfront⟩ := h.shape
  have hnil : front = [] := by
    by_contra hne
    obtain ⟨x, hx, hxmoved⟩ := hfront.1 hne
    rw [h.headOwner.eq_of_mem hx hmem (holdsHead_of_hasMoved hxmoved) hholds, hmoved] at hxmoved
    exact absurd hxmoved (by simp)
  subst hnil
  exact ⟨rest, hshape⟩

theorem Shape.rest_eq_nil_iff (h : s.Shape front rest) : rest = [] ↔ s.content = [] := by
  have hlength := congrArg List.length h.stored
  rw [List.length_map, List.length_map] at hlength
  rw [← List.length_eq_zero_iff, ← List.length_eq_zero_iff, hlength]

/-- What a pop that reads `tail_` can tell. -/
theorem Inv.head_eq_tail_iff (h : s.Inv) (hmem : pc ∈ s.threads) (hholds : pc.holdsHead = true)
    (hmoved : pc.hasMoved = false) : s.head = s.tail ↔ s.content = [] := by
  obtain ⟨rest, hshape⟩ := h.shape_whole hmem hholds hmoved
  exact (hshape.leads.eq_iff hshape.tail_notMem).trans hshape.rest_eq_nil_iff

/-- A queue that is not empty starts with a node that holds the first value. -/
theorem Shape.exists_head (h : s.Shape [] rest) (hne : s.content ≠ []) :
    ∃ rest' value content next, rest = s.head :: rest' ∧ s.content = value :: content ∧
      s.heap s.head = some ⟨some (some value), some next⟩ ∧
      Chain.Leads s.next next rest' s.tail := by
  cases hrest : rest with
  | nil => exact absurd (h.rest_eq_nil_iff.1 hrest) hne
  | cons a rest' =>
      subst hrest
      obtain ⟨value, content, hcontent⟩ := List.exists_cons_of_ne_nil hne
      obtain ⟨heq, next, hnext, hleads⟩ := h.leads
      subst heq
      have hstored := h.stored
      rw [hcontent, List.map_cons, List.map_cons] at hstored
      have hdata := (List.cons.inj hstored).1
      refine ⟨rest', value, content, next, rfl, hcontent, ?_, hleads⟩
      obtain ⟨node, hnode, hlink⟩ := Option.bind_eq_some_iff.1 hnext
      rw [data, hnode] at hdata
      rw [hnode, ← show node.data = some (some value) from hdata, ← hlink]

theorem content_drop {value : α} {content : List α} (h : s.content = value :: content) :
    s.pushed.drop (s.popped ++ [value]).length = content := by
  rw [List.length_append, List.length_singleton, ← List.drop_drop]
  exact congrArg (List.drop 1) h

/-- A pop that writes to the node at `head_` leaves alone what a push knows of the end. -/
theorem Inv.tail_of_headWrite (h : s.Inv) (hshape : s.Shape front rest)
    (hmem : s.head ∈ front ++ rest) (hpc : s.threads[i]? = some pc) (hlinking : pc.linking = false)
    (hlinking' : pc'.linking = false) (hthreads : t.threads = s.threads.set i pc')
    (htail : t.tail = s.tail) (hheap : ∀ a, a ≠ s.head → t.heap a = s.heap a) :
    (∀ x ∈ t.threads, t.TailOk x) ∧
      ((∀ x ∈ t.threads, x.linking = false) → t.heap t.tail = some ⟨none, none⟩) := by
  have hne : s.tail ≠ s.head := by
    intro heq
    exact hshape.tail_notMem (heq ▸ hmem)
  rw [hthreads]
  constructor
  · intro x hx
    rcases Threads.mem_set hx with hold | rfl
    · refine (h.tail x hold).frame htail fun a ha => hheap a ?_
      rintro rfl
      rcases ha with hdata | heq
      · exact hshape.data_ne_none hmem hdata
      · exact hne heq.symm
    · exact .of_not_linking hlinking'
  · intro hnone
    rw [htail, hheap _ hne]
    refine h.tailNode fun x hx => ?_
    rcases Threads.mem_or_mem_set hpc hx with rfl | hnew
    · exact hlinking
    · exact hnone x hnew

/-- The value goes, the node stays. -/
theorem Inv.moveData (h : s.Inv) {pop : Pop} {link : Option NodePtr}
    (hpc : s.threads[i]? = some (.moveData pop))
    (hhead : s.heap s.head = some ⟨some (some value), link⟩) :
    Inv ({ s with
      heap := Function.update s.heap s.head (some ⟨some none, link⟩)
      popped := s.popped ++ [value] }.goTo i (.popHead (some value))) := by
  obtain ⟨rest, hshape⟩ := h.shape_whole (Threads.mem hpc) rfl rfl
  obtain ⟨rest', first, content, next, rfl, hcontent, hnode, hleads⟩ :=
    hshape.exists_head (h.head _ (Threads.mem hpc))
  obtain ⟨rfl, rfl⟩ : first = value ∧ some next = link := by
    rw [hnode] at hhead
    simpa using hhead
  have howner : Threads.Owns Pc.holdsHead (s.threads.set i (.popHead (some first))) s.headMutex :=
    h.headOwner.set hpc rfl
  have hcontent' := content_drop hcontent
  have hnotmem : s.head ∉ rest' := by
    have hnodup := hshape.nodup
    rw [List.nil_append, List.cons_append] at hnodup
    exact fun hmem => (List.nodup_cons.1 hnodup).1 (List.mem_append_left _ hmem)
  obtain ⟨htailOk, htailNode⟩ := h.tail_of_headWrite hshape List.mem_cons_self hpc rfl rfl
    (t := { s with
      heap := Function.update s.heap s.head (some ⟨some none, some next⟩)
      popped := s.popped ++ [first] }.goTo i (.popHead (some first))) rfl rfl
    fun a ha => Function.update_of_ne ha _ _
  constructor
  · exact howner
  · exact h.tailOwner.set hpc rfl
  · change s.popped ++ [first] ++ s.pushed.drop (s.popped ++ [first]).length = s.pushed
    rw [hcontent', ← h.law, hcontent, List.append_assoc]
    rfl
  · refine ⟨[s.head], rest', ⟨?_, hshape.nodup, ?_, ?_⟩, Nat.le_refl _, ?_⟩
    · refine hshape.leads.congr fun a _ => ?_
      simp only [ThreadSafeQueue.goTo, ThreadSafeQueue.next]
      by_cases ha : a = s.head
      · subst ha
        rw [Function.update_self, hnode]
        rfl
      · rw [Function.update_of_ne ha]
    · intro a ha
      obtain rfl := List.mem_singleton.1 ha
      simp [ThreadSafeQueue.goTo, data]
    · change _ = (s.pushed.drop (s.popped ++ [first]).length).map _
      have hstored := hshape.stored
      rw [hcontent, List.map_cons, List.map_cons] at hstored
      rw [hcontent', ← (List.cons.inj hstored).2]
      refine List.map_congr_left fun a ha => ?_
      have hahead : a ≠ s.head := by
        rintro rfl
        exact hnotmem ha
      simp only [ThreadSafeQueue.goTo, data, Function.update_of_ne hahead]
    · exact iff_of_true (by simp) ⟨_, Threads.mem_set_self hpc, rfl⟩
  · exact head_of_owner howner (Threads.mem_set_self hpc) rfl trivial
  · exact htailOk
  · exact htailNode
  · exact h.failed

/-- What is behind the node at `head_` when `PopHead` takes it. -/
theorem Inv.behind_head (h : s.Inv) {value : Option α} {data : Option (Option α)} {next : NodePtr}
    (hpc : s.threads[i]? = some (.popHead value))
    (hhead : s.heap s.head = some ⟨data, some next⟩) :
    ∃ rest front rest', s.Shape front rest ∧ front ++ rest = s.head :: rest' ∧
      Chain.Leads s.next next rest' s.tail ∧
      (rest'.map s.data = (s.pushed.drop (s.popped ++ data.join.toList).length).map
        fun value => some (some value)) ∧
      s.popped ++ data.join.toList ++ s.pushed.drop (s.popped ++ data.join.toList).length
        = s.pushed := by
  cases value with
  | none =>
      obtain ⟨rest, hshape⟩ := h.shape_whole (Threads.mem hpc) rfl rfl
      obtain ⟨rest', first, content, link, rfl, hcontent, hnode, hleads⟩ :=
        hshape.exists_head (h.head _ (Threads.mem hpc))
      obtain ⟨rfl, rfl⟩ : some (some first) = data ∧ link = next := by
        rw [hnode] at hhead
        simpa using hhead
      have hstored := hshape.stored
      rw [hcontent, List.map_cons, List.map_cons] at hstored
      have hdrop : s.pushed.drop (s.popped ++ (some (some first)).join.toList).length = content :=
        content_drop hcontent
      refine ⟨_, [], rest', hshape, rfl, hleads, ?_, ?_⟩
      · rw [hdrop]
        exact (List.cons.inj hstored).2
      · rw [hdrop, ← h.law, hcontent, List.append_assoc]
        rfl
  | some value =>
      obtain ⟨front, rest, hshape, hle, hfront⟩ := h.shape
      have hne : front ≠ [] := hfront.2 ⟨_, Threads.mem hpc, rfl⟩
      cases front with
      | nil => exact absurd rfl hne
      | cons a front =>
          obtain rfl : front = [] :=
            List.length_eq_zero_iff.1 (Nat.le_zero.1 (Nat.le_of_succ_le_succ hle))
          obtain ⟨heq, link, hlink, hleads⟩ := hshape.leads
          subst heq
          have hmoved := hshape.moved s.head List.mem_cons_self
          obtain ⟨rfl, rfl⟩ : some none = data ∧ next = link := by
            rw [ThreadSafeQueue.next, hhead] at hlink
            rw [ThreadSafeQueue.data, hhead] at hmoved
            exact ⟨hmoved.symm, Option.some.inj hlink⟩
          have hpopped : s.popped ++ (some (none : Option α)).join.toList = s.popped :=
            List.append_nil _
          refine ⟨rest, [s.head], rest, hshape, rfl, hleads, ?_, ?_⟩
          · rw [hpopped]
            exact hshape.stored
          · rw [hpopped]
            exact h.law

theorem Inv.popHead (h : s.Inv) {value : Option α} {data : Option (Option α)} {next : NodePtr}
    (hpc : s.threads[i]? = some (.popHead value))
    (hhead : s.heap s.head = some ⟨data, some next⟩) :
    Inv ({ s with
      heap := Function.update s.heap s.head none
      head := next
      popped := s.popped ++ data.join.toList }.goTo i
        (.unlockHead value (some ⟨data, some next⟩))) := by
  obtain ⟨rest, front, rest', hshape, hnodes, hleads, hstored, hlaw⟩ := h.behind_head hpc hhead
  have howner : Threads.Owns Pc.holdsHead
      (s.threads.set i (.unlockHead value (some ⟨data, some next⟩))) s.headMutex :=
    h.headOwner.set hpc rfl
  have hmem : s.head ∈ front ++ rest := hnodes ▸ List.mem_cons_self
  have hnodup : (s.head :: rest' ++ [s.tail]).Nodup := hnodes ▸ hshape.nodup
  rw [List.cons_append] at hnodup
  have hnotmem : s.head ∉ rest' := fun hmem =>
    (List.nodup_cons.1 hnodup).1 (List.mem_append_left _ hmem)
  have hheap : ∀ a, a ≠ s.head → Function.update s.heap s.head none a = s.heap a :=
    fun a ha => Function.update_of_ne ha _ _
  have hrest : ∀ a ∈ rest', a ≠ s.head := by
    rintro a ha rfl
    exact hnotmem ha
  obtain ⟨htailOk, htailNode⟩ := h.tail_of_headWrite hshape hmem hpc rfl rfl
    (t := { s with
      heap := Function.update s.heap s.head none
      head := next
      popped := s.popped ++ data.join.toList }.goTo i
        (.unlockHead value (some ⟨data, some next⟩))) rfl rfl hheap
  constructor
  · exact howner
  · exact h.tailOwner.set hpc rfl
  · exact hlaw
  · refine ⟨[], rest', ⟨?_, (List.nodup_cons.1 hnodup).2, by simp, ?_⟩, Nat.zero_le _, ?_⟩
    · refine hleads.congr fun a ha => ?_
      simp only [ThreadSafeQueue.goTo, ThreadSafeQueue.next, hheap a (hrest a ha)]
    · refine Eq.trans (List.map_congr_left fun a ha => ?_) hstored
      simp only [ThreadSafeQueue.goTo, ThreadSafeQueue.data, hheap a (hrest a ha)]
    · refine iff_of_false (by simp) ?_
      rintro ⟨x, hx, hmoved⟩
      rw [howner.eq_of_mem hx (Threads.mem_set_self hpc) (holdsHead_of_hasMoved hmoved) rfl]
        at hmoved
      exact absurd hmoved (by simp [Pc.hasMoved])
  · exact head_of_owner howner (Threads.mem_set_self hpc) rfl trivial
  · exact htailOk
  · exact htailNode
  · exact h.failed

end

/-! ### Every step -/

theorem Inv.goOn (h : s.Inv) (hpc : s.threads[i]? = some pc) (hgo : GoOn s i choice pc t) :
    Inv t := by
  have hmem := Threads.mem hpc
  cases hgo with
  | lockTail hfree =>
      refine h.goTo hpc (h.headOwner.set hpc rfl) ?_ rfl rfl rfl rfl trivial h.failed
      exact Threads.Owns.lock (hfree ▸ h.tailOwner) hpc rfl
  | setData => exact h.setData hpc
  | setNext hfree => exact h.setNext hpc hfree
  | setTail => exact h.setTail hpc
  | @notifyOne pop hblocked =>
      have hwoken : Inv (s.goTo choice (.lockHead pop)) :=
        h.move hblocked rfl rfl rfl rfl rfl rfl trivial
      have hpc' : (s.goTo choice (.lockHead pop)).threads[i]? = some .notifyOne := by
        refine (List.getElem?_set_ne ?_).trans hpc
        rintro rfl
        exact absurd (hblocked.symm.trans hpc) (by simp)
      exact hwoken.move hpc' rfl rfl rfl rfl rfl rfl trivial
  | notifyNobody hnone => exact h.move hpc rfl rfl rfl rfl rfl rfl trivial
  | unlockTail =>
      exact h.goTo hpc (h.headOwner.set hpc rfl) (h.tailOwner.unlock hpc rfl rfl) rfl rfl rfl rfl
        trivial h.failed
  | lockHead hfree =>
      refine h.goTo hpc ?_ (h.tailOwner.set hpc rfl) rfl rfl rfl rfl trivial h.failed
      exact Threads.Owns.lock (hfree ▸ h.headOwner) hpc rfl
  | readTail hfree =>
      exact h.move hpc rfl rfl rfl rfl rfl rfl ⟨h.head_eq_tail_iff hmem rfl rfl, id⟩
  | @found pop tail seen hne =>
      obtain ⟨hiff, hcontent⟩ := h.head _ hmem
      have hok := hcontent fun hnil => hne (hiff.2 hnil)
      split
      · exact h.move hpc rfl rfl rfl rfl rfl rfl hok
      · exact h.move hpc rfl rfl rfl rfl rfl rfl hok
  | wait heq hwaits => exact h.move hpc rfl rfl rfl rfl rfl rfl trivial
  | @fail pop tail seen heq hwaits =>
      refine h.goTo hpc (h.headOwner.set hpc rfl) (h.tailOwner.set hpc rfl) rfl rfl rfl rfl trivial
        ?_
      intro x hx
      rcases List.mem_append.1 hx with hx | hx
      · exact h.failed x hx
      · rw [List.mem_singleton.1 hx]
        exact (h.head _ hmem).1.1 heq
  | block =>
      exact h.goTo hpc (h.headOwner.unlock hpc rfl rfl) (h.tailOwner.set hpc rfl) rfl rfl rfl rfl
        trivial h.failed
  | moveData hhead => exact h.moveData hpc hhead
  | popHead hhead => exact h.popHead hpc hhead
  | unlockHead =>
      exact h.goTo hpc (h.headOwner.unlock hpc rfl rfl) (h.tailOwner.set hpc rfl) rfl rfl rfl rfl
        trivial h.failed
  | destroy => exact h.move hpc rfl rfl rfl rfl rfl rfl trivial

theorem Inv.notifyAll (h : s.Inv) : s.notifyAll.Inv := by
  have hwoken (pc : Pc α) : pc.woken = pc ∨ ∃ pop, pc.woken = .lockHead pop := by
    cases pc with
    | blocked pop => exact Or.inr ⟨pop, rfl⟩
    | _ => exact Or.inl rfl
  have hsame (p : Pc α → Bool) (hp : ∀ pop, p (.blocked pop) = p (.lockHead pop)) (pc : Pc α) :
      p pc.woken = p pc := by
    cases pc with
    | blocked pop => exact (hp pop).symm
    | _ => rfl
  refine h.quiet (h.headOwner.map (hsame _ fun _ => rfl)) (h.tailOwner.map (hsame _ fun _ => rfl))
    ?_ ?_ ?_ h.failed
  · simp only [List.mem_map, exists_exists_and_eq_and, hsame Pc.hasMoved fun _ => rfl]
  · intro hnone x hx
    rw [← hsame Pc.linking fun _ => rfl]
    exact hnone _ (List.mem_map_of_mem hx)
  · intro x hx
    obtain ⟨y, hy, rfl⟩ := List.mem_map.1 hx
    rcases hwoken y with heq | ⟨pop, heq⟩
    · rw [heq]
      exact Or.inl hy
    · rw [heq]
      exact Or.inr ⟨trivial, trivial⟩

theorem Inv.step (h : s.Inv) (hstep : Step s a t) : Inv t := by
  cases hstep with
  | push hpc | pop hpc | wake hpc | take hpc => exact h.move hpc rfl rfl rfl rfl rfl rfl trivial
  | next hpc hgo => exact h.goOn hpc hgo
  | notifyAll => exact h.notifyAll

/-- While no thread uses the queue, a push is done as if it were by one more thread. -/
theorem Inv.pushAlone (h : s.Inv) (hidle : ∀ pc ∈ s.threads, pc = .returned none) {value : α}
    {p : NodePtr} (hfree : s.heap p = none) : Inv (s.pushAlone value p) := by
  have hnone (f : Pc α → Bool) (hf : f (.returned none) = false) : ∀ pc ∈ s.threads, f pc = false :=
    fun pc hpc => hidle pc hpc ▸ hf
  have hmoved : ¬ ∃ pc ∈ s.threads, pc.hasMoved = true := by
    rintro ⟨pc, hpc, hmoved⟩
    exact absurd (hnone Pc.hasMoved rfl pc hpc) (by simp [hmoved])
  have hlast : (s.threads ++ [.setData value])[s.threads.length]? = some (.setData value) := by simp
  have hmore {pc : Pc α} (hmem : pc ∈ s.threads ++ [.setData value]) :
      pc ∈ s.threads ∨ pc = .setData value := by simpa using hmem
  have hstart : Inv { s with
      headMutex := none
      tailMutex := some s.threads.length
      threads := s.threads ++ [.setData value] } := by
    refine h.quiet (.of_none fun pc hpc => ?_) (.of_last (hnone _ rfl) rfl)
      (iff_of_false ?_ hmoved) (fun _ => hnone _ rfl) (fun pc hpc => ?_) h.failed
    · rcases hmore hpc with hold | rfl
      · exact hnone _ rfl pc hold
      · rfl
    · rintro ⟨pc, hpc, hpcmoved⟩
      rcases hmore hpc with hold | rfl
      · exact hmoved ⟨pc, hold, hpcmoved⟩
      · exact absurd hpcmoved (by simp [Pc.hasMoved])
    · rcases hmore hpc with hold | rfl
      · exact Or.inl hold
      · exact Or.inr ⟨trivial, trivial⟩
  have hne : p ≠ s.tail := by
    rintro rfl
    exact absurd (h.tailNode (hnone _ rfl)) (by simp [hfree])
  have hset (pc' : Pc α) : ((s.threads ++ [Pc.setData value]).set s.threads.length
      pc')[s.threads.length]? = some pc' := Threads.getElem?_set_self hlast
  have hend := ((hstart.setData hlast).setNext (hset _)
    ((Function.update_of_ne hne _ _).trans hfree)).setTail
    (Threads.getElem?_set_self (hset (.setNext value)))
  have hpushed (f : Pc α → Bool) (hf : f (.returned none) = false) (hf' : f .notifyOne = false) :
      ∀ pc ∈ (((s.threads ++ [Pc.setData value]).set s.threads.length (.setNext value)).set
        s.threads.length (.setTail value p)).set s.threads.length .notifyOne, f pc = false := by
    intro pc hpc
    rcases (by simpa using hpc : pc ∈ s.threads ∨ pc = .notifyOne) with hold | rfl
    · exact hnone f hf pc hold
    · exact hf'
  refine hend.quiet h.headOwner h.tailOwner (iff_of_false hmoved ?_)
    (fun _ => hpushed Pc.linking rfl rfl) (fun pc hpc => Or.inr ?_) h.failed
  · rintro ⟨pc, hpc, hpcmoved⟩
    exact absurd hpcmoved (by simp [hpushed Pc.hasMoved rfl rfl pc hpc])
  · rw [hidle pc hpc]
    exact ⟨trivial, trivial⟩

/-! ## The queue -/

/-- What the nodes hold is what has been pushed and not popped. -/
theorem Inv.stored_eq (h : s.Inv) : s.stored = s.content := by
  obtain ⟨front, rest, hshape, hle, -⟩ := h.shape
  have hjoin : ∀ nodes : List NodePtr,
      (nodes.filterMap fun a => (s.data a).join) = (nodes.map s.data).filterMap Option.join := by
    intro nodes
    rw [List.filterMap_map]
    rfl
  have hfront : (front.filterMap fun a => (s.data a).join) = [] := by
    refine List.filterMap_eq_nil_iff.2 fun a ha => ?_
    rw [hshape.moved a ha]
    rfl
  have hrest : (rest.filterMap fun a => (s.data a).join) = s.content := by
    rw [hjoin, hshape.stored, List.filterMap_map]
    exact List.filterMap_some
  have hlength : (front ++ rest).length ≤ s.pushed.length + 1 := by
    have hstored := congrArg List.length hshape.stored
    have hlaw := congrArg List.length h.law
    simp only [List.length_append, List.length_map] at hstored hlaw ⊢
    omega
  rw [stored, hshape.leads.walk_eq hshape.tail_notMem hlength, List.filterMap_append, hfront,
    hrest, List.nil_append]

theorem inv_of_reaches {n : Nat} {ok : ThreadSafeQueue α → Action α → Prop} {as : List (Action α)}
    (run : (machine α n).Reaches ok as s) : s.Inv :=
  run.invariant (fun _ hs => hs ▸ inv_new n) fun _ _ _ h _ hstep => h.step (step_cases hstep)

/-- `*head_->data` is there for a pop that moves it out. -/
theorem Inv.moveData_isSome (h : s.Inv) {pop : Pop} (hmem : .moveData pop ∈ s.threads) :
    s.moveData.isSome = true := by
  obtain ⟨rest, hshape⟩ := h.shape_whole hmem rfl rfl
  obtain ⟨_, value, _, next, -, -, hnode, -⟩ := hshape.exists_head (h.head _ hmem)
  simp [ThreadSafeQueue.moveData, hnode]

/-- `PopHead` never makes `head_` null. -/
theorem Inv.popHead_isSome (h : s.Inv) {value : Option α} (hmem : .popHead value ∈ s.threads) :
    s.popHead.isSome = true := by
  suffices hlink : ∃ data next, s.heap s.head = some ⟨data, some next⟩ by
    obtain ⟨data, next, hnode⟩ := hlink
    simp [ThreadSafeQueue.popHead, hnode]
  cases value with
  | none =>
      obtain ⟨rest, hshape⟩ := h.shape_whole hmem rfl rfl
      obtain ⟨_, value, _, next, -, -, hnode, -⟩ := hshape.exists_head (h.head _ hmem)
      exact ⟨_, next, hnode⟩
  | some value =>
      obtain ⟨front, rest, hshape, -, hfront⟩ := h.shape
      obtain ⟨a, front, rfl⟩ := List.exists_cons_of_ne_nil (hfront.2 ⟨_, hmem, rfl⟩)
      obtain ⟨rfl, next, hnext, -⟩ := hshape.leads
      obtain ⟨⟨data, _⟩, hnode, rfl⟩ := Option.bind_eq_some_iff.1 hnext
      exact ⟨data, next, hnode⟩

/-- For any number of threads and in every interleaving the nodes lead from `head_` to `tail_`, all
    of them but the last with data; what has been popped and what the nodes hold is what has been
    pushed, in order; and a `TryPop` that has failed found the queue empty. -/
theorem fifo {n : Nat} {as : List (Action α)}
    (run : (machine α n).Reaches Machine.anyStep as s) :
    (∃ nodes, Chain.Leads s.next s.head nodes s.tail ∧ s.tail ∉ nodes ∧
      ∀ a ∈ nodes, s.data a ≠ none) ∧
    ((∀ pc ∈ s.threads, pc.linking = false) → s.heap s.tail = some ⟨none, none⟩) ∧
    s.popped ++ s.stored = s.pushed ∧
    ∀ seen ∈ s.failed, seen = [] := by
  have hinv := inv_of_reaches run
  obtain ⟨front, rest, hshape, -, -⟩ := hinv.shape
  refine ⟨⟨front ++ rest, hshape.leads, hshape.tail_notMem, fun a ha => hshape.data_ne_none ha⟩,
    hinv.tailNode, ?_, hinv.failed⟩
  rw [hinv.stored_eq]
  exact hinv.law

/-- A push runs between the test of a `TryPop` on a queue with one value and its `PopHead`. -/
def popBesidePush : List (Action Nat) :=
  [.push 0 7, .next 0 0, .next 0 0, .next 0 1, .next 0 0, .next 0 0, .next 0 0, .pop 1 .tryPopValue,
    .next 1 0, .next 1 0, .next 1 0, .push 0 8, .next 0 0, .next 0 0, .next 1 0, .next 0 2,
    .next 1 0, .next 0 0]

theorem fifo_popBesidePush :
    ∃ s, (machine Nat 2).Reaches Machine.anyStep popBesidePush s ∧ s.popped = [7] ∧
      s.popped ++ s.stored = s.pushed := by
  obtain ⟨s, run, hpopped⟩ := Machine.exists_reaches_of_exec (machine Nat 2) Machine.anyStep
    (new Nat 2) popBesidePush (fun s => s.popped = [7]) rfl (by decide)
  exact ⟨s, run, hpopped, (fifo run).2.2.1⟩

end ThreadSafeQueue
