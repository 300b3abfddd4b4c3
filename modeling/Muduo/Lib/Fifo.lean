set_option autoImplicit false

/-! # First-in-first-out queues with their history

A `Fifo` remembers everything that was ever pushed and everything that was popped, and carries the
law that ties both to its content: what was popped, followed by what is inside, is what was pushed.
Nothing is lost, duplicated or reordered in any value of the type, so a component whose operations
keep its content in step with `Fifo.run` inherits the law. -/

universe u

/-- A queue, everything pushed to it and everything popped from it, oldest first. -/
structure Fifo (α : Type u) where
  pushed : List α
  popped : List α
  content : List α
  /-- No element is lost, duplicated or moved past another. -/
  law : popped ++ content = pushed

namespace Fifo

variable {α : Type u}

def empty : Fifo α := ⟨[], [], [], rfl⟩

/-- Put `xs` behind the content. -/
def push (q : Fifo α) (xs : List α) : Fifo α :=
  ⟨q.pushed ++ xs, q.popped, q.content ++ xs, by rw [← List.append_assoc, q.law]⟩

/-- Take the first `n` elements out (all of them when there are fewer). -/
def pop (q : Fifo α) (n : Nat) : Fifo α :=
  ⟨q.pushed, q.popped ++ q.content.take n, q.content.drop n, by
    rw [List.append_assoc, List.take_append_drop, q.law]⟩

@[simp] theorem content_empty : (empty : Fifo α).content = [] := rfl
@[simp] theorem pushed_empty : (empty : Fifo α).pushed = [] := rfl

@[simp] theorem popped_empty : (empty : Fifo α).popped = [] := rfl

@[simp] theorem content_push (q : Fifo α) (xs : List α) :
    (q.push xs).content = q.content ++ xs := rfl

@[simp] theorem pushed_push (q : Fifo α) (xs : List α) : (q.push xs).pushed = q.pushed ++ xs := rfl

@[simp] theorem popped_push (q : Fifo α) (xs : List α) : (q.push xs).popped = q.popped := rfl

@[simp] theorem content_pop (q : Fifo α) (n : Nat) : (q.pop n).content = q.content.drop n := rfl
@[simp] theorem pushed_pop (q : Fifo α) (n : Nat) : (q.pop n).pushed = q.pushed := rfl

@[simp] theorem popped_pop (q : Fifo α) (n : Nat) :
    (q.pop n).popped = q.popped ++ q.content.take n := rfl

/-! ## Operations -/

inductive Op (α : Type u)
  | push (xs : List α)
  | pop (n : Nat)
  | clear

def apply (q : Fifo α) : Op α → Fifo α
  | .push xs => q.push xs
  | .pop n => q.pop n
  | .clear => q.pop q.content.length

/-- The queue a sequence of operations makes of the empty one. -/
def run (ops : List (Op α)) : Fifo α := ops.foldl apply empty

theorem run_concat (ops : List (Op α)) (op : Op α) : run (ops ++ [op]) = (run ops).apply op := by
  simp [run]

end Fifo
