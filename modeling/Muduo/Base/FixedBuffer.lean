import Muduo.Base.Bytes

set_option autoImplicit false

/-! # FixedBuffer (`include/base/LogStream.h`)

What is in `data_` before `cur_`; it never exceeds the array. -/

def kLargeBuffer : Nat := 4096 * 1024

structure FixedBuffer (size : Nat) where
  data : Bytes
  length_le : data.length ≤ size
deriving DecidableEq

namespace FixedBuffer

variable {size : Nat}

/-- The constructor, and `reset`. -/
def new (size : Nat) : FixedBuffer size := ⟨[], Nat.zero_le _⟩

def freeSize (b : FixedBuffer size) : Nat := size - b.data.length

/-- `append(msg, len)`. What does not fit is left out. -/
def append (b : FixedBuffer size) (msg : Bytes) : FixedBuffer size :=
  if h : b.freeSize > msg.length then
    { data := b.data ++ msg
      length_le := by
        rw [List.length_append]
        unfold freeSize at h
        omega }
  else b

def reset (_ : FixedBuffer size) : FixedBuffer size := new size

@[simp] theorem data_new : (new size).data = [] := rfl

@[simp] theorem freeSize_new : (new size).freeSize = size := rfl

theorem data_append {b : FixedBuffer size} {msg : Bytes} (h : b.freeSize > msg.length) :
    (b.append msg).data = b.data ++ msg := by
  simp [append, h]

theorem append_eq_self {b : FixedBuffer size} {msg : Bytes} (h : ¬ b.freeSize > msg.length) :
    b.append msg = b := dif_neg h

end FixedBuffer
