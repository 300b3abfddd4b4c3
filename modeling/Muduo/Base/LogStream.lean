import Mathlib.Algebra.Group.Int.Defs
import Muduo.Base.FixedBuffer
import Muduo.Lib.Decimal
import Muduo.Lib.Lossy
import Muduo.Lib.Storage

set_option autoImplicit false

/-! # LogStream (`include/base/LogStream.h`, `src/base/LogStream.cpp`)

A stream formats into its `FixedBuffer`, text through `append` and numbers into the memory behind
`cur_`. Every access is checked, so an insertion answers `none` exactly where the source would read
or write outside an array. -/

def kSmallBuffer : Nat := 4096

namespace FixedBuffer

/-- The buffer with its memory: the cells of `data_` and the index of `cur_`. -/
structure Memory where
  cells : Bytes
  cur : Nat

namespace Memory

def freeSize (m : Memory) : Nat := m.cells.length - m.cur

def add (m : Memory) (len : Nat) : Option Memory :=
  if m.cur + len ≤ m.cells.length then some { m with cur := m.cur + len } else none

def append (m : Memory) (msg : Bytes) : Option Memory :=
  if m.freeSize > msg.length then do
    let cells ← Storage.store m.cells m.cur msg
    { m with cells := cells }.add msg.length
  else some m

def length (m : Memory) : Nat := m.cur

def toString (m : Memory) : Bytes := Storage.slice m.cells 0 m.length

end Memory

end FixedBuffer

namespace LogStream

open FixedBuffer

def kMaxNumericSize : Nat := 32

/-! ## Integers -/

/-- The types that are formatted as integers, `long` with 64 bits. The short ones are cast to the
    next longer first. -/
inductive IntegerType
  | short
  | unsignedShort
  | int
  | unsignedInt
  | long
  | unsignedLong
  | longLong
  | unsignedLongLong
deriving DecidableEq

def IntegerType.bits : IntegerType → Nat
  | .short | .unsignedShort => 16
  | .int | .unsignedInt => 32
  | .long | .unsignedLong | .longLong | .unsignedLongLong => 64

def IntegerType.unsigned : IntegerType → Bool
  | .short | .int | .long | .longLong => false
  | .unsignedShort | .unsignedInt | .unsignedLong | .unsignedLongLong => true

def IntegerType.min (type : IntegerType) : Int :=
  if type.unsigned then 0 else -(2 ^ (type.bits - 1))

def IntegerType.max (type : IntegerType) : Int :=
  if type.unsigned then 2 ^ type.bits - 1 else 2 ^ (type.bits - 1) - 1

/-- A value of one of the types. -/
structure Integer where
  type : IntegerType
  value : Int
  min_le : type.min ≤ value
  le_max : value ≤ type.max

/-- The array, its terminator included. -/
def digits : Bytes := bytes "0123456789" ++ [0]

/-- `zero[t]`. -/
def zero (t : Int) : Option Byte := if 0 ≤ t then digits[t.toNat]? else none

/-- The digit loop of `convert`: the values that `t` takes one after the other, unless `fuel` passes
    are not enough. -/
def digitLoop : Nat → Int → Option (List Int)
  | 0, _ => none
  | fuel + 1, i =>
      let t := i.tmod 10
      let i := i.tdiv 10
      if i ≠ 0 then (digitLoop fuel i).map (t :: ·) else some [t]

/-- `convert(buf, v)`, with the memory that `buf` points into. -/
def convert (mem : Bytes) (buf : Nat) (v : Int) : Option (Bytes × Nat) := do
  let ts ← digitLoop (v.natAbs + 1) v
  let cs ← ts.mapM zero
  let cs := if v < 0 then cs ++ bytes "-" else cs
  let mem ← Storage.store mem buf (cs ++ [0])
  let p := buf + cs.length
  let mem ← Storage.store mem buf (Storage.slice mem buf p).reverse
  some (mem, p - buf)

/-- `FormatInteger(v)`. -/
def formatInteger (m : Memory) (v : Int) : Option Memory :=
  if m.freeSize > kMaxNumericSize then do
    let (cells, len) ← convert m.cells m.cur v
    { m with cells := cells }.add len
  else some m

/-! ## Insertions -/

/-- What `snprintf` writes of a `double`: `"%.12g"` has a sign, twelve digits, a point and an
    exponent of five characters at most. -/
structure DoubleText where
  text : Bytes
  length_lt : text.length < kMaxNumericSize

/-- The insertions. A `Buffer` is inserted as the string that it holds. -/
inductive Item
  | bool (v : Bool)
  | char (v : Byte)
  | cString (v : Option Bytes)
  | string (v : Bytes)
  | integer (v : Integer)
  | double (v : DoubleText)
  | append (data : Bytes)

/-- The characters in front of the terminator. -/
def cStr (v : Bytes) : Bytes := v.takeWhile (· ≠ 0)

def formatDouble (m : Memory) (v : DoubleText) : Option Memory :=
  if m.freeSize ≥ kMaxNumericSize then do
    let cells ← Storage.store m.cells m.cur (v.text ++ [0])
    { m with cells := cells }.add v.text.length
  else some m

/-- `operator<<`, and `append`. -/
def insert (m : Memory) : Item → Option Memory
  | .bool v => if v then m.append (bytes "true") else m.append (bytes "false")
  | .char v => m.append [v]
  | .cString v =>
      match v with
      | some v => m.append (cStr v)
      | none => m.append (bytes "(null)")
  | .string v => m.append v
  | .integer v => formatInteger m v.value
  | .double v => formatDouble m v
  | .append data => m.append data

/-- A new stream, and the items inserted one after the other; `data_` is not initialized. -/
def ofItems (data : Bytes) (items : List Item) : Option Memory := items.foldlM insert ⟨data, 0⟩

end LogStream
