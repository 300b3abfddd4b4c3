import Muduo.Base.Bytes
import Muduo.Lib.Storage

set_option autoImplicit false

/-! # Buffer (`include/net/Buffer.h`, `src/net/Buffer.cpp`)

    prependable bytes | readable bytes | writable bytes
    0   <=   readerIndex   <=   writerIndex   <=   size

Every access to `buffer_` is checked: an operation answers `none` when the source would read or
write a byte outside the vector. The first operations count with `Nat`: they are the source on
buffers whose indices are in range and on lengths of bytes that exist, where no sum and no
difference of the source wraps around. Those of `SizeT` wrap around as `size_t` does. -/

open Storage

/-- A growing byte buffer: `buffer_`, `ReaderIndex_` and `WriterIndex_`. -/
structure Buffer where
  buffer : Bytes
  readerIndex : Nat
  writerIndex : Nat
deriving DecidableEq

namespace Buffer

def kCheapPrepend : Nat := 8

def kInitialSize : Nat := 1024

/-- The constructor. -/
def new (initialSize : Nat) : Buffer where
  buffer := List.replicate (kCheapPrepend + initialSize) 0
  readerIndex := kCheapPrepend
  writerIndex := kCheapPrepend

def readableBytes (b : Buffer) : Nat := b.writerIndex - b.readerIndex

def writeableBytes (b : Buffer) : Nat := b.buffer.length - b.writerIndex

def prependBytes (b : Buffer) : Nat := b.readerIndex

/-- The bytes from `peek()` up to `BeginWrite()`. -/
def readable (b : Buffer) : Bytes := slice b.buffer b.readerIndex b.writerIndex

/-! ## Taking bytes out -/

def retrieveAll (b : Buffer) : Buffer :=
  { b with readerIndex := kCheapPrepend, writerIndex := kCheapPrepend }

def retrieve (b : Buffer) (len : Nat) : Buffer :=
  if len < b.readableBytes then { b with readerIndex := b.readerIndex + len } else b.retrieveAll

/-- `stop` is the index that the pointer `end` of the source points at. -/
def retrieveUntil (b : Buffer) (stop : Nat) : Buffer := b.retrieve (stop - b.readerIndex)

def retrieveToString (b : Buffer) (len : Nat) : Option (Bytes × Buffer) :=
  (load b.buffer b.readerIndex len).map fun result => (result, b.retrieve len)

def retrieveAllToString (b : Buffer) : Option (Bytes × Buffer) := b.retrieveToString b.readableBytes

/-! ## Putting bytes in -/

/-- The test of `MakeSpace` that chooses the resize branch. -/
def mustResize (b : Buffer) (len : Nat) : Prop :=
  b.writeableBytes + b.prependBytes < len + kCheapPrepend

instance (b : Buffer) (len : Nat) : Decidable (b.mustResize len) :=
  inferInstanceAs (Decidable (_ < _))

/-- The branch of `MakeSpace` that does not resize. -/
def compact (b : Buffer) : Option Buffer :=
  (copyWithin b.buffer b.readerIndex kCheapPrepend b.readableBytes).map fun buffer =>
    { buffer, readerIndex := kCheapPrepend, writerIndex := kCheapPrepend + b.readableBytes }

def makeSpace (b : Buffer) (len : Nat) : Option Buffer :=
  if b.mustResize len then
    -- the new size counts from the writable bytes, not from `WriterIndex_`
    some { b with buffer := resize 0 b.buffer (b.writeableBytes + len) }
  else b.compact

def ensureWriteableBytes (b : Buffer) (len : Nat) : Option Buffer :=
  if b.writeableBytes < len then b.makeSpace len else some b

def append (b : Buffer) (data : Bytes) : Option Buffer :=
  (b.ensureWriteableBytes data.length).bind fun b =>
    (store b.buffer b.writerIndex data).map fun buffer =>
      { b with buffer, writerIndex := b.writerIndex + data.length }

/-- One `append` after the other. -/
def appendAll (b : Buffer) : List Bytes → Option Buffer
  | [] => some b
  | data :: rest => (b.append data).bind fun b => b.appendAll rest

/-! ## Reading from a descriptor -/

/-- What `readv` did: it failed with an `errno`, or delivered bytes (`n` is their number). -/
inductive Readv
  | error (errno : Nat)
  | ok (data : Bytes)
deriving DecidableEq

/-- `sizeof(extrabuf)`. -/
def extrabufSize : Nat := 65536

/-- `readv` fills the writable bytes first and `extrabuf` after them. Answers the value returned,
    what `*err` is set to, and the buffer. -/
def readFromFd (b : Buffer) : Readv → Option (Int × Option Nat × Buffer)
  | .error errno => some (-1, some errno, b)
  | .ok data =>
      let writeable := b.writeableBytes
      (store b.buffer b.writerIndex (data.take writeable)).bind fun buffer =>
        if data.length ≤ writeable then
          some (data.length, none, { b with buffer, writerIndex := b.writerIndex + data.length })
        else
          (append { b with buffer, writerIndex := buffer.length } (data.drop writeable)).map
            fun b => (data.length, none, b)

/-! ## The arithmetic of size_t

The constructor and `EnsureWriteableBytes` take any `size_t`; the sums and differences they form are
taken modulo `2^64`. A vector that there is no memory for throws; here there is always memory. -/

namespace SizeT

/-- The constructor. -/
def new (initialSize : UInt64) : Buffer where
  buffer := List.replicate (UInt64.ofNat kCheapPrepend + initialSize).toNat 0
  readerIndex := kCheapPrepend
  writerIndex := kCheapPrepend

def writeableBytes (b : Buffer) : UInt64 :=
  UInt64.ofNat b.buffer.length - UInt64.ofNat b.writerIndex

def prependBytes (b : Buffer) : UInt64 := UInt64.ofNat b.readerIndex

def mustResize (b : Buffer) (len : UInt64) : Prop :=
  writeableBytes b + prependBytes b < len + UInt64.ofNat kCheapPrepend

instance (b : Buffer) (len : UInt64) : Decidable (mustResize b len) :=
  inferInstanceAs (Decidable (_ < _))

def makeSpace (b : Buffer) (len : UInt64) : Option Buffer :=
  if mustResize b len then
    some { b with buffer := resize 0 b.buffer (writeableBytes b + len).toNat }
  else b.compact

def ensureWriteableBytes (b : Buffer) (len : UInt64) : Option Buffer :=
  if writeableBytes b < len then makeSpace b len else some b

def append (b : Buffer) (data : Bytes) : Option Buffer :=
  (ensureWriteableBytes b (UInt64.ofNat data.length)).bind fun b =>
    (store b.buffer b.writerIndex data).map fun buffer =>
      { b with buffer, writerIndex := b.writerIndex + data.length }

/-- The second area is offered when the writable bytes are fewer than it holds. -/
def iovcnt (b : Buffer) : Nat := if (writeableBytes b).toNat < extrabufSize then 2 else 1

/-- The number of bytes `readv` may deliver into the areas it is given. -/
def offered (b : Buffer) : Nat :=
  (writeableBytes b).toNat + if iovcnt b = 2 then extrabufSize else 0

def readFromFd (b : Buffer) : Readv → Option (Int × Option Nat × Buffer)
  | .error errno => some (-1, some errno, b)
  | .ok data =>
      let writeable := (writeableBytes b).toNat
      (store b.buffer b.writerIndex (data.take writeable)).bind fun buffer =>
        if data.length ≤ writeable then
          some (data.length, none, { b with buffer, writerIndex := b.writerIndex + data.length })
        else
          (append { b with buffer, writerIndex := buffer.length } (data.drop writeable)).map
            fun b => (data.length, none, b)

end SizeT

end Buffer
