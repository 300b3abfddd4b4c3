import Mathlib.Data.Int.Basic
import Muduo.Base.Bytes
import Muduo.Lib.Decimal

set_option autoImplicit false

/-! # Timestamp (`include/base/Timestamp.h`, `src/base/Timestamp.cpp`)

A point in time, or a duration, as the `int64_t` that the source adds, subtracts and compares. The
values stay inside the range of the type, so the arithmetic is that of the integers. -/

structure Timestamp where
  microSecondsSinceEpoch : Int
deriving DecidableEq

/-- A `struct timeval` as `gettimeofday` fills it in. -/
structure Timeval where
  sec : Int
  usec : Int
  usec_nonneg : 0 ≤ usec
  usec_lt : usec < 1000000

/-- The fields of `struct tm` that are printed. -/
structure Tm where
  year : Int
  mon : Int
  mday : Int
  hour : Int
  min : Int
  sec : Int

namespace Timestamp

/-- The default constructor. -/
def zero : Timestamp := ⟨0⟩

/-- `now()`, `gettimeofday` answering `tv`. -/
def now (tv : Timeval) : Timestamp := ⟨tv.sec * 1000 + tv.usec⟩

def getTime (t : Timestamp) : Int := t.microSecondsSinceEpoch

def add (t other : Timestamp) : Timestamp := ⟨t.microSecondsSinceEpoch + other.getTime⟩

def addInt (t : Timestamp) (time : Int) : Timestamp := ⟨t.microSecondsSinceEpoch + time⟩

def sub (t other : Timestamp) : Int := t.microSecondsSinceEpoch - other.getTime

instance : LT Timestamp := ⟨fun t other => t.microSecondsSinceEpoch < other.getTime⟩

instance (t other : Timestamp) : Decidable (t < other) :=
  inferInstanceAs (Decidable (t.microSecondsSinceEpoch < other.getTime))

/-! ## Formatting -/

/-- `%<width>d`. -/
def blankPadded (width : Nat) (z : Int) : Bytes :=
  List.replicate (width - (Decimal.ofInt z).length) 32 ++ Decimal.ofInt z

/-- `%0<width>d`. -/
def zeroPadded (width : Nat) (z : Int) : Bytes :=
  let sign : Bytes := if z < 0 then [45] else []
  let digits := Decimal.ofNat z.natAbs
  sign ++ List.replicate (width - sign.length - digits.length) 48 ++ digits

/-- The seconds that `toString()` computes. -/
def seconds (t : Timestamp) : Int := t.microSecondsSinceEpoch.tdiv 1000

/-- `toString()`; `snprintf` leaves room for the terminator in `buf`. -/
def toString (localtime : Int → Tm) (t : Timestamp) : Bytes :=
  let time := localtime t.seconds
  (blankPadded 4 (time.year + 1900) ++ bytes "/" ++ zeroPadded 2 (time.mon + 1) ++ bytes "/"
    ++ zeroPadded 2 time.mday ++ bytes " " ++ zeroPadded 2 time.hour ++ bytes ":"
    ++ zeroPadded 2 time.min ++ bytes ":" ++ zeroPadded 2 time.sec).take 63

end Timestamp
