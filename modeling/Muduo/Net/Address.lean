import Mathlib.Algebra.Group.Nat.Defs
import Mathlib.Data.List.Basic

set_option autoImplicit false

/-! # Address (`src/net/Addrest.cpp`)

An IPv4 address and a port, and the text that names are made of. -/

/-- `addr_`: the bytes of `sin_addr` and `sin_port` in host order. -/
structure Address where
  ip : UInt8 × UInt8 × UInt8 × UInt8
  port : UInt16
deriving DecidableEq

namespace Address

/-- `%u` of `printf`. -/
def decimal (n : Nat) : List Char := Nat.toDigits 10 n

/-- `inet_ntop` for `AF_INET`. -/
def ntop (a : Address) : List Char :=
  decimal a.ip.1.toNat ++ '.' :: decimal a.ip.2.1.toNat ++ '.' :: decimal a.ip.2.2.1.toNat ++
    '.' :: decimal a.ip.2.2.2.toNat

/-- `IpPort()` -/
def ipPort (a : Address) : List Char := a.ntop ++ ':' :: decimal a.port.toNat

theorem decimal_injective {m n : Nat} (h : decimal m = decimal n) : m = n := by
  have hvalue := congrArg (fun digits => Nat.ofDigitChars 10 digits 0) h
  simpa [decimal, Nat.ofDigitChars_ten_toDigits] using hvalue

theorem length_decimal_le {n k : Nat} (hk : 0 < k) (h : n < 10 ^ k) : (decimal n).length ≤ k :=
  (Nat.length_toDigits_le_iff (by omega) hk).2 h

/-- It fits the buffers it is printed to. -/
theorem length_ipPort_le (a : Address) : a.ipPort.length ≤ 21 := by
  have hbyte : ∀ b : UInt8, (decimal b.toNat).length ≤ 3 := fun b =>
    length_decimal_le (by omega) (Nat.lt_trans b.toNat_lt (by omega))
  have hport : (decimal a.port.toNat).length ≤ 5 :=
    length_decimal_le (by omega) (Nat.lt_trans a.port.toNat_lt (by omega))
  have h1 := hbyte a.ip.1
  have h2 := hbyte a.ip.2.1
  have h3 := hbyte a.ip.2.2.1
  have h4 := hbyte a.ip.2.2.2
  simp only [ipPort, ntop, List.length_append, List.length_cons]
  omega

end Address
