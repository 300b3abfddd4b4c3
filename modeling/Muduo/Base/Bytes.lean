import Mathlib.Data.List.Basic

set_option autoImplicit false

/-! # Bytes

The `char`s that the buffers, the parser and the sockets exchange. -/

abbrev Byte := UInt8

abbrev Bytes := List Byte

/-- The characters of an ASCII literal. -/
def bytes (s : String) : Bytes := s.toList.map fun c => c.toNat.toUInt8
