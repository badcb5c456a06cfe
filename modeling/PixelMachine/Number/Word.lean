/-! Powers, and the whole numbers that machine words hold. -/
namespace PixelMachine

/-- The powers of two. -/
def pow2 (n : Nat) : Nat := Nat.pow 2 n

/-- The powers of five. -/
def pow5 (n : Nat) : Nat := Nat.pow 5 n

/-- The powers of ten. -/
def pow10 (n : Nat) : Nat := Nat.pow 10 n

/-- The numbers of a signed 64-bit word. -/
abbrev FitsInt64 (n : Int) : Prop := -9223372036854775808 ≤ n ∧ n < 9223372036854775808

/-- The numbers of an unsigned 64-bit word. -/
abbrev FitsUInt64 (n : Nat) : Prop := n < 18446744073709551616

/-- The numbers of an unsigned 32-bit word. -/
abbrev FitsUInt32 (n : Nat) : Prop := n < 4294967296

end PixelMachine
