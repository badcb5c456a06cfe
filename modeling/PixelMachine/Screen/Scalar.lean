import PixelMachine.Number.Exact

/-! The arithmetic of coordinates and random draws, for floats and for exact fractions. -/
namespace PixelMachine

/-- The largest pixel coordinate. -/
def pixelLimit : Nat := 4294967295

/-- Numbers that can be scaled and rounded. `nearest` rounds halves away from zero and `below` rounds
down, both to a pixel coordinate. -/
class Scalar (α : Type) extends Add α, Sub α, Mul α, Div α where
  ofNat : Nat → α
  half : α
  le : α → α → Bool
  floor : α → α
  nearest : α → Nat
  below : α → Nat

instance : Scalar Float where
  ofNat := Float.ofNat
  half := 0.5
  le x y := decide (x ≤ y)
  floor := PixelMachine.floor
  nearest := nearestNat pixelLimit
  below := floorNat pixelLimit

instance : Scalar Rat where
  ofNat n := (n : Rat)
  half := 1 / 2
  le x y := decide (x ≤ y)
  floor x := (x.floor : Rat)
  nearest x := min pixelLimit (x + 1 / 2).floor.toNat
  below x := min pixelLimit x.floor.toNat

namespace Scalar

variable {α : Type} [Scalar α]

/-- The nearest whole number, halves going up. -/
def round (x : α) : α := floor (x + half)

/-- A random whole number below `bound`, from a sample between zero and one. -/
def draw (sample bound : α) : α := round (sample * (bound - ofNat 1))

end Scalar

end PixelMachine
