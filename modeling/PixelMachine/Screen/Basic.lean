import PixelMachine.Screen.Scalar
import PixelMachine.Screen.Surface

/-! The screen of a program: a grid of logical cells, counted from the bottom left, scaled onto a
surface. -/
namespace PixelMachine

/-- A surface and the size of the logical grid on it. -/
structure Screen where
  surface : Surface
  width : Nat
  height : Nat

namespace Screen

variable {α : Type} [Scalar α]

/-- A logical rectangle lies on the grid. -/
def holds (s : Screen) (x y w h : α) : Bool :=
  Scalar.le (Scalar.ofNat 0) x && Scalar.le (Scalar.ofNat 0) y
    && Scalar.le (x + w) (Scalar.ofNat s.width) && Scalar.le (y + h) (Scalar.ofNat s.height)

/-- Pixels to a logical column. -/
def scaleX (s : Screen) : α := Scalar.ofNat s.surface.width / Scalar.ofNat s.width

/-- Pixels to a logical row. -/
def scaleY (s : Screen) : α := Scalar.ofNat s.surface.height / Scalar.ofNat s.height

/-- The pixels of a logical rectangle: each edge goes to the nearest pixel boundary. -/
def region? (s : Screen) (x y w h : α) : Option Region :=
  if s.holds x y w h then
    let top := Scalar.ofNat s.height - y - h
    let left := Scalar.nearest (x * s.scaleX)
    let right := Scalar.nearest ((x + w) * s.scaleX)
    let upper := Scalar.nearest (top * s.scaleY)
    let lower := Scalar.nearest ((top + h) * s.scaleY)
    some ⟨left, upper, right - left, lower - upper⟩
  else none

/-- The colour of a logical cell, taken at its centre. -/
def sample? (s : Screen) (x y : α) : Option UInt32 :=
  if s.holds x y (Scalar.ofNat 1) (Scalar.ofNat 1) then
    let top := Scalar.ofNat s.height - y - Scalar.ofNat 1
    some (s.surface.read (Scalar.below ((x + Scalar.half) * s.scaleX))
      (Scalar.below ((top + Scalar.half) * s.scaleY)))
  else none

/-- The screen after a region of its surface is painted. -/
def paint (s : Screen) (r : Region) (colour : UInt32) : Screen :=
  { s with surface := s.surface.fill r colour }

end Screen

end PixelMachine
