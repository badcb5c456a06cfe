/-! Surfaces: rectangles of pixels, addressed from the top left. -/
namespace PixelMachine

/-- A rectangle of physical pixels. -/
structure Region where
  x : Nat
  y : Nat
  width : Nat
  height : Nat
  deriving DecidableEq, Repr

/-- Paints `count` pixels in a row from index `first` on. -/
def paintSpan (colour : UInt32) : Nat → Nat → Array UInt32 → Array UInt32
  | 0, _, pixels => pixels
  | count + 1, first, pixels => paintSpan colour count (first + 1) (pixels.setIfInBounds first colour)

/-- Paints spans of `width` pixels in `rows` rows; `first` is the index of the first pixel and
`stride` the distance between rows. -/
def paintRows (colour : UInt32) (width stride : Nat) : Nat → Nat → Array UInt32 → Array UInt32
  | 0, _, pixels => pixels
  | rows + 1, first, pixels =>
    paintRows colour width stride rows (first + stride) (paintSpan colour width first pixels)

@[simp] theorem size_paintSpan (colour : UInt32) : ∀ (count first : Nat) (pixels : Array UInt32),
    (paintSpan colour count first pixels).size = pixels.size
  | 0, _, _ => rfl
  | count + 1, first, pixels => by simp [paintSpan, size_paintSpan colour count]

@[simp] theorem size_paintRows (colour : UInt32) (width stride : Nat) :
    ∀ (rows first : Nat) (pixels : Array UInt32),
      (paintRows colour width stride rows first pixels).size = pixels.size
  | 0, _, _ => rfl
  | rows + 1, first, pixels => by simp [paintRows, size_paintRows colour width stride rows]

/-- Packed colours, row after row from the top. -/
structure Surface where
  width : Nat
  height : Nat
  pixels : Array UInt32
  size_pixels : pixels.size = width * height

namespace Surface

/-- A black surface. -/
def black (width height : Nat) : Surface := ⟨width, height, Array.replicate (width * height) 0, by simp⟩

/-- Paints a region; what lies outside the surface is left out. -/
def fill (s : Surface) (r : Region) (colour : UInt32) : Surface :=
  let right := min (r.x + r.width) s.width
  let lower := min (r.y + r.height) s.height
  { s with
    pixels := paintRows colour (right - r.x) s.width (lower - r.y) (r.y * s.width + r.x) s.pixels
    size_pixels := by simp [s.size_pixels] }

/-- The colour of a pixel; outside the surface it is black. -/
def read (s : Surface) (x y : Nat) : UInt32 :=
  if x < s.width ∧ y < s.height then s.pixels.getD (y * s.width + x) 0 else 0

/-- The rows of the surface from the top. -/
def rows (s : Surface) : List (List UInt32) :=
  (List.range s.height).map fun y => (List.range s.width).map fun x => s.read x y

end Surface

end PixelMachine
