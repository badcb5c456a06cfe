import PixelMachine.Proofs.Guards
import PixelMachine.Screen.Basic

/-! Pixels accessed with guards: the index of a pixel is worked out on machine words and has to be that
of a pixel. On a surface whose sides are 32-bit words no guard fails, whatever rectangle is painted and
whatever pixel is read. -/
namespace PixelMachine

namespace Guarded

/-- A sum of unsigned 32-bit words, or the largest of them. -/
def saturatingAdd (a b : Nat) : Nat := min (a + b) 4294967295

/-- Paints pixels of the row that begins at index `base`, with guards. -/
def paintSpan (colour : UInt32) (base : Nat) : Nat → Nat → Array UInt32 → Option (Array UInt32)
  | 0, _, pixels => some pixels
  | count + 1, column, pixels => do
    let index ← addNat base column
    if h : index < pixels.size then
      paintSpan colour base count (column + 1) (pixels.set index colour h)
    else none

/-- Paints spans in rows of `stride` pixels, with guards. -/
def paintRows (colour : UInt32) (x width stride : Nat) :
    Nat → Nat → Array UInt32 → Option (Array UInt32)
  | 0, _, pixels => some pixels
  | rows + 1, row, pixels => do
    let base ← mulNat row stride
    let pixels ← paintSpan colour base width x pixels
    paintRows colour x width stride rows (row + 1) pixels

/-- The pixels after a region is painted, with guards. -/
def fillPixels (s : Surface) (r : Region) (colour : UInt32) : Option (Array UInt32) :=
  let right := min (saturatingAdd r.x r.width) s.width
  let lower := min (saturatingAdd r.y r.height) s.height
  let x := min r.x right
  let y := min r.y lower
  paintRows colour x (right - x) s.width (lower - y) y s.pixels

/-- The surface after a region is painted, with guards. -/
def fill (s : Surface) (r : Region) (colour : UInt32) : Option Surface := do
  let pixels ← fillPixels s r colour
  if h : pixels.size = s.width * s.height then some { s with pixels := pixels, size_pixels := h }
  else none

/-- The colour of a pixel, with guards. -/
def readPixel (s : Surface) (x y : Nat) : Option UInt32 :=
  if x < s.width ∧ y < s.height then do
    let base ← mulNat y s.width
    let index ← addNat base x
    s.pixels[index]?
  else some 0

/-- The sides of a surface are 32-bit words. -/
structure Sides (s : Surface) : Prop where
  width : FitsUInt32 s.width
  height : FitsUInt32 s.height

variable {s : Surface} {colour : UInt32}

theorem Sides.area (h : Sides s) : s.width * s.height < 18446744073709551616 := by
  have hmul := Nat.mul_lt_mul'' h.width h.height
  omega

theorem paintSpan_eq {base count column : Nat} {pixels : Array UInt32}
    (hsize : pixels.size < 18446744073709551616) (h : base + column + count ≤ pixels.size) :
    paintSpan colour base count column pixels =
      some (PixelMachine.paintSpan colour count (base + column) pixels) := by
  induction count generalizing column pixels with
  | zero => rfl
  | succ count ih =>
    have hindex : base + column < pixels.size := by omega
    have hset : pixels.set (base + column) colour hindex =
        pixels.setIfInBounds (base + column) colour := by simp [Array.setIfInBounds, hindex]
    rw [paintSpan, PixelMachine.paintSpan, addNat_of_fits (by omega), Option.bind_eq_bind,
      Option.bind_some, dif_pos hindex, hset, ih (by simpa using hsize) (by rw [Array.size_setIfInBounds]; omega)]
    rfl

/-- The end of a row lies before the end of the last row. -/
theorem row_end_le {row rows stride width x : Nat} (hwidth : x + width ≤ stride) :
    row * stride + x + width ≤ (row + (rows + 1)) * stride := by
  have hrow : (row + 1) * stride ≤ (row + (rows + 1)) * stride := Nat.mul_le_mul_right _ (by omega)
  rw [Nat.succ_mul] at hrow
  omega

theorem paintRows_eq {x width stride rows row : Nat} {pixels : Array UInt32}
    (hsize : pixels.size < 18446744073709551616) (hwidth : x + width ≤ stride)
    (h : (row + rows) * stride ≤ pixels.size) :
    paintRows colour x width stride rows row pixels =
      some (PixelMachine.paintRows colour width stride rows (row * stride + x) pixels) := by
  induction rows generalizing row pixels with
  | zero => rfl
  | succ rows ih =>
    have hend := Nat.le_trans (@row_end_le row rows stride width x hwidth) h
    have hnext : row * stride + x + stride = (row + 1) * stride + x := by
      rw [Nat.succ_mul]
      omega
    rw [paintRows, PixelMachine.paintRows, mulNat_of_fits (by omega), Option.bind_eq_bind,
      Option.bind_some, paintSpan_eq hsize hend, Option.bind_eq_bind, Option.bind_some, hnext]
    apply ih
    · rwa [size_paintSpan]
    · rw [size_paintSpan]
      have hsame : row + 1 + rows = row + (rows + 1) := by omega
      rwa [hsame]

/-- Spans of no pixels paint nothing. -/
theorem paintRows_of_no_width (stride rows first : Nat) (pixels : Array UInt32) :
    PixelMachine.paintRows colour 0 stride rows first pixels = pixels := by
  induction rows generalizing first with
  | zero => rfl
  | succ rows ih => exact ih (first + stride)

/-- A sum that stops at the largest word ends on the surface where the sum itself does. -/
theorem min_saturatingAdd {a b side : Nat} (h : FitsUInt32 side) :
    min (saturatingAdd a b) side = min (a + b) side := by
  unfold saturatingAdd
  omega

theorem fillPixels_eq (h : Sides s) (r : Region) (colour : UInt32) :
    fillPixels s r colour = some (s.fill r colour).pixels := by
  have harea := h.area
  have hsize := s.size_pixels
  unfold fillPixels Surface.fill
  dsimp only
  rw [min_saturatingAdd h.width, min_saturatingAdd h.height]
  generalize hright : min (r.x + r.width) s.width = right
  generalize hlower : min (r.y + r.height) s.height = lower
  have hwithin : (min r.y lower + (lower - min r.y lower)) * s.width ≤ s.pixels.size := by
    rw [hsize, Nat.mul_comm s.width]
    exact Nat.mul_le_mul_right _ (by omega)
  rw [paintRows_eq (by omega) (by omega) hwithin]
  congr 1
  -- A rectangle that begins beyond the surface has no pixels on it.
  by_cases hx : r.x ≤ right
  · by_cases hy : r.y ≤ lower
    · rw [Nat.min_eq_left hx, Nat.min_eq_left hy]
    · have hnone : lower - min r.y lower = 0 := by omega
      have hnone' : lower - r.y = 0 := by omega
      rw [hnone, hnone']
      rfl
  · have hnone : right - min r.x right = 0 := by omega
    have hnone' : right - r.x = 0 := by omega
    rw [hnone, hnone', paintRows_of_no_width, paintRows_of_no_width]

theorem fill_eq (h : Sides s) (r : Region) (colour : UInt32) :
    fill s r colour = some (s.fill r colour) := by
  have hsize : (s.fill r colour).pixels.size = s.width * s.height := (s.fill r colour).size_pixels
  unfold fill
  rw [fillPixels_eq h, Option.bind_eq_bind, Option.bind_some, dif_pos hsize]
  rfl

theorem readPixel_eq (h : Sides s) (x y : Nat) : readPixel s x y = some (s.read x y) := by
  have harea := h.area
  have hsize := s.size_pixels
  unfold readPixel Surface.read
  split
  · next hwithin =>
    have hrow : (y + 1) * s.width ≤ s.height * s.width := Nat.mul_le_mul_right _ hwithin.2
    rw [Nat.succ_mul, Nat.mul_comm s.height] at hrow
    have hindex : y * s.width + x < s.pixels.size := by omega
    rw [mulNat_of_fits (by omega), Option.bind_eq_bind, Option.bind_some, addNat_of_fits (by omega),
      Option.bind_some, Array.getElem?_eq_getElem hindex]
    simp [Array.getD, hindex]
  · rfl

/-- The colour of a logical cell, with guards. -/
def sample (s : Screen) (x y : Float) : Option (Option UInt32) :=
  if s.holds x y (Scalar.ofNat 1) (Scalar.ofNat 1) then
    let top := Scalar.ofNat s.height - y - Scalar.ofNat 1
    (readPixel s.surface (Scalar.below ((x + Scalar.half) * s.scaleX))
      (Scalar.below ((top + Scalar.half) * s.scaleY))).map some
  else some none

theorem sample_eq {s : Screen} (h : Sides s.surface) (x y : Float) :
    sample s x y = some (s.sample? x y) := by
  unfold sample Screen.sample?
  split
  · dsimp only
    rw [readPixel_eq h]
    rfl
  · rfl

end Guarded

end PixelMachine
