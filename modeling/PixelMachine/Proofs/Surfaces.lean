import PixelMachine.Screen.Surface

/-! What a painted surface shows: the colour inside the region, and what was there before elsewhere. -/
namespace PixelMachine

theorem getElem?_paintSpan (colour : UInt32) (count first : Nat) (pixels : Array UInt32) (i : Nat) :
    (paintSpan colour count first pixels)[i]? =
      if first ≤ i ∧ i < first + count ∧ i < pixels.size then some colour else pixels[i]? := by
  induction count generalizing first pixels with
  | zero =>
    rw [paintSpan, if_neg (by omega)]
  | succ count ih =>
    rw [paintSpan, ih, Array.size_setIfInBounds, Array.getElem?_setIfInBounds]
    by_cases hfirst : first = i
    · subst hfirst
      rw [if_neg (by omega), if_pos rfl]
      by_cases hsize : first < pixels.size
      · rw [if_pos hsize, if_pos (by omega)]
      · rw [if_neg hsize, if_neg (by omega), Array.getElem?_eq_none (by omega)]
    · rw [if_neg hfirst]
      by_cases hspan : first + 1 ≤ i ∧ i < first + 1 + count ∧ i < pixels.size
      · rw [if_pos hspan, if_pos (by omega)]
      · rw [if_neg hspan, if_neg (by omega)]

/-- The indices that `rows` spans of `width` pixels cover, when the first of them begins at `first`. -/
def InSpans (width stride rows first i : Nat) : Prop :=
  ∃ k, k < rows ∧ first + k * stride ≤ i ∧ i < first + k * stride + width

theorem inSpans_succ {width stride rows first i : Nat} :
    InSpans width stride (rows + 1) first i ↔
      (first ≤ i ∧ i < first + width) ∨ InSpans width stride rows (first + stride) i := by
  constructor
  · rintro ⟨k, hk, hlow, hhigh⟩
    cases k with
    | zero => exact .inl (by omega)
    | succ k =>
      rw [Nat.succ_mul] at hlow hhigh
      exact .inr ⟨k, by omega, by omega, by omega⟩
  · rintro (⟨hlow, hhigh⟩ | ⟨k, hk, hlow, hhigh⟩)
    · exact ⟨0, by omega, by omega, by omega⟩
    · refine ⟨k + 1, by omega, ?_, ?_⟩
      · rw [Nat.succ_mul]
        omega
      · rw [Nat.succ_mul]
        omega

theorem getElem?_paintRows_of_not_inSpans {colour : UInt32} {width stride rows first i : Nat}
    {pixels : Array UInt32} (h : ¬ InSpans width stride rows first i) :
    (paintRows colour width stride rows first pixels)[i]? = pixels[i]? := by
  induction rows generalizing first pixels with
  | zero => rfl
  | succ rows ih =>
    rw [inSpans_succ, not_or] at h
    rw [paintRows, ih h.2, getElem?_paintSpan, if_neg fun hspan => h.1 ⟨hspan.1, hspan.2.1⟩]

theorem getElem?_paintRows_of_inSpans {colour : UInt32} {width stride rows first i : Nat}
    {pixels : Array UInt32} (h : InSpans width stride rows first i) (hi : i < pixels.size) :
    (paintRows colour width stride rows first pixels)[i]? = some colour := by
  induction rows generalizing first pixels with
  | zero =>
    obtain ⟨k, hk, _⟩ := h
    omega
  | succ rows ih =>
    have hsize : i < (paintSpan colour width first pixels).size := by rwa [size_paintSpan]
    by_cases hlater : InSpans width stride rows (first + stride) i
    · exact ih hlater hsize
    · -- No later span covers the pixel, so that the first one does and the others leave it.
      have hspan : first ≤ i ∧ i < first + width := (inSpans_succ.mp h).resolve_right hlater
      rw [paintRows, getElem?_paintRows_of_not_inSpans hlater, getElem?_paintSpan,
        if_pos ⟨hspan.1, hspan.2, hi⟩]

/-- A pixel lies in a region. -/
abbrev Region.Covers (r : Region) (x y : Nat) : Prop :=
  (r.x ≤ x ∧ x < r.x + r.width) ∧ r.y ≤ y ∧ y < r.y + r.height

namespace Surface

variable {s : Surface} {r : Region} {x y : Nat}

@[simp] theorem width_fill (s : Surface) (r : Region) (colour : UInt32) :
    (s.fill r colour).width = s.width := rfl

@[simp] theorem height_fill (s : Surface) (r : Region) (colour : UInt32) :
    (s.fill r colour).height = s.height := rfl

/-- A place in a row is found again from the index of its pixel. -/
theorem row_of_index {width row row' column column' : Nat} (hcolumn : column < width)
    (hcolumn' : column' < width) (h : row * width + column = row' * width + column') :
    row = row' ∧ column = column' := by
  have hrow : row = row' := by
    have hdiv : (row * width + column) / width = (row' * width + column') / width := by rw [h]
    rwa [Nat.mul_comm row, Nat.mul_comm row', Nat.mul_add_div (by omega), Nat.mul_add_div (by omega),
      Nat.div_eq_of_lt hcolumn, Nat.div_eq_of_lt hcolumn', Nat.add_zero, Nat.add_zero] at hdiv
  subst hrow
  exact ⟨rfl, by omega⟩

/-- The spans that a region's painting covers are the pixels of the region on the surface. -/
theorem inSpans_iff_covers (hx : x < s.width) (hy : y < s.height) :
    InSpans (min (r.x + r.width) s.width - r.x) s.width (min (r.y + r.height) s.height - r.y)
        (r.y * s.width + r.x) (y * s.width + x) ↔ r.Covers x y := by
  have hnext (k : Nat) : r.y * s.width + r.x + k * s.width = (r.y + k) * s.width + r.x := by
    rw [Nat.add_mul]
    omega
  constructor
  · rintro ⟨k, hk, hlow, hhigh⟩
    rw [hnext] at hlow hhigh
    generalize hcolumn : y * s.width + x - (r.y + k) * s.width = column at *
    have hindex : y * s.width + x = (r.y + k) * s.width + column := by omega
    obtain ⟨rfl, rfl⟩ := row_of_index hx (by omega) hindex
    exact ⟨by omega, by omega⟩
  · rintro ⟨hcolumn, hrow⟩
    refine ⟨y - r.y, by omega, ?_, ?_⟩
    · rw [hnext, Nat.add_sub_cancel' hrow.1]
      omega
    · rw [hnext, Nat.add_sub_cancel' hrow.1]
      omega

/-- Reading after painting. -/
theorem read_fill (hx : x < s.width) (hy : y < s.height) (colour : UInt32) :
    (s.fill r colour).read x y = if r.Covers x y then colour else s.read x y := by
  have hindex : y * s.width + x < s.pixels.size := by
    have hrow : (y + 1) * s.width ≤ s.height * s.width := Nat.mul_le_mul_right _ hy
    rw [Nat.succ_mul, Nat.mul_comm s.height] at hrow
    rw [s.size_pixels]
    omega
  have hafter : (s.fill r colour).read x y
      = (s.fill r colour).pixels.getD (y * s.width + x) 0 := if_pos ⟨hx, hy⟩
  have hbefore : s.read x y = s.pixels.getD (y * s.width + x) 0 := if_pos ⟨hx, hy⟩
  rw [hafter, hbefore, Array.getD_eq_getD_getElem?, Array.getD_eq_getD_getElem?, fill]
  by_cases hcovers : r.Covers x y
  · have hspans := (inSpans_iff_covers hx hy).mpr hcovers
    rw [if_pos hcovers, getElem?_paintRows_of_inSpans hspans hindex, Option.getD_some]
  · have hspans := fun h => hcovers ((inSpans_iff_covers hx hy).mp h)
    rw [if_neg hcovers, getElem?_paintRows_of_not_inSpans hspans]

/-- A surface is known by its size and the colours that are read from it. -/
theorem eq_of_read {s t : Surface} (hwidth : s.width = t.width) (hheight : s.height = t.height)
    (h : ∀ x y, x < s.width → y < s.height → s.read x y = t.read x y) : s = t := by
  have hpixels : s.pixels = t.pixels := by
    apply Array.ext
    · rw [s.size_pixels, t.size_pixels, hwidth, hheight]
    · intro i hi hi'
      have harea : i < s.width * s.height := by rwa [← s.size_pixels]
      have hpos : 0 < s.width := Nat.pos_of_mul_pos_right (Nat.zero_lt_of_lt harea)
      have hcolumn : i % s.width < s.width := Nat.mod_lt i hpos
      have hrow : i / s.width < s.height := Nat.div_lt_of_lt_mul harea
      have hindex : i / s.width * s.width + i % s.width = i := Nat.div_add_mod' i s.width
      have hs : s.read (i % s.width) (i / s.width) = s.pixels[i] := by
        rw [read, if_pos ⟨hcolumn, hrow⟩, hindex, Array.getD_eq_getD_getElem?,
          Array.getElem?_eq_getElem hi, Option.getD_some]
      have ht : t.read (i % s.width) (i / s.width) = t.pixels[i] := by
        rw [read, if_pos ⟨hwidth ▸ hcolumn, hheight ▸ hrow⟩, ← hwidth, hindex,
          Array.getD_eq_getD_getElem?, Array.getElem?_eq_getElem hi', Option.getD_some]
      rw [← hs, ← ht, h _ _ hcolumn hrow]
  cases s
  cases t
  cases hwidth
  cases hheight
  cases hpixels
  rfl

end Surface

end PixelMachine
