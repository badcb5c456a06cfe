import PixelMachine.Proofs.GuardedScreen
import PixelMachine.Proofs.Surfaces

/-! Surfaces that rectangles of any words are painted on. A rectangle colours just the pixels of its
part on the surface, also where its far edges are beyond the largest word; after a series of rectangles
a pixel shows the last one that covers it. -/
namespace PixelMachine

/-- A rectangle to be painted, given by words. -/
structure Patch where
  x : UInt32
  y : UInt32
  width : UInt32
  height : UInt32
  colour : UInt32

namespace Patch

/-- The rectangle of a patch. -/
def region (p : Patch) : Region := ⟨p.x.toNat, p.y.toNat, p.width.toNat, p.height.toNat⟩

/-- A pixel lies in the rectangle. -/
def covers (x y : Nat) (p : Patch) : Bool := decide (p.region.Covers x y)

end Patch

namespace Surface

variable {s : Surface} {x y : Nat}

/-- Nothing but black is beyond the edges. -/
theorem read_of_not_within (h : ¬ (x < s.width ∧ y < s.height)) : s.read x y = 0 :=
  if_neg h

/-- A region colours its part on the surface, and what lies beyond the edges stays black. -/
theorem read_fill_clipped (s : Surface) (r : Region) (colour : UInt32) (x y : Nat) :
    (s.fill r colour).read x y =
      if (r.x ≤ x ∧ x < min (r.x + r.width) s.width) ∧ r.y ≤ y ∧ y < min (r.y + r.height) s.height then
        colour
      else s.read x y := by
  by_cases hwithin : x < s.width ∧ y < s.height
  · have hclipped : ((r.x ≤ x ∧ x < min (r.x + r.width) s.width) ∧
        r.y ≤ y ∧ y < min (r.y + r.height) s.height) ↔ r.Covers x y := by
      simp only [Region.Covers]
      omega
    simp only [hclipped, read_fill hwithin.1 hwithin.2]
  · have hafter : (s.fill r colour).read x y = 0 := read_of_not_within hwithin
    rw [hafter, read_of_not_within hwithin, if_neg (by omega)]

/-- The surface after patches were painted in turn. -/
def patched (s : Surface) (ps : List Patch) : Surface :=
  ps.foldl (fun t p => t.fill p.region p.colour) s

@[simp] theorem patched_cons (s : Surface) (p : Patch) (ps : List Patch) :
    s.patched (p :: ps) = (s.fill p.region p.colour).patched ps := rfl

@[simp] theorem width_patched (s : Surface) (ps : List Patch) : (s.patched ps).width = s.width := by
  induction ps generalizing s with
  | nil => rfl
  | cons p ps ih => rw [patched_cons, ih, width_fill]

@[simp] theorem height_patched (s : Surface) (ps : List Patch) :
    (s.patched ps).height = s.height := by
  induction ps generalizing s with
  | nil => rfl
  | cons p ps ih => rw [patched_cons, ih, height_fill]

theorem read_black (width height x y : Nat) : (black width height).read x y = 0 := by
  unfold read black
  dsimp only
  split
  · rw [Array.getD_eq_getD_getElem?, Array.getElem?_replicate]
    split <;> rfl
  · rfl

/-- A pixel shows the last patch that covers it. -/
theorem read_patched (ps : List Patch) (hx : x < s.width) (hy : y < s.height) :
    (s.patched ps).read x y = ((ps.findRev? (Patch.covers x y)).map Patch.colour).getD (s.read x y) := by
  induction ps generalizing s with
  | nil => rfl
  | cons p ps ih =>
    have hlater := @ih (s.fill p.region p.colour) hx hy
    rw [patched_cons, hlater, read_fill hx hy, List.findRev?]
    -- A later patch hides this one; else it is the last one that can cover the pixel.
    rcases ps.findRev? (Patch.covers x y) with _ | later
    · by_cases hcovers : p.region.Covers x y
      · simp [Patch.covers, hcovers]
      · simp [Patch.covers, hcovers]
    · rfl

end Surface

namespace Guarded

variable {s : Surface}

theorem Sides.patched (h : Sides s) (ps : List Patch) : Sides (s.patched ps) := by
  constructor
  · rw [Surface.width_patched]
    exact h.width
  · rw [Surface.height_patched]
    exact h.height

/-- Painting in turn passes all guards. -/
theorem foldlM_fill (h : Sides s) (ps : List Patch) :
    ps.foldlM (fun t p => fill t p.region p.colour) s = some (s.patched ps) := by
  induction ps generalizing s with
  | nil => rfl
  | cons p ps ih =>
    have hnext : Sides (s.fill p.region p.colour) := ⟨h.width, h.height⟩
    rw [List.foldlM_cons, fill_eq h, Option.bind_eq_bind, Option.bind_some, ih hnext,
      Surface.patched_cons]

end Guarded

namespace Surface

/-- A rectangle of any words paints just its part on the surface. A surface that was black and had
patches painted on it has all its pixels, none of the guards on words and indices has failed, and each
pixel shows the last patch that covers it; beyond the edges all is black. One more patch passes the
guards too, and colours the pixels between its edges and those of the surface, the sums of words being
taken without a bound. -/
theorem patch_paints_clipped_rectangle (width height : UInt32) (ps : List Patch) :
    ∃ s, ps.foldlM (fun t p => Guarded.fill t p.region p.colour) (black width.toNat height.toNat)
        = some s ∧
      s = ps.foldl (fun t p => t.fill p.region p.colour) (black width.toNat height.toNat) ∧
      s.pixels.size = width.toNat * height.toNat ∧
      (∀ px py, Guarded.readPixel s px py = some (s.read px py) ∧ s.read px py =
        if px < width.toNat ∧ py < height.toNat then
          ((ps.findRev? (Patch.covers px py)).map Patch.colour).getD 0
        else 0) ∧
      ∀ p : Patch, Guarded.fill s p.region p.colour = some (s.fill p.region p.colour) ∧
        ∀ px py, (s.fill p.region p.colour).read px py =
          if (p.x.toNat ≤ px ∧ px < min (p.x.toNat + p.width.toNat) width.toNat) ∧
              p.y.toNat ≤ py ∧ py < min (p.y.toNat + p.height.toNat) height.toNat then p.colour
          else s.read px py := by
  have hsides : Guarded.Sides (black width.toNat height.toNat) :=
    ⟨width.toNat_lt, height.toNat_lt⟩
  have hwidth : ((black width.toNat height.toNat).patched ps).width = width.toNat := width_patched _ ps
  have hheight : ((black width.toNat height.toNat).patched ps).height = height.toNat :=
    height_patched _ ps
  refine ⟨_, Guarded.foldlM_fill hsides ps, rfl, ?_, ?_, ?_⟩
  · rw [size_pixels, hwidth, hheight]
  · intro px py
    refine ⟨Guarded.readPixel_eq (hsides.patched ps) px py, ?_⟩
    split
    · next hwithin => rw [read_patched ps hwithin.1 hwithin.2, read_black]
    · next hbeyond => exact read_of_not_within (by rwa [hwidth, hheight])
  · intro p
    refine ⟨Guarded.fill_eq (hsides.patched ps) p.region p.colour, ?_⟩
    intro px py
    rw [read_fill_clipped, hwidth, hheight]
    rfl

/-- A patch that reaches to the largest word is cut at the edges. -/
example : ((black 3 2).patched [⟨1, 1, 4294967295, 4294967295, 7⟩]).rows = [[0, 0, 0], [0, 7, 7]] := by
  decide

end Surface

end PixelMachine
