import Mathlib.Data.Rat.Floor
import Mathlib.Tactic.Linarith
import Mathlib.Tactic.Positivity
import Mathlib.Tactic.FieldSimp
import Mathlib.Tactic.Ring
import PixelMachine.Proofs.GuardedScreen
import PixelMachine.Proofs.History
import PixelMachine.Proofs.Surfaces

/-! The screen as an array of logical cells. In exact arithmetic a painted rectangle of cells shows its
colour in those cells and changes no other, whatever the ratio of pixels to cells. -/
namespace PixelMachine

namespace Screen

variable {α : Type} [Scalar α]

/-- A number as a packed colour; a fraction is dropped. -/
def packed? (c : α) : Option UInt32 :=
  if Scalar.le (Scalar.ofNat 0) c && Scalar.le c (Scalar.ofNat colourLimit) then
    some (min colourLimit (Scalar.below c)).toUInt32
  else none

/-- The screen after `writebox`. -/
def writebox? (s : Screen) (x y w h c : α) : Option Screen :=
  (s.region? x y w h).bind fun region => (packed? c).map (s.paint region)

/-- The screen after `write`, which paints one cell. -/
def write? (s : Screen) (x y c : α) : Option Screen :=
  s.writebox? x y (Scalar.ofNat 1) (Scalar.ofNat 1) c

/-- The screen after `clear`, which paints all cells. -/
def clear? (s : Screen) (c : α) : Option Screen :=
  s.writebox? (Scalar.ofNat 0) (Scalar.ofNat 0) (Scalar.ofNat s.width) (Scalar.ofNat s.height) c

end Screen

/-! Edges and middles along one side of the screen, where `cells` cells lie on `pixels` pixels. -/

/-- The pixel boundary nearest to the edge before a cell. -/
def edge (cells pixels a : ℕ) : ℕ := Scalar.nearest ((a : ℚ) * ((pixels : ℚ) / cells))

/-- The pixel in the middle of a cell. -/
def middle (cells pixels a : ℕ) : ℕ := Scalar.below (((a : ℚ) + 1 / 2) * ((pixels : ℚ) / cells))

/-- There are cells, no more of them than pixels, and the pixels are counted by a word. -/
structure Divides (cells pixels : ℕ) : Prop where
  pos : 1 ≤ cells
  le : cells ≤ pixels
  word : FitsUInt32 pixels

section

variable {cells pixels a x : ℕ}

theorem Divides.one_le_ratio (h : Divides cells pixels) : (1 : ℚ) ≤ (pixels : ℚ) / cells := by
  have hpos : (0 : ℚ) < cells := by exact_mod_cast h.pos
  have hle : (cells : ℚ) ≤ pixels := by exact_mod_cast h.le
  rwa [le_div_iff₀ hpos, one_mul]

/-- The edge before a cell does not lie behind the cell's middle. -/
theorem edge_le_middle (h : Divides cells pixels) (ha : a ≤ x) :
    edge cells pixels a ≤ middle cells pixels x := by
  have hratio := h.one_le_ratio
  have hcast : (a : ℚ) ≤ x := by exact_mod_cast ha
  have hle : (a : ℚ) * ((pixels : ℚ) / cells) + 1 / 2
      ≤ ((x : ℚ) + 1 / 2) * ((pixels : ℚ) / cells) := by
    generalize (pixels : ℚ) / cells = ratio at hratio ⊢
    nlinarith
  have hfloor := Int.toNat_le_toNat (Int.floor_le_floor hle)
  exact min_le_min_left _ hfloor

/-- The middle of a cell is a pixel of the surface. -/
theorem middle_lt (h : Divides cells pixels) (hx : x < cells) :
    middle cells pixels x < pixels := by
  have hcells : (0 : ℚ) < cells := by exact_mod_cast h.pos
  have hpixels : (0 : ℚ) < pixels := by exact_mod_cast Nat.lt_of_lt_of_le h.pos h.le
  have hx : (x : ℚ) + 1 ≤ cells := by exact_mod_cast hx
  have hlt : ((x : ℚ) + 1 / 2) * ((pixels : ℚ) / cells) < pixels := by
    calc ((x : ℚ) + 1 / 2) * ((pixels : ℚ) / cells) < cells * ((pixels : ℚ) / cells) := by
          apply mul_lt_mul_of_pos_right _ (by positivity)
          linarith
      _ = pixels := by field_simp
  have hfloor : ⌊((x : ℚ) + 1 / 2) * ((pixels : ℚ) / cells)⌋ < pixels := by
    rw [Int.floor_lt]
    exact_mod_cast hlt
  have hmiddle : middle cells pixels x
      ≤ ⌊((x : ℚ) + 1 / 2) * ((pixels : ℚ) / cells)⌋.toNat := min_le_right _ _
  have hpos := Nat.lt_of_lt_of_le h.pos h.le
  omega

/-- The edge behind a cell lies behind its middle. -/
theorem middle_lt_edge (h : Divides cells pixels) (hx : x < a) (ha : a ≤ cells) :
    middle cells pixels x < edge cells pixels a := by
  have hratio := h.one_le_ratio
  have hcast : (x : ℚ) + 1 ≤ a := by exact_mod_cast hx
  have hle : ((x : ℚ) + 1 / 2) * ((pixels : ℚ) / cells) + 1
      ≤ (a : ℚ) * ((pixels : ℚ) / cells) + 1 / 2 := by
    generalize (pixels : ℚ) / cells = ratio at hratio ⊢
    nlinarith
  have hfloor : ⌊((x : ℚ) + 1 / 2) * ((pixels : ℚ) / cells)⌋ + 1
      ≤ ⌊(a : ℚ) * ((pixels : ℚ) / cells) + 1 / 2⌋ := by
    rw [← Int.floor_add_one]
    exact Int.floor_le_floor hle
  have hnonneg : 0 ≤ ⌊((x : ℚ) + 1 / 2) * ((pixels : ℚ) / cells)⌋ :=
    Int.floor_nonneg.mpr (by positivity)
  have hlimit : middle cells pixels x < pixelLimit := by
    have hmiddle := middle_lt h (Nat.lt_of_lt_of_le hx ha)
    have hword := h.word
    unfold pixelLimit
    omega
  have hmiddle : middle cells pixels x
      = min pixelLimit ⌊((x : ℚ) + 1 / 2) * ((pixels : ℚ) / cells)⌋.toNat := rfl
  have hedge : edge cells pixels a
      = min pixelLimit ⌊(a : ℚ) * ((pixels : ℚ) / cells) + 1 / 2⌋.toNat := rfl
  omega

/-- An edge lies at or before the middle of just the cells behind it. -/
theorem edge_le_middle_iff (h : Divides cells pixels) (ha : a ≤ cells) :
    edge cells pixels a ≤ middle cells pixels x ↔ a ≤ x := by
  constructor
  · intro hle
    by_contra hlt
    have hmiddle := middle_lt_edge h (Nat.lt_of_not_le hlt) ha
    omega
  · exact edge_le_middle h

end

/-- The logical grid of a screen lies on its surface, which is counted by words. -/
structure Screen.Fits (s : Screen) : Prop where
  columns : Divides s.width s.surface.width
  rows : Divides s.height s.surface.height

namespace Screen

variable {s s' : Screen}

theorem floor_le_colourLimit {c : ℚ} (hc : c ≤ (colourLimit : ℕ)) : ⌊c⌋ ≤ (colourLimit : ℕ) := by
  have hle : ((⌊c⌋ : ℤ) : ℚ) ≤ (colourLimit : ℕ) := (Int.floor_le c).trans hc
  exact_mod_cast hle

theorem packed?_rat (c : ℚ) : packed? c =
    if 0 ≤ c ∧ c ≤ (colourLimit : ℕ) then some ⌊c⌋.toNat.toUInt32 else none := by
  have hpacked : packed? c = if decide ((0 : ℚ) ≤ c) && decide (c ≤ (colourLimit : ℕ)) then
      some (min colourLimit (min pixelLimit ⌊c⌋.toNat)).toUInt32 else none := rfl
  rw [hpacked]
  by_cases hc : 0 ≤ c ∧ c ≤ (colourLimit : ℕ)
  · have hfloor := floor_le_colourLimit hc.2
    have hmin : min colourLimit (min pixelLimit ⌊c⌋.toNat) = ⌊c⌋.toNat := by
      unfold colourLimit pixelLimit at *
      omega
    rw [if_pos hc, hmin, if_pos (by simpa using hc)]
  · rw [if_neg hc, if_neg (by simpa using hc)]

theorem holds_rat {x y w h : ℚ} : s.holds x y w h = true ↔
    ((0 ≤ x ∧ 0 ≤ y) ∧ x + w ≤ s.width) ∧ y + h ≤ s.height := by
  have hholds : s.holds x y w h = (decide ((0 : ℚ) ≤ x) && decide ((0 : ℚ) ≤ y)
      && decide (x + w ≤ s.width) && decide (y + h ≤ s.height)) := rfl
  simp only [hholds, Bool.and_eq_true, decide_eq_true_eq]

/-- A rectangle of cells on the grid is painted between the edges of its cells. Rows are counted from
the bottom, pixels from the top. -/
theorem region?_of_cells {x y w h : ℕ} (hx : x + w ≤ s.width) (hy : y + h ≤ s.height) :
    s.region? (x : ℚ) y w h = some
      ⟨edge s.width s.surface.width x, edge s.height s.surface.height (s.height - (y + h)),
        edge s.width s.surface.width (x + w) - edge s.width s.surface.width x,
        edge s.height s.surface.height (s.height - y)
          - edge s.height s.surface.height (s.height - (y + h))⟩ := by
  have hholds : s.holds (x : ℚ) y w h = true := by
    have hx : (x : ℚ) + w ≤ s.width := by exact_mod_cast hx
    have hy : (y : ℚ) + h ≤ s.height := by exact_mod_cast hy
    exact holds_rat.mpr ⟨⟨⟨Nat.cast_nonneg x, Nat.cast_nonneg y⟩, hx⟩, hy⟩
  have hright : (x : ℚ) + w = ((x + w : ℕ) : ℚ) := by push_cast; ring
  have htop : (s.height : ℚ) - y - h = ((s.height - (y + h) : ℕ) : ℚ) := by
    rw [Nat.cast_sub hy]
    push_cast
    ring
  have hbottom : (s.height : ℚ) - y - h + h = ((s.height - y : ℕ) : ℚ) := by
    rw [Nat.cast_sub (by omega)]
    ring
  have hregion : s.region? (x : ℚ) y w h = some
      ⟨Scalar.nearest ((x : ℚ) * ((s.surface.width : ℚ) / s.width)),
        Scalar.nearest (((s.height : ℚ) - y - h) * ((s.surface.height : ℚ) / s.height)),
        Scalar.nearest (((x : ℚ) + w) * ((s.surface.width : ℚ) / s.width))
          - Scalar.nearest ((x : ℚ) * ((s.surface.width : ℚ) / s.width)),
        Scalar.nearest (((s.height : ℚ) - y - h + h) * ((s.surface.height : ℚ) / s.height))
          - Scalar.nearest (((s.height : ℚ) - y - h) * ((s.surface.height : ℚ) / s.height))⟩ :=
    if_pos hholds
  rw [hregion, hright, hbottom, htop]
  rfl

/-- A cell on the grid shows the pixel in its middle. -/
theorem sample?_of_cell {x y : ℕ} (hx : x < s.width) (hy : y < s.height) :
    s.sample? (x : ℚ) y = some (s.surface.read (middle s.width s.surface.width x)
      (middle s.height s.surface.height (s.height - (y + 1)))) := by
  have hholds : s.holds (x : ℚ) y (1 : ℚ) 1 = true := by
    have hx : (x : ℚ) + 1 ≤ s.width := by exact_mod_cast hx
    have hy : (y : ℚ) + 1 ≤ s.height := by exact_mod_cast hy
    exact holds_rat.mpr ⟨⟨⟨Nat.cast_nonneg x, Nat.cast_nonneg y⟩, hx⟩, hy⟩
  have htop : (s.height : ℚ) - y - 1 = ((s.height - (y + 1) : ℕ) : ℚ) := by
    rw [Nat.cast_sub hy]
    push_cast
    ring
  have hsample : s.sample? (x : ℚ) y = some (s.surface.read
      (Scalar.below (((x : ℚ) + 1 / 2) * ((s.surface.width : ℚ) / s.width)))
      (Scalar.below (((s.height : ℚ) - y - 1 + 1 / 2) * ((s.surface.height : ℚ) / s.height)))) :=
    if_pos hholds
  rw [hsample, htop]
  rfl

/-- Nothing is shown beside the grid. -/
theorem sample?_of_not_cell {x y : ℤ} (h : ¬ (0 ≤ x ∧ x < s.width ∧ 0 ≤ y ∧ y < s.height)) :
    s.sample? (x : ℚ) y = none := by
  have hholds : ¬ s.holds (x : ℚ) y (1 : ℚ) 1 = true := by
    intro hholds
    obtain ⟨⟨⟨hx, hy⟩, hright⟩, hupper⟩ := holds_rat.mp hholds
    have hx : 0 ≤ x := by exact_mod_cast hx
    have hy : 0 ≤ y := by exact_mod_cast hy
    have hright : x + 1 ≤ s.width := by exact_mod_cast hright
    have hupper : y + 1 ≤ s.height := by exact_mod_cast hupper
    exact h ⟨hx, by omega, hy, by omega⟩
  exact if_neg hholds

/-- The painted pixels hold the middles of just the cells of the rectangle. -/
theorem covers_middle_iff (hfits : s.Fits) {x y w h x' y' : ℕ} (hx : x + w ≤ s.width)
    (hy : y + h ≤ s.height) (hy' : y' < s.height) {region : Region}
    (hregion : s.region? (x : ℚ) y w h = some region) :
    region.Covers (middle s.width s.surface.width x')
        (middle s.height s.surface.height (s.height - (y' + 1))) ↔
      (x ≤ x' ∧ x' < x + w) ∧ y ≤ y' ∧ y' < y + h := by
  rw [region?_of_cells hx hy] at hregion
  cases hregion
  have hleft := @edge_le_middle_iff _ _ x x' hfits.columns (by omega)
  have hright := @edge_le_middle_iff _ _ (x + w) x' hfits.columns hx
  have hupper := @edge_le_middle_iff _ _ (s.height - (y + h)) (s.height - (y' + 1)) hfits.rows
    (by omega)
  have hlower := @edge_le_middle_iff _ _ (s.height - y) (s.height - (y' + 1)) hfits.rows (by omega)
  simp only [Region.Covers]
  omega

/-- Painting a rectangle of cells changes what those cells show, and nothing else. -/
theorem sample?_paint (hfits : s.Fits) {x y w h : ℕ} (hx : x + w ≤ s.width)
    (hy : y + h ≤ s.height) {region : Region} (hregion : s.region? (x : ℚ) y w h = some region)
    (colour : UInt32) (x' y' : ℤ) :
    (s.paint region colour).sample? (x' : ℚ) y' =
      if (x ≤ x' ∧ x' < x + w) ∧ y ≤ y' ∧ y' < y + h then some colour else s.sample? (x' : ℚ) y' := by
  by_cases hcell : 0 ≤ x' ∧ x' < s.width ∧ 0 ≤ y' ∧ y' < s.height
  · obtain ⟨hx0, hxw, hy0, hyh⟩ := hcell
    lift x' to ℕ using hx0
    lift y' to ℕ using hy0
    have hxw : x' < s.width := by exact_mod_cast hxw
    have hyh : y' < s.height := by exact_mod_cast hyh
    have hcovers := @covers_middle_iff s hfits x y w h x' y' hx hy hyh region hregion
    have hread := Surface.read_fill (r := region) (middle_lt hfits.columns hxw)
      (middle_lt hfits.rows (show s.height - (y' + 1) < s.height by omega)) colour
    have hafter : (s.paint region colour).sample? (x' : ℚ) y' = some ((s.surface.fill region colour).read
        (middle s.width s.surface.width x')
        (middle s.height s.surface.height (s.height - (y' + 1)))) :=
      sample?_of_cell (s := s.paint region colour) hxw hyh
    rw [Int.cast_natCast, Int.cast_natCast, hafter, hread, sample?_of_cell hxw hyh]
    by_cases hinside : (x ≤ x' ∧ x' < x + w) ∧ y ≤ y' ∧ y' < y + h
    · rw [if_pos (hcovers.mpr hinside), if_pos (by exact_mod_cast hinside)]
    · rw [if_neg fun h => hinside (hcovers.mp h), if_neg (by exact_mod_cast hinside)]
  · have hafter : (s.paint region colour).sample? (x' : ℚ) y' = none :=
      sample?_of_not_cell (s := s.paint region colour) hcell
    rw [hafter, sample?_of_not_cell hcell, if_neg (by omega)]

/-- The colour of a cell as a number, which `read` pushes. -/
def read? (s : Screen) (x y : ℚ) : Option ℚ := (s.sample? x y).map fun colour => (colour.toNat : ℚ)

/-- A successful `writebox`, `write` or `clear` in exact arithmetic, with the cells that it paints. -/
inductive Draws (s : Screen) (c : ℚ) : (x y w h : ℕ) → Screen → Prop where
  | writebox {x y w h : ℕ} {s' : Screen} : s.writebox? (x : ℚ) y w h c = some s' →
      Draws s c x y w h s'
  | write {x y : ℕ} {s' : Screen} : s.write? (x : ℚ) y c = some s' → Draws s c x y 1 1 s'
  | clear {s' : Screen} : s.clear? c = some s' → Draws s c 0 0 s.width s.height s'

/-- The other two are cases of `writebox`. -/
theorem Draws.eq_writebox {x y w h : ℕ} {c : ℚ} (hd : s.Draws c x y w h s') :
    s.writebox? (x : ℚ) y w h c = some s' := by
  cases hd with
  | writebox hs => exact hs
  | write hs => exact hs
  | clear hs => exact hs

/-- On the grid a rectangle is painted just if its colour is one. -/
theorem isSome_writebox? {x y w h : ℕ} (hx : x + w ≤ s.width) (hy : y + h ≤ s.height) (c : ℚ) :
    (s.writebox? (x : ℚ) y w h c).isSome = true ↔ 0 ≤ c ∧ c ≤ (colourLimit : ℕ) := by
  rw [writebox?, region?_of_cells hx hy, Option.bind_some, Option.isSome_map, packed?_rat]
  split
  · next hc => simpa using hc
  · next hc => simpa using hc

/-- After a rectangle was painted, its cells show the colour without its fraction and the others what
they did. -/
theorem Draws.read? (hfits : s.Fits) {x y w h : ℕ} {c : ℚ} (hx : x + w ≤ s.width)
    (hy : y + h ≤ s.height) (hd : s.Draws c x y w h s') (x' y' : ℤ) :
    s'.read? x' y' = if (x ≤ x' ∧ x' < x + w) ∧ y ≤ y' ∧ y' < y + h then some (⌊c⌋ : ℚ)
      else s.read? x' y' := by
  have hbox := hd.eq_writebox
  have hregion := region?_of_cells hx hy
  rw [writebox?, hregion, Option.bind_some, packed?_rat] at hbox
  split at hbox
  · next hc =>
    cases hbox
    have hfloor := floor_le_colourLimit hc.2
    have hnonneg : 0 ≤ ⌊c⌋ := Int.floor_nonneg.mpr hc.1
    have hword : (⌊c⌋.toNat.toUInt32.toNat : ℚ) = ⌊c⌋ := by
      have hfits : ⌊c⌋.toNat < 4294967296 := by
        unfold colourLimit at hfloor
        omega
      have hnat : ⌊c⌋.toNat.toUInt32.toNat = ⌊c⌋.toNat := UInt32.toNat_ofNat_of_lt' hfits
      rw [hnat]
      exact_mod_cast Int.toNat_of_nonneg hnonneg
    rw [Screen.read?, Screen.read?, sample?_paint hfits hx hy hregion]
    split
    · rw [Option.map_some, hword]
    · rfl
  · cases hbox

end Screen

namespace Machine

/-! What instructions draw and read, in the arithmetic of floats. -/

theorem min_floorNat {limit limit' : ℕ} (h : limit ≤ limit') (x : Float) :
    min limit (floorNat limit' x) = floorNat limit x := by
  unfold floorNat
  rcases exactValue x with _ | (_ | _) | ⟨_ | _, mantissa, exponent⟩
  · simp
  · simpa using h
  · simp
  · dsimp only
    omega
  · simp

theorem packed?_float (c : Float) : Screen.packed? c = (colourOfNumber c).toOption := by
  have hzero : (Scalar.ofNat 0 : Float) = 0.0 := by decide +kernel
  have hpacked : Screen.packed? c = if decide ((Scalar.ofNat 0 : Float) ≤ c)
      && decide (c ≤ Float.ofNat colourLimit) then
        some (min colourLimit (floorNat pixelLimit c)).toUInt32 else none := rfl
  have hlimit : colourLimit ≤ pixelLimit := by decide
  rw [hpacked, hzero, min_floorNat hlimit, colourOfNumber]
  by_cases hc : 0.0 ≤ c ∧ c ≤ Float.ofNat colourLimit
  · rw [if_pos hc, if_pos (by simpa using hc)]
    rfl
  · rw [if_neg hc, if_neg (by simpa using hc)]
    rfl

/-- The next step executes an instruction on numbers, the first of which is on top. -/
structure AboutTo (m : Machine) (op : Opcode) (numbers : List Float) (rest : List Value) : Prop where
  running : m.halted = false
  current : ∃ index operand, m.current = .ok (index, ⟨op, operand⟩)
  stack : m.stack = numbers.map .number ++ rest

/-- The next step leads to this screen if there is one, and else fails and leaves the screen alone. -/
def Paints (m : Machine) (painted : Option Screen) (rest : List Value) : Prop :=
  match painted with
  | some s' => ∃ m', m.step = some (.ok (), m') ∧ m'.stack = rest ∧ m'.screen = s'
  | none => ∃ e m', m.step = some (.error e, m') ∧ m'.stack = rest ∧ m'.screen = m.screen

/-- The next step pushes this colour if there is one, and else fails; the screen stays. -/
def Samples (m : Machine) (colour : Option UInt32) (rest : List Value) : Prop :=
  match colour with
  | some c => ∃ m', m.step = some (.ok (), m') ∧ m'.stack = .number c.toFloat :: rest ∧
      m'.screen = m.screen
  | none => ∃ e m', m.step = some (.error e, m') ∧ m'.stack = rest ∧ m'.screen = m.screen

variable {m : Machine} {x y w h c : Float} {rest : List Value}

/-- An instruction that paints does what `writebox?` does at floats. -/
theorem paints_of_plan {index : Nat} {i : Instruction} (hrunning : m.halted = false)
    (hcurrent : m.current = .ok (index, i)) (hplan : plan m index i m.stack = paint m x y w h c rest) :
    m.Paints (m.screen.writebox? x y w h c) rest := by
  unfold Screen.writebox?
  rw [packed?_float]
  rcases hregion : m.screen.region? x y w h with _ | region
  · have hpaint : paint m x y w h c rest = .error (.screenOutOfBounds x y w h, rest) := by
      unfold paint
      rw [hregion]
      rfl
    exact ⟨_, _, step_eq_some_iff.mpr (.failed hrunning hcurrent (hplan.trans hpaint)), rfl, rfl⟩
  · rcases hcolour : colourOfNumber c with e | colour
    · have hpaint : paint m x y w h c rest = .error (.decode e, rest) := by
        unfold paint
        rw [hregion, hcolour]
        rfl
      exact ⟨_, _, step_eq_some_iff.mpr (.failed hrunning hcurrent (hplan.trans hpaint)), rfl, rfl⟩
    · have hpaint : paint m x y w h c rest = .ok (.paint region colour, rest) := by
        unfold paint
        rw [hregion, hcolour]
        rfl
      exact ⟨_, step_eq_some_iff.mpr (.done hrunning hcurrent (hplan.trans hpaint) rfl), rfl, rfl⟩

theorem paints_of_writebox (hm : m.AboutTo .writebox [x, y, w, h, c] rest) :
    m.Paints (m.screen.writebox? x y w h c) rest := by
  obtain ⟨hrunning, ⟨index, operand, hcurrent⟩, hstack⟩ := hm
  have hplan : plan m index ⟨.writebox, operand⟩ m.stack = paint m x y w h c rest := by
    rw [hstack]
    rfl
  exact paints_of_plan hrunning hcurrent hplan

theorem paints_of_write (hm : m.AboutTo .write [x, y, c] rest) :
    m.Paints (m.screen.write? x y c) rest := by
  obtain ⟨hrunning, ⟨index, operand, hcurrent⟩, hstack⟩ := hm
  have hone : Float.ofNat 1 = 1.0 := by decide +kernel
  have hplan : plan m index ⟨.write, operand⟩ m.stack =
      paint m x y (Float.ofNat 1) (Float.ofNat 1) c rest := by
    rw [hstack, hone]
    rfl
  exact paints_of_plan hrunning hcurrent hplan

theorem paints_of_clear (hm : m.AboutTo .clear [c] rest) : m.Paints (m.screen.clear? c) rest := by
  obtain ⟨hrunning, ⟨index, operand, hcurrent⟩, hstack⟩ := hm
  have hzero : Float.ofNat 0 = 0.0 := by decide +kernel
  have hplan : plan m index ⟨.clear, operand⟩ m.stack = paint m (Float.ofNat 0) (Float.ofNat 0)
      (Float.ofNat m.screen.width) (Float.ofNat m.screen.height) c rest := by
    rw [hstack, hzero]
    rfl
  exact paints_of_plan hrunning hcurrent hplan

/-- Reading is `sample?` at floats. -/
theorem samples_of_read (hm : m.AboutTo .read [x, y] rest) :
    m.Samples (m.screen.sample? x y) rest := by
  obtain ⟨hrunning, ⟨index, operand, hcurrent⟩, hstack⟩ := hm
  rcases hsample : m.screen.sample? x y with _ | colour
  · have hplan : plan m index ⟨.read, operand⟩ m.stack =
        .error (.screenOutOfBounds x y 1.0 1.0, rest) := by
      rw [hstack]
      refine Operands.bind_eq_error.mpr (.inr ⟨x, .number y :: rest, rfl, ?_⟩)
      refine Operands.bind_eq_error.mpr (.inr ⟨y, rest, rfl, ?_⟩)
      rw [hsample]
      rfl
    exact ⟨_, _, step_eq_some_iff.mpr (.failed hrunning hcurrent hplan), rfl, rfl⟩
  · have hplan : plan m index ⟨.read, operand⟩ m.stack =
        .ok (.next, .number colour.toFloat :: rest) := by
      rw [hstack]
      refine Operands.bind_eq_ok.mpr ⟨x, .number y :: rest, rfl, ?_⟩
      refine Operands.bind_eq_ok.mpr ⟨y, rest, rfl, ?_⟩
      rw [hsample]
      rfl
    exact ⟨_, step_eq_some_iff.mpr (.done hrunning hcurrent hplan rfl), rfl, rfl⟩

/-! The size of the screen. -/

theorem screen_perform {m m' : Machine} {effect : Effect} (h : m.perform effect = some m') :
    m'.screen = m.screen ∨
      ∃ region colour, effect = .paint region colour ∧ m'.screen = m.screen.paint region colour := by
  cases effect with
  | next | jump | call | ret | halt | store | roll =>
    cases h
    exact .inl rfl
  | paint region colour =>
    cases h
    exact .inr ⟨region, colour, rfl, rfl⟩
  | print texts =>
    cases h
    rw [say_eq]
    exact .inl rfl
  | awaitKey =>
    cases awaited_of_awaitKeyWithin h with
    | key | interrupted => exact .inl rfl

theorem screen_step {m m' : Machine} {r : Except Fault Unit} (h : m.step = some (r, m')) :
    m'.screen = m.screen ∨ ∃ region colour, m'.screen = m.screen.paint region colour := by
  cases step_eq_some_iff.mp h with
  | halted | misplaced | failed => exact .inl rfl
  | done _ _ _ hm =>
    rcases screen_perform hm with hsame | ⟨region, colour, _, hpaint⟩
    · exact .inl hsame
    · exact .inr ⟨region, colour, hpaint⟩

/-- Nothing that is done to a machine makes its grid leave the surface. -/
theorem told_fits : Told fun m _ => m.screen.Fits where
  same {m m' _} h hw _ := by
    have hscreen : m'.screen = m.screen := congrArg Work.screen hw
    rw [hscreen]
    exact h
  load _ h := h
  restart h := h
  resize hresized h := by
    obtain ⟨hsurface, hwidth, hheight⟩ := hresized
    obtain ⟨hcolumns, hrows⟩ := h
    constructor
    · dsimp only
      rw [hsurface]
      rcases hwidth with hsame | ⟨hpos, hle⟩
      · rw [hsame]
        exact hcolumns
      · exact ⟨hpos, hle, hcolumns.word⟩
    · dsimp only
      rw [hsurface]
      rcases hheight with hsame | ⟨hpos, hle⟩
      · rw [hsame]
        exact hrows
      · exact ⟨hpos, hle, hrows.word⟩
  step h hs := by
    rcases screen_step hs with hsame | ⟨region, colour, hpaint⟩
    · rw [hsame]
      exact h
    · rw [hpaint]
      exact ⟨h.columns, h.rows⟩

/-- A machine that was built for a surface that it fits, whose sides are words. -/
inductive Opens : Machine → Prop where
  | new {d : Devices} : 1 ≤ d.surface.width → 1 ≤ d.surface.height → Guarded.Sides d.surface →
      Opens (new d)
  | withConfig {d : Devices} {config : Config} {m : Machine} : Guarded.Sides d.surface →
      withConfig d config = .ok m → Opens m

theorem fittingSide_le {limit : ℕ} (h : 1 ≤ limit) :
    1 ≤ (fittingSide limit).toNat ∧ (fittingSide limit).toNat ≤ limit := by
  have hside : (fittingSide limit).toNat = max (min 100 limit) 1 := by
    apply UInt32.toNat_ofNat_of_lt'
    unfold UInt32.size
    omega
  omega

theorem Opens.fits {m : Machine} (h : Opens m) : m.screen.Fits := by
  cases h with
  | @new d hwidth hheight hsides =>
    obtain ⟨hw, hw'⟩ := fittingSide_le hwidth
    obtain ⟨hh, hh'⟩ := fittingSide_le hheight
    exact ⟨⟨hw, hw', hsides.width⟩, hh, hh', hsides.height⟩
  | @withConfig d config m hsides hm =>
    have hbuild := eq_build_of_withConfig hm
    unfold Machine.withConfig at hm
    rcases hw : checkScreenSize .width config.width.toNat d.surface.width with e | u
    · rw [hw] at hm
      cases hm
    · rcases hh : checkScreenSize .height config.height.toNat d.surface.height with e | u
      · rw [hw, hh] at hm
        cases hm
      · obtain ⟨hwidth, hwidth'⟩ := fits_of_checkScreenSize hw
        obtain ⟨hheight, hheight'⟩ := fits_of_checkScreenSize hh
        rw [hbuild]
        exact ⟨⟨hwidth, hwidth', hsides.width⟩, hheight, hheight', hsides.height⟩

/-- The screen behaves as an array of logical cells in exact arithmetic. Wherever a machine is led, its
grid has cells and lies on the surface. A rectangle of cells on the grid can be painted in any colour
from black to white; afterwards a cell of the rectangle shows the colour without its fraction, and any
other cell what it showed before. Every machine paints and reads by the same functions, at floats. -/
theorem screen_is_array {start m : Machine} {ds : List Deed} (hstart : Opens start)
    (hleads : Leads start ds m) :
    (1 ≤ m.screen.width ∧ m.screen.width ≤ m.screen.surface.width) ∧
    (1 ≤ m.screen.height ∧ m.screen.height ≤ m.screen.surface.height) ∧
    (∀ (b : Machine) (x y w h c : Float) (rest : List Value),
      (b.AboutTo .writebox [x, y, w, h, c] rest → b.Paints (b.screen.writebox? x y w h c) rest) ∧
      (b.AboutTo .write [x, y, c] rest → b.Paints (b.screen.write? x y c) rest) ∧
      (b.AboutTo .clear [c] rest → b.Paints (b.screen.clear? c) rest) ∧
      (b.AboutTo .read [x, y] rest → b.Samples (b.screen.sample? x y) rest)) ∧
    ∀ x y w h : ℕ, x + w ≤ m.screen.width → y + h ≤ m.screen.height → ∀ c : ℚ,
      ((m.screen.writebox? (x : ℚ) y w h c).isSome = true ↔ 0 ≤ c ∧ c ≤ (colourLimit : ℕ)) ∧
      ∀ s', m.screen.Draws c x y w h s' → ∀ x' y' : ℤ,
        s'.read? x' y' = if (x ≤ x' ∧ x' < x + w) ∧ y ≤ y' ∧ y' < y + h then some (⌊c⌋ : ℚ)
          else m.screen.read? x' y' := by
  have hfits : m.screen.Fits := hleads.told told_fits hstart.fits
  refine ⟨⟨hfits.columns.pos, hfits.columns.le⟩, ⟨hfits.rows.pos, hfits.rows.le⟩, ?_, ?_⟩
  · intro b x y w h c rest
    exact ⟨paints_of_writebox, paints_of_write, paints_of_clear, samples_of_read⟩
  · intro x y w h hx hy c
    refine ⟨Screen.isSome_writebox? hx hy c, ?_⟩
    intro s' hd x' y'
    exact hd.read? hfits hx hy x' y'

/-- A machine with two cells by two on three pixels by three. -/
def coarse : Machine := build { surface := .black 3 3 } { width := 2, height := 2 }

theorem opens_coarse : Opens coarse :=
  @Opens.withConfig { surface := .black 3 3 } { width := 2, height := 2 } _ ⟨by decide, by decide⟩ rfl

/-- The same machine about to execute an instruction on numbers. -/
def coarseAt (op : Opcode) (numbers : List Float) : Machine :=
  { coarse with
    program := ⟨#[⟨op, none⟩], .empty⟩, stack := numbers.map .number, halted := false }

theorem aboutTo_coarseAt (op : Opcode) (numbers : List Float) :
    (coarseAt op numbers).AboutTo op numbers [] :=
  ⟨rfl, ⟨0, none, rfl⟩, (List.append_nil _).symm⟩

/-- A column of two cells is painted in exact arithmetic, and by an instruction at floats. -/
theorem screen_is_array_coarse : (∃ s', coarse.screen.Draws 7 1 0 1 2 s' ∧
    s'.read? (1 : ℤ) (1 : ℤ) = some 7 ∧
    s'.read? (0 : ℤ) (1 : ℤ) = coarse.screen.read? (0 : ℤ) (1 : ℤ)) ∧
    (∃ s' m', coarse.screen.writebox? (1.0 : Float) 0.0 1.0 2.0 7.0 = some s' ∧
      (coarseAt .writebox [1.0, 0.0, 1.0, 2.0, 7.0]).step = some (.ok (), m') ∧ m'.screen = s' ∧
      s'.sample? (1.0 : Float) 1.0 = some 7) ∧
    ∃ m', (coarseAt .read [0.0, 1.0]).step = some (.ok (), m') ∧ m'.stack = [.number 0.0] := by
  obtain ⟨_, _, hsteps, hboxes⟩ := screen_is_array opens_coarse .refl
  refine ⟨?_, ?_, ?_⟩
  · obtain ⟨hsome, hread⟩ := hboxes 1 0 1 2 (by decide) (by decide) 7
    obtain ⟨s', hs⟩ := Option.isSome_iff_exists.mp (hsome.mpr (by norm_num [colourLimit]))
    have hdraws : coarse.screen.Draws 7 1 0 1 2 s' := .writebox hs
    refine ⟨s', hdraws, ?_, ?_⟩
    · rw [hread s' hdraws, if_pos (by decide)]
      norm_num
    · rw [hread s' hdraws, if_neg (by decide)]
  · have hpainted : (coarse.screen.writebox? (1.0 : Float) 0.0 1.0 2.0 7.0).bind
        (·.sample? (1.0 : Float) 1.0) = some 7 := by decide +kernel
    obtain ⟨s', hs, hseven⟩ := Option.bind_eq_some_iff.mp hpainted
    have hpaints := (hsteps _ 1.0 0.0 1.0 2.0 7.0 []).1 (aboutTo_coarseAt _ _)
    have hsame : (coarseAt .writebox [1.0, 0.0, 1.0, 2.0, 7.0]).screen = coarse.screen := rfl
    rw [hsame, hs] at hpaints
    obtain ⟨m', hm, _, hscreen⟩ := hpaints
    exact ⟨s', m', hs, hm, hscreen, hseven⟩
  · have hblack : coarse.screen.sample? (0.0 : Float) 1.0 = some 0 := by decide +kernel
    have hsamples := (hsteps _ 0.0 1.0 0.0 0.0 0.0 []).2.2.2 (aboutTo_coarseAt _ _)
    have hsame : (coarseAt .read [0.0, 1.0]).screen = coarse.screen := rfl
    rw [hsame, hblack] at hsamples
    obtain ⟨m', hm, hstack, _⟩ := hsamples
    have hzero : UInt32.toFloat 0 = 0.0 := by decide +kernel
    rw [hzero] at hstack
    exact ⟨m', hm, hstack⟩

/-- The colour that a cell shows need not be the number that was painted: its fraction is lost. -/
theorem fraction_of_colour_is_lost : ∃ s', coarse.screen.Draws (3 / 2) 0 0 1 1 s' ∧
    s'.read? (0 : ℤ) (0 : ℤ) = some 1 ∧ s'.read? (0 : ℤ) (0 : ℤ) ≠ some (3 / 2) := by
  have hright : 0 + 1 ≤ coarse.screen.width := by decide
  have hupper : 0 + 1 ≤ coarse.screen.height := by decide
  have hsome := (Screen.isSome_writebox? hright hupper (3 / 2)).mpr (by norm_num [colourLimit])
  obtain ⟨s', hs⟩ := Option.isSome_iff_exists.mp hsome
  have hdraws : coarse.screen.Draws (3 / 2) 0 0 1 1 s' := .writebox hs
  have hread : s'.read? (0 : ℤ) (0 : ℤ) = some 1 := by
    rw [hdraws.read? opens_coarse.fits hright hupper, if_pos (by decide)]
    norm_num
  refine ⟨s', hdraws, hread, ?_⟩
  rw [hread]
  norm_num

end Machine

end PixelMachine
