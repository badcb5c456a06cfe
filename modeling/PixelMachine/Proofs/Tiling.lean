import PixelMachine.Proofs.Cells

/-! Drawing tiles the surface: in exact arithmetic each pixel belongs to one logical cell, so that a
rectangle is painted cell by cell, in any order, just as it is at once. -/
namespace PixelMachine

/-! Along one side of the screen. -/

/-- A pixel lies between the edges of a cell. -/
def Between (cells pixels a p : ℕ) : Prop := edge cells pixels a ≤ p ∧ p < edge cells pixels (a + 1)

section

variable {cells pixels a b p : ℕ}

theorem edge_zero (cells pixels : ℕ) : edge cells pixels 0 = 0 := by
  have hfloor : ⌊(0 : ℚ) * ((pixels : ℚ) / cells) + 1 / 2⌋ = 0 := by
    rw [zero_mul, zero_add]
    norm_num
  have hedge : edge cells pixels 0
      = min pixelLimit ⌊((0 : ℕ) : ℚ) * ((pixels : ℚ) / cells) + 1 / 2⌋.toNat := rfl
  rw [hedge, Nat.cast_zero, hfloor]
  rfl

/-- The edge behind the last cell is the end of the side. -/
theorem edge_cells (h : Divides cells pixels) : edge cells pixels cells = pixels := by
  have hcells : (cells : ℚ) ≠ 0 := by
    have hpos := h.pos
    exact_mod_cast show cells ≠ 0 by omega
  have hfloor : ⌊(cells : ℚ) * ((pixels : ℚ) / cells) + 1 / 2⌋ = pixels := by
    rw [mul_div_cancel₀ _ hcells, Int.floor_natCast_add]
    norm_num
  have hedge : edge cells pixels cells
      = min pixelLimit ⌊(cells : ℚ) * ((pixels : ℚ) / cells) + 1 / 2⌋.toNat := rfl
  have hword := h.word
  rw [hedge, hfloor, Int.toNat_natCast]
  unfold pixelLimit
  omega

/-- Each cell is at least a pixel wide. -/
theorem edge_lt_edge (h : Divides cells pixels) (hab : a < b) (hb : b ≤ cells) :
    edge cells pixels a < edge cells pixels b :=
  Nat.lt_of_le_of_lt (edge_le_middle h (Nat.le_refl a)) (middle_lt_edge h hab hb)

theorem edge_le_edge (h : Divides cells pixels) (hab : a ≤ b) (hb : b ≤ cells) :
    edge cells pixels a ≤ edge cells pixels b := by
  rcases Nat.lt_or_eq_of_le hab with hlt | rfl
  · exact Nat.le_of_lt (edge_lt_edge h hlt hb)
  · exact Nat.le_refl _

/-- Every pixel before an edge lies in one of the cells before it. -/
theorem exists_between {n : ℕ} (hp : p < edge cells pixels n) :
    ∃ a < n, Between cells pixels a p := by
  -- Either an earlier edge lies behind the pixel already, or its cell is the last one.
  induction n with
  | zero =>
    rw [edge_zero] at hp
    omega
  | succ n ih =>
    by_cases hbefore : p < edge cells pixels n
    · obtain ⟨a, ha, hbetween⟩ := ih hbefore
      exact ⟨a, by omega, hbetween⟩
    · exact ⟨n, by omega, by omega, hp⟩

/-- A pixel lies behind the edges of just the cells up to its own. -/
theorem edge_le_iff (h : Divides cells pixels) (hp : Between cells pixels b p) (hb : b < cells)
    (ha : a ≤ cells) : edge cells pixels a ≤ p ↔ a ≤ b := by
  obtain ⟨hbefore, hbehind⟩ := hp
  constructor
  · intro hle
    by_contra hlt
    -- The cell of the pixel ends at the later edge or before it.
    have hnext : edge cells pixels (b + 1) ≤ edge cells pixels a := edge_le_edge h (by omega) ha
    omega
  · intro hle
    have hown := edge_le_edge h hle (Nat.le_of_lt hb)
    omega

theorem between_unique (h : Divides cells pixels) (ha : Between cells pixels a p)
    (hb : Between cells pixels b p) (hacells : a < cells) (hbcells : b < cells) : a = b := by
  apply Nat.le_antisymm
  · exact (edge_le_iff h hb hbcells (Nat.le_of_lt hacells)).mp ha.1
  · exact (edge_le_iff h ha hacells (Nat.le_of_lt hbcells)).mp hb.1

end

/-- A pixel belongs to a cell on the grid. Rows are counted from the bottom, pixels from the top. -/
structure Screen.Belongs (s : Screen) (cell : ℕ × ℕ) (px py : ℕ) : Prop where
  column : cell.1 < s.width
  row : cell.2 < s.height
  across : Between s.width s.surface.width cell.1 px
  down : Between s.height s.surface.height (s.height - (cell.2 + 1)) py

namespace Screen

variable {s t : Screen} {cell : ℕ × ℕ} {px py x y w h : ℕ} {region : Region}

/-- Every pixel of the surface belongs to a cell. -/
theorem exists_belongs (hfits : s.Fits) (hpx : px < s.surface.width) (hpy : py < s.surface.height) :
    ∃ cell, s.Belongs cell px py := by
  rw [← edge_cells hfits.columns] at hpx
  rw [← edge_cells hfits.rows] at hpy
  obtain ⟨a, ha, hacross⟩ := exists_between hpx
  obtain ⟨b, hb, hdown⟩ := exists_between hpy
  have hrow : s.height - (s.height - (b + 1) + 1) = b := by omega
  refine ⟨(a, s.height - (b + 1)), ha, ?_, hacross, ?_⟩
  · dsimp only
    omega
  · dsimp only
    rwa [hrow]

/-- The region of a rectangle of cells consists of the pixels that belong to its cells. -/
theorem covers_iff (hfits : s.Fits) (hcell : s.Belongs cell px py) (hx : x + w ≤ s.width)
    (hy : y + h ≤ s.height) (hregion : s.region? (x : ℚ) y w h = some region) :
    region.Covers px py ↔ (x ≤ cell.1 ∧ cell.1 < x + w) ∧ y ≤ cell.2 ∧ cell.2 < y + h := by
  obtain ⟨hcolumn, hrow, hacross, hdown⟩ := hcell
  rw [region?_of_cells hx hy] at hregion
  cases hregion
  have hleft := @edge_le_iff _ _ x _ _ hfits.columns hacross hcolumn (by omega)
  have hright := @edge_le_iff _ _ (x + w) _ _ hfits.columns hacross hcolumn hx
  have hupper := @edge_le_iff _ _ (s.height - (y + h)) _ _ hfits.rows hdown (by omega) (by omega)
  have hlower := @edge_le_iff _ _ (s.height - y) _ _ hfits.rows hdown (by omega) (by omega)
  have hwidth := @edge_le_edge _ _ x (x + w) hfits.columns (by omega) hx
  have hheight := @edge_le_edge _ _ (s.height - (y + h)) (s.height - y) hfits.rows (by omega)
    (by omega)
  simp only [Region.Covers]
  omega

/-- A rectangle of cells lies on the surface and is not empty, if it has a cell. -/
theorem region_on_surface (hfits : s.Fits) (hw : 1 ≤ w) (hh : 1 ≤ h) (hx : x + w ≤ s.width)
    (hy : y + h ≤ s.height) (hregion : s.region? (x : ℚ) y w h = some region) :
    (1 ≤ region.width ∧ 1 ≤ region.height) ∧
      region.x + region.width ≤ s.surface.width ∧ region.y + region.height ≤ s.surface.height := by
  rw [region?_of_cells hx hy] at hregion
  cases hregion
  have hwide := @edge_lt_edge _ _ x (x + w) hfits.columns (by omega) hx
  have hhigh := @edge_lt_edge _ _ (s.height - (y + h)) (s.height - y) hfits.rows (by omega) (by omega)
  have hright : edge s.width s.surface.width (x + w) ≤ edge s.width s.surface.width s.width :=
    edge_le_edge hfits.columns hx (Nat.le_refl _)
  have hlower : edge s.height s.surface.height (s.height - y)
      ≤ edge s.height s.surface.height s.height :=
    edge_le_edge hfits.rows (Nat.sub_le _ _) (Nat.le_refl _)
  rw [edge_cells hfits.columns] at hright
  rw [edge_cells hfits.rows] at hlower
  dsimp only
  omega

theorem Belongs.on_surface (hfits : s.Fits) (h : s.Belongs cell px py) :
    px < s.surface.width ∧ py < s.surface.height := by
  obtain ⟨hcolumn, hrow, hacross, hdown⟩ := h
  have hright := edge_le_edge hfits.columns (show cell.1 + 1 ≤ s.width by omega) (Nat.le_refl _)
  have hlower := edge_le_edge hfits.rows
    (show s.height - (cell.2 + 1) + 1 ≤ s.height by omega) (Nat.le_refl _)
  rw [edge_cells hfits.columns] at hright
  rw [edge_cells hfits.rows] at hlower
  exact ⟨Nat.lt_of_lt_of_le hacross.2 hright, Nat.lt_of_lt_of_le hdown.2 hlower⟩

/-! The regions of single cells. -/

/-- The region that `write` paints. -/
def cellRegion? (s : Screen) (cell : ℕ × ℕ) : Option Region := s.region? (cell.1 : ℚ) cell.2 1 1

theorem cellRegion?_eq (s : Screen) (cell : ℕ × ℕ) :
    s.cellRegion? cell = s.region? (cell.1 : ℚ) cell.2 (1 : ℕ) (1 : ℕ) := by
  rw [cellRegion?, Nat.cast_one]

theorem on_grid_of_cellRegion? (h : s.cellRegion? cell = some region) :
    cell.1 + 1 ≤ s.width ∧ cell.2 + 1 ≤ s.height := by
  have hholds : s.holds (cell.1 : ℚ) cell.2 1 1 = true := by
    unfold cellRegion? region? at h
    split at h
    · assumption
    · cases h
  obtain ⟨⟨_, hx⟩, hy⟩ := holds_rat.mp hholds
  exact ⟨by exact_mod_cast hx, by exact_mod_cast hy⟩

/-- The region of a cell consists of the pixels that belong to it. -/
theorem cellRegion_covers_iff (hfits : s.Fits) (h : s.cellRegion? cell = some region) :
    region.Covers px py ↔ s.Belongs cell px py := by
  obtain ⟨hx, hy⟩ := on_grid_of_cellRegion? h
  rw [cellRegion?_eq] at h
  constructor
  · intro hcovers
    obtain ⟨_, hright, hlower⟩ := region_on_surface hfits (Nat.le_refl 1) (Nat.le_refl 1) hx hy h
    have hpx : px < s.surface.width := Nat.lt_of_lt_of_le hcovers.1.2 hright
    have hpy : py < s.surface.height := Nat.lt_of_lt_of_le hcovers.2.2 hlower
    obtain ⟨own, hown⟩ := exists_belongs hfits hpx hpy
    have hin := (covers_iff hfits hown hx hy h).mp hcovers
    have hsame : own = cell := Prod.ext (by omega) (by omega)
    exact hsame ▸ hown
  · intro hcell
    exact (covers_iff hfits hcell hx hy h).mpr (by omega)

theorem exists_cellRegion (hx : cell.1 < s.width) (hy : cell.2 < s.height) :
    ∃ region, s.cellRegion? cell = some region := by
  rw [cellRegion?_eq, region?_of_cells hx hy]
  exact ⟨_, rfl⟩

/-- No pixel belongs to two cells. -/
theorem Belongs.unique {cell' : ℕ × ℕ} (hfits : s.Fits) (h : s.Belongs cell px py)
    (h' : s.Belongs cell' px py) : cell = cell' := by
  obtain ⟨hcolumn, hrow, hacross, hdown⟩ := h
  obtain ⟨hcolumn', hrow', hacross', hdown'⟩ := h'
  have hcolumns : cell.1 = cell'.1 := between_unique hfits.columns hacross hacross' hcolumn hcolumn'
  have hrows : s.height - (cell.2 + 1) = s.height - (cell'.2 + 1) :=
    between_unique hfits.rows hdown hdown' (by omega) (by omega)
  exact Prod.ext hcolumns (by omega)

/-! Painting cells. -/

/-- One screen shows a colour in the pixels of some cells, and elsewhere what another screen shows. -/
structure Recoloured (s : Screen) (colour : UInt32) (cells : ℕ × ℕ → Prop) (t : Screen) : Prop where
  grid : t.width = s.width ∧ t.height = s.height
  surface : t.surface.width = s.surface.width ∧ t.surface.height = s.surface.height
  inside : ∀ cell px py, s.Belongs cell px py → cells cell → t.surface.read px py = colour
  outside : ∀ cell px py, s.Belongs cell px py → ¬ cells cell →
    t.surface.read px py = s.surface.read px py

section

variable {colour : UInt32} {cells cells' : ℕ × ℕ → Prop}

theorem Recoloured.congr (h : s.Recoloured colour cells t) (hcells : ∀ cell, cells cell ↔ cells' cell) :
    s.Recoloured colour cells' t := by
  have heq : cells = cells' := funext fun cell => propext (hcells cell)
  exact heq ▸ h

theorem Recoloured.belongs (h : s.Recoloured colour cells t) (hcell : s.Belongs cell px py) :
    t.Belongs cell px py := by
  obtain ⟨⟨hwidth, hheight⟩, ⟨hacross, hdown⟩, _, _⟩ := h
  constructor
  · rw [hwidth]
    exact hcell.column
  · rw [hheight]
    exact hcell.row
  · rw [hwidth, hacross]
    exact hcell.across
  · rw [hheight, hdown]
    exact hcell.down

theorem Recoloured.trans {u : Screen} (h : s.Recoloured colour cells t)
    (h' : t.Recoloured colour cells' u) : s.Recoloured colour (fun cell => cells cell ∨ cells' cell) u := by
  refine ⟨?_, ?_, ?_, ?_⟩
  · exact ⟨h'.grid.1.trans h.grid.1, h'.grid.2.trans h.grid.2⟩
  · exact ⟨h'.surface.1.trans h.surface.1, h'.surface.2.trans h.surface.2⟩
  · intro cell px py hcell hin
    by_cases hlater : cells' cell
    · exact h'.inside cell px py (h.belongs hcell) hlater
    · rw [h'.outside cell px py (h.belongs hcell) hlater]
      exact h.inside cell px py hcell (hin.resolve_right hlater)
  · intro cell px py hcell hout
    obtain ⟨hfirst, hlater⟩ := not_or.mp hout
    rw [h'.outside cell px py (h.belongs hcell) hlater, h.outside cell px py hcell hfirst]

/-- Two screens that are recoloured alike are the same. -/
theorem Recoloured.unique {t' : Screen} (hfits : s.Fits) (h : s.Recoloured colour cells t)
    (h' : s.Recoloured colour cells t') : t = t' := by
  have hsurface : t.surface = t'.surface := by
    apply Surface.eq_of_read
    · rw [h.surface.1, h'.surface.1]
    · rw [h.surface.2, h'.surface.2]
    · intro px py hpx hpy
      rw [h.surface.1] at hpx
      rw [h.surface.2] at hpy
      obtain ⟨cell, hcell⟩ := exists_belongs hfits hpx hpy
      by_cases hin : cells cell
      · rw [h.inside cell px py hcell hin, h'.inside cell px py hcell hin]
      · rw [h.outside cell px py hcell hin, h'.outside cell px py hcell hin]
  have hwidth : t.width = t'.width := h.grid.1.trans h'.grid.1.symm
  have hheight : t.height = t'.height := h.grid.2.trans h'.grid.2.symm
  cases t
  cases t'
  cases hsurface
  cases hwidth
  cases hheight
  rfl

end

/-- A rectangle of cells is recoloured, if the colour is one. -/
theorem recoloured_writebox (hfits : s.Fits) {c : ℚ} (hc : 0 ≤ c ∧ c ≤ (colourLimit : ℕ))
    (hx : x + w ≤ s.width) (hy : y + h ≤ s.height) :
    ∃ t, s.writebox? (x : ℚ) y w h c = some t ∧ s.Recoloured ⌊c⌋.toNat.toUInt32
      (fun cell => (x ≤ cell.1 ∧ cell.1 < x + w) ∧ y ≤ cell.2 ∧ cell.2 < y + h) t := by
  obtain ⟨region, hregion⟩ : ∃ region, s.region? (x : ℚ) y w h = some region :=
    ⟨_, region?_of_cells hx hy⟩
  have hpaint : s.writebox? (x : ℚ) y w h c = some (s.paint region ⌊c⌋.toNat.toUInt32) := by
    rw [writebox?, hregion, Option.bind_some, packed?_rat, if_pos hc, Option.map_some]
  refine ⟨_, hpaint, ⟨rfl, rfl⟩, ⟨rfl, rfl⟩, ?_, ?_⟩
  · intro cell px py hcell hin
    obtain ⟨hpx, hpy⟩ := hcell.on_surface hfits
    have hread := Surface.read_fill (r := region) hpx hpy ⌊c⌋.toNat.toUInt32
    rwa [if_pos ((covers_iff hfits hcell hx hy hregion).mpr hin)] at hread
  · intro cell px py hcell hout
    obtain ⟨hpx, hpy⟩ := hcell.on_surface hfits
    have hread := Surface.read_fill (r := region) hpx hpy ⌊c⌋.toNat.toUInt32
    rwa [if_neg fun hcovers => hout ((covers_iff hfits hcell hx hy hregion).mp hcovers)] at hread

theorem writebox?_of_no_colour {c : ℚ} (hc : ¬ (0 ≤ c ∧ c ≤ (colourLimit : ℕ)))
    (hx : x + w ≤ s.width) (hy : y + h ≤ s.height) : s.writebox? (x : ℚ) y w h c = none := by
  rw [writebox?, region?_of_cells hx hy, Option.bind_some, packed?_rat, if_neg hc, Option.map_none]

/-- The screen after `write` was carried out for cells in turn, all in one colour. -/
def writeEach? (c : ℚ) (cells : List (ℕ × ℕ)) (s : Screen) : Option Screen :=
  cells.foldlM (fun t cell => t.write? (cell.1 : ℚ) cell.2 c) s

theorem writeEach?_cons (c : ℚ) (cell : ℕ × ℕ) (cells : List (ℕ × ℕ)) (s : Screen) :
    writeEach? c (cell :: cells) s =
      (s.writebox? (cell.1 : ℚ) cell.2 (1 : ℕ) (1 : ℕ) c).bind (writeEach? c cells) :=
  List.foldlM_cons

/-- Cells that are written one after the other are recoloured, whatever their order. -/
theorem recoloured_writeEach {c : ℚ} {cells : List (ℕ × ℕ)} (hfits : s.Fits)
    (hc : 0 ≤ c ∧ c ≤ (colourLimit : ℕ))
    (hcells : ∀ cell ∈ cells, cell.1 < s.width ∧ cell.2 < s.height) :
    ∃ t, writeEach? c cells s = some t ∧ s.Recoloured ⌊c⌋.toNat.toUInt32 (· ∈ cells) t := by
  -- One cell is painted, and the others on the screen that this leaves; its size stays the same.
  induction cells generalizing s with
  | nil =>
    refine ⟨s, rfl, ⟨rfl, rfl⟩, ⟨rfl, rfl⟩, ?_, ?_⟩
    · intro cell px py _ hin
      cases hin
    · intro cell px py _ _
      rfl
  | cons first cells ih =>
    obtain ⟨hx, hy⟩ := hcells first List.mem_cons_self
    obtain ⟨t, ht, hfirst⟩ := recoloured_writebox (w := 1) (h := 1) hfits hc hx hy
    obtain ⟨⟨hwidth, hheight⟩, hacross, hdown⟩ := And.intro hfirst.grid hfirst.surface
    have htfits : t.Fits := by
      constructor
      · rw [hwidth, hacross]
        exact hfits.columns
      · rw [hheight, hdown]
        exact hfits.rows
    have hothers : ∀ cell ∈ cells, cell.1 < t.width ∧ cell.2 < t.height := by
      intro cell hcell
      rw [hwidth, hheight]
      exact hcells cell (List.mem_cons_of_mem first hcell)
    obtain ⟨u, hu, hlater⟩ := ih htfits hothers
    refine ⟨u, ?_, (hfirst.trans hlater).congr fun cell => ?_⟩
    · rw [writeEach?_cons, ht, Option.bind_some, hu]
    · have hself : ((first.1 ≤ cell.1 ∧ cell.1 < first.1 + 1) ∧
          first.2 ≤ cell.2 ∧ cell.2 < first.2 + 1) ↔ cell = first := by
        rw [Prod.ext_iff]
        omega
      rw [hself, List.mem_cons]

/-- A rectangle is painted by painting its cells. -/
theorem writeEach?_eq_writebox? {c : ℚ} {cells : List (ℕ × ℕ)} (hfits : s.Fits)
    (hw : 1 ≤ w) (hh : 1 ≤ h) (hx : x + w ≤ s.width) (hy : y + h ≤ s.height)
    (hcells : ∀ cell, cell ∈ cells ↔
      (x ≤ cell.1 ∧ cell.1 < x + w) ∧ y ≤ cell.2 ∧ cell.2 < y + h) :
    writeEach? c cells s = s.writebox? (x : ℚ) y w h c := by
  have hgrid : ∀ cell ∈ cells, cell.1 < s.width ∧ cell.2 < s.height := by
    intro cell hcell
    have hin := (hcells cell).mp hcell
    omega
  by_cases hc : 0 ≤ c ∧ c ≤ (colourLimit : ℕ)
  · obtain ⟨t, ht, hwritten⟩ := recoloured_writeEach hfits hc hgrid
    obtain ⟨u, hu, hpainted⟩ := recoloured_writebox hfits hc hx hy
    rw [ht, hu, (hwritten.congr hcells).unique hfits hpainted]
  · rw [writebox?_of_no_colour hc hx hy]
    -- The first of the cells cannot be written either, and there is one.
    cases cells with
    | nil =>
      have hcorner := (hcells (x, y)).mpr (by dsimp only; omega)
      cases hcorner
    | cons first cells =>
      obtain ⟨hfirst, hfirst'⟩ := hgrid first List.mem_cons_self
      rw [writeEach?_cons, writebox?_of_no_colour (w := 1) (h := 1) hc hfirst hfirst',
        Option.bind_none]

/-- Drawing tiles the surface. A rectangle of cells is painted by writing its cells in any order. The
regions of the cells lie on the surface, none of them is empty and no two have a pixel in common; every
pixel of the surface is in one of them. So `clear` paints every pixel. -/
theorem drawing_tiles_surface (hfits : s.Fits) :
    (∀ x y w h : ℕ, 1 ≤ w → 1 ≤ h → x + w ≤ s.width → y + h ≤ s.height →
      ∀ (c : ℚ) (cells : List (ℕ × ℕ)),
        (∀ cell, cell ∈ cells ↔ (x ≤ cell.1 ∧ cell.1 < x + w) ∧ y ≤ cell.2 ∧ cell.2 < y + h) →
        cells.foldlM (fun t cell => t.write? (cell.1 : ℚ) cell.2 c) s =
          s.writebox? (x : ℚ) y w h c) ∧
    (∀ x y : ℕ, x < s.width → y < s.height → ∃ r, s.region? (x : ℚ) y 1 1 = some r ∧
      (1 ≤ r.width ∧ 1 ≤ r.height) ∧
      r.x + r.width ≤ s.surface.width ∧ r.y + r.height ≤ s.surface.height) ∧
    (∀ (x y x' y' : ℕ) (r r' : Region), (x, y) ≠ (x', y') →
      s.region? (x : ℚ) y 1 1 = some r → s.region? (x' : ℚ) y' 1 1 = some r' →
      ∀ px py, ¬ (r.Covers px py ∧ r'.Covers px py)) ∧
    (∀ px py, px < s.surface.width → py < s.surface.height →
      ∃! cell : ℕ × ℕ, ∃ r, s.region? (cell.1 : ℚ) cell.2 1 1 = some r ∧ r.Covers px py) ∧
    ∀ c : ℚ, 0 ≤ c → c ≤ (colourLimit : ℕ) → ∃ t, s.clear? c = some t ∧
      ∀ px py, px < s.surface.width → py < s.surface.height →
        t.surface.read px py = ⌊c⌋.toNat.toUInt32 := by
  refine ⟨?_, ?_, ?_, ?_, ?_⟩
  · intro x y w h hw hh hx hy c cells hcells
    exact writeEach?_eq_writebox? hfits hw hh hx hy hcells
  · intro x y hx hy
    obtain ⟨r, hr⟩ := @exists_cellRegion s (x, y) hx hy
    have hone := hr
    rw [cellRegion?_eq] at hone
    exact ⟨r, hr, region_on_surface hfits (Nat.le_refl 1) (Nat.le_refl 1) hx hy hone⟩
  · rintro x y x' y' r r' hne hr hr' px py ⟨hcovers, hcovers'⟩
    have hcell := (@cellRegion_covers_iff s (x, y) px py r hfits hr).mp hcovers
    have hcell' := (@cellRegion_covers_iff s (x', y') px py r' hfits hr').mp hcovers'
    exact hne (hcell.unique hfits hcell')
  · intro px py hpx hpy
    obtain ⟨cell, hcell⟩ := exists_belongs hfits hpx hpy
    obtain ⟨r, hr⟩ := exists_cellRegion hcell.column hcell.row
    refine ⟨cell, ⟨r, hr, (cellRegion_covers_iff hfits hr).mpr hcell⟩, ?_⟩
    rintro other ⟨r', hr', hcovers⟩
    exact ((cellRegion_covers_iff hfits hr').mp hcovers).unique hfits hcell
  · intro c hpos hle
    have hwide : 0 + s.width ≤ s.width := Nat.le_of_eq (Nat.zero_add _)
    have hhigh : 0 + s.height ≤ s.height := Nat.le_of_eq (Nat.zero_add _)
    obtain ⟨t, ht, hcleared⟩ := recoloured_writebox hfits ⟨hpos, hle⟩ hwide hhigh
    refine ⟨t, ht, ?_⟩
    intro px py hpx hpy
    obtain ⟨cell, hcell⟩ := exists_belongs hfits hpx hpy
    have hcolumn := hcell.column
    have hrow := hcell.row
    exact hcleared.inside cell px py hcell (by omega)

/-- Four cells on nine pixels: they are written in a mixed order, the middle pixel belongs to one of
them, and the last pixel is cleared. -/
theorem drawing_tiles_coarse :
    [(1, 1), (0, 0), (1, 0), (0, 1)].foldlM
        (fun t (cell : ℕ × ℕ) => t.write? (cell.1 : ℚ) cell.2 7) Machine.coarse.screen =
      Machine.coarse.screen.writebox? ((0 : ℕ) : ℚ) (0 : ℕ) (2 : ℕ) (2 : ℕ) 7 ∧
    (∃! cell : ℕ × ℕ, ∃ r, Machine.coarse.screen.region? (cell.1 : ℚ) cell.2 1 1 = some r ∧
      r.Covers 1 1) ∧
    ∃ t, Machine.coarse.screen.clear? (7 : ℚ) = some t ∧ t.surface.read 2 2 = 7 := by
  obtain ⟨hboxes, _, _, hpixels, hclear⟩ := drawing_tiles_surface Machine.opens_coarse.fits
  refine ⟨?_, hpixels 1 1 (by decide) (by decide), ?_⟩
  · apply hboxes 0 0 2 2 (by decide) (by decide) (by decide) (by decide)
    intro cell
    simp only [List.mem_cons, List.not_mem_nil, or_false, Prod.ext_iff]
    omega
  · obtain ⟨t, ht, hread⟩ := hclear 7 (by norm_num) (by norm_num [colourLimit])
    have hseven : ⌊(7 : ℚ)⌋.toNat.toUInt32 = 7 := by
      rw [Int.floor_ofNat]
      rfl
    exact ⟨t, ht, (hread 2 2 (by decide) (by decide)).trans hseven⟩

end Screen

end PixelMachine
