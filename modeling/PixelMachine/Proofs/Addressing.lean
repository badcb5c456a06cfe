import PixelMachine.Memory.FrameStack

/-! Which accesses to memory succeed, and what they give: an access succeeds exactly if the frame is
there and all cells that it names lie within it. -/
namespace PixelMachine

/-- The numbers of slots of the frames. -/
def FrameStack.sizes (fs : FrameStack) : List Nat := fs.map List.length

namespace FrameStack

variable {fs fs' : FrameStack}

/-- `f` is the frame that an index names. -/
def IsFrame (fs : FrameStack) (frame : Int) (f : Frame) : Prop := 0 ≤ frame ∧ fs[frame.toNat]? = some f

theorem IsFrame.unique {frame : Int} {f g : Frame} (hf : fs.IsFrame frame f)
    (hg : fs.IsFrame frame g) : f = g :=
  Option.some.inj (hf.2.symm.trans hg.2)

theorem IsFrame.mem {frame : Int} {f : Frame} (h : fs.IsFrame frame f) : f ∈ fs :=
  List.mem_of_getElem? h.2

theorem IsFrame.lt_length {frame : Int} {f : Frame} (h : fs.IsFrame frame f) :
    frame.toNat < fs.length :=
  (List.getElem?_eq_some_iff.mp h.2).1

theorem IsFrame.set {frame : Int} {f : Frame} (h : fs.IsFrame frame f) (g : Frame) :
    IsFrame (fs.set frame.toNat g) frame g :=
  ⟨h.1, List.getElem?_set_self h.lt_length⟩

theorem IsFrame.set_self {frame : Int} {f : Frame} (h : fs.IsFrame frame f) :
    fs.set frame.toNat f = fs := by
  rw [← (List.getElem?_eq_some_iff.mp h.2).2, List.set_getElem_self]

/-- There is a frame exactly at the indices below the number of frames. -/
theorem exists_isFrame_iff {frame : Int} :
    (∃ f, fs.IsFrame frame f) ↔ 0 ≤ frame ∧ frame < fs.length := by
  constructor
  · rintro ⟨f, hf⟩
    have hlt := hf.lt_length
    have hpos := hf.1
    omega
  · rintro ⟨hpos, hlt⟩
    have hindex : frame.toNat < fs.length := by omega
    exact ⟨fs[frame.toNat], hpos, List.getElem?_eq_getElem hindex⟩

theorem frameAt_eq_ok_iff {frame : Int} {i : Nat} {f : Frame} :
    fs.frameAt frame = .ok (i, f) ↔ fs.IsFrame frame f ∧ i = frame.toNat := by
  unfold frameAt IsFrame
  by_cases hneg : frame < 0
  · rw [if_pos hneg]
    constructor
    · intro h
      cases h
    · rintro ⟨⟨hpos, _⟩, _⟩
      omega
  · rw [if_neg hneg]
    rcases fs[frame.toNat]? with _ | g
    · simp
    · simp only [Except.ok.injEq, Prod.mk.injEq, Option.some.injEq]
      constructor
      · rintro ⟨rfl, rfl⟩
        exact ⟨⟨by omega, rfl⟩, rfl⟩
      · rintro ⟨⟨_, rfl⟩, rfl⟩
        exact ⟨rfl, rfl⟩

/-- Where there is no frame, that is the error. -/
theorem frameAt_of_missing {frame : Int} (h : ¬ (0 ≤ frame ∧ frame < fs.length)) :
    fs.frameAt frame = .error (.frameOutOfBounds frame fs.lastFrame) := by
  unfold frameAt
  by_cases hneg : frame < 0
  · rw [if_pos hneg]
  · rw [if_neg hneg, List.getElem?_eq_none (by omega)]

theorem slotAt_eq_ok_iff {f : Frame} {location : Int} {k : Nat} {slot : Option Value} :
    slotAt f location = .ok (k, slot) ↔
      0 ≤ location ∧ f[location.toNat]? = some slot ∧ k = location.toNat := by
  unfold slotAt
  by_cases hneg : location < 0
  · rw [if_pos hneg]
    constructor
    · intro h
      cases h
    · rintro ⟨hpos, _⟩
      omega
  · rw [if_neg hneg]
    rcases f[location.toNat]? with _ | s
    · simp
    · simp only [Except.ok.injEq, Prod.mk.injEq, Option.some.injEq]
      constructor
      · rintro ⟨rfl, rfl⟩
        exact ⟨by omega, rfl, rfl⟩
      · rintro ⟨_, rfl, rfl⟩
        exact ⟨rfl, rfl⟩

/-- Where there is no slot, that is the error. -/
theorem slotAt_of_missing {f : Frame} {location : Int}
    (h : ¬ (0 ≤ location ∧ location < f.length)) :
    slotAt f location = .error (.locationOutOfBounds location ((f.length : Int) - 1)) := by
  unfold slotAt
  by_cases hneg : location < 0
  · rw [if_pos hneg]
  · rw [if_neg hneg, List.getElem?_eq_none (by omega)]

theorem rangeEnd?_eq_some_iff {first last : Int} {count : Nat} :
    rangeEnd? first count = some last ↔
      (FitsInt64 count ∧ FitsInt64 (first + count)) ∧ last = first + count - 1 := by
  unfold rangeEnd?
  split
  · next hfits =>
    constructor
    · intro h
      cases h
      exact ⟨hfits, rfl⟩
    · rintro ⟨_, rfl⟩
      rfl
  · next hfits =>
    constructor
    · intro h
      cases h
    · rintro ⟨h, _⟩
      exact absurd h hfits

/-- A range is found exactly if all of its cells are there and its end is a signed word. -/
theorem checkRange_eq_ok_iff {frame first : Int} {count i : Nat} {f : Frame} :
    fs.checkRange frame first count = .ok (i, f) ↔ (fs.IsFrame frame f ∧ i = frame.toNat) ∧
      0 ≤ first ∧ first + count ≤ f.length ∧ FitsInt64 (first + count) := by
  rw [← frameAt_eq_ok_iff]
  have hend (last : Int) := @rangeEnd?_eq_some_iff first last count
  unfold checkRange
  -- Kept opaque, lest its bounds are evaluated.
  generalize rangeEnd? first count = last? at hend
  rcases fs.frameAt frame with e | ⟨j, g⟩
  · constructor
    · intro h
      cases h
    · rintro ⟨h, _⟩
      cases h
  · rcases last? with _ | last
    · constructor
      · intro h
        cases h
      · rintro ⟨_, hpos, _, hfits⟩
        have hnone := (hend (first + count - 1)).mpr ⟨⟨by omega, hfits⟩, rfl⟩
        cases hnone
    · obtain ⟨⟨_, hfits⟩, rfl⟩ := (hend last).mp rfl
      simp only [bind, Except.bind]
      split
      · next hwithin =>
        constructor
        · intro h
          cases h
          exact ⟨rfl, hwithin.1, by omega, hfits⟩
        · rintro ⟨h, _⟩
          cases h
          rfl
      · next hwithin =>
        constructor
        · intro h
          cases h
        · rintro ⟨h, hpos, hle, _⟩
          cases h
          exact absurd ⟨hpos, by omega⟩ hwithin

/-- A cell reads as a value exactly if the value is in it. -/
theorem read_eq_ok_iff {offset frame : Int} {v : Value} :
    fs.read offset frame = .ok v ↔
      ∃ f, fs.IsFrame frame f ∧ 0 ≤ offset ∧ f[offset.toNat]? = some (some v) := by
  constructor
  · intro h
    unfold read at h
    rcases hf : fs.frameAt frame with e | ⟨i, f⟩
    · rw [hf] at h
      cases h
    · rcases hs : slotAt f offset with e | ⟨k, _ | w⟩
      · simp only [hf, hs, bind, Except.bind] at h
        cases h
      · simp only [hf, hs, bind, Except.bind] at h
        cases h
      · simp only [hf, hs, bind, Except.bind] at h
        cases h
        obtain ⟨hpos, hslot, _⟩ := slotAt_eq_ok_iff.mp hs
        exact ⟨f, (frameAt_eq_ok_iff.mp hf).1, hpos, hslot⟩
  · rintro ⟨f, hf, hpos, hslot⟩
    have hframe : fs.frameAt frame = .ok (frame.toNat, f) := frameAt_eq_ok_iff.mpr ⟨hf, rfl⟩
    have hfound : slotAt f offset = .ok (offset.toNat, some v) :=
      slotAt_eq_ok_iff.mpr ⟨hpos, hslot, rfl⟩
    unfold read
    simp only [hframe, hfound, bind, Except.bind]

/-- A cell is written exactly if it is there. -/
theorem write_eq_ok_iff {offset frame : Int} {v : Value} :
    fs.write offset frame v = .ok fs' ↔ ∃ f, fs.IsFrame frame f ∧
      (0 ≤ offset ∧ offset < f.length) ∧ fs' = fs.set frame.toNat (f.set offset.toNat (some v)) := by
  constructor
  · intro h
    unfold write at h
    rcases hf : fs.frameAt frame with e | ⟨i, f⟩
    · rw [hf] at h
      cases h
    · rcases hs : slotAt f offset with e | ⟨k, slot⟩
      · simp only [hf, hs, bind, Except.bind] at h
        cases h
      · simp only [hf, hs, bind, Except.bind] at h
        cases h
        obtain ⟨hframe, rfl⟩ := frameAt_eq_ok_iff.mp hf
        obtain ⟨hpos, hslot, rfl⟩ := slotAt_eq_ok_iff.mp hs
        have hlt := (List.getElem?_eq_some_iff.mp hslot).1
        exact ⟨f, hframe, ⟨hpos, by omega⟩, rfl⟩
  · rintro ⟨f, hf, ⟨hpos, hlt⟩, rfl⟩
    have hindex : offset.toNat < f.length := by omega
    have hframe : fs.frameAt frame = .ok (frame.toNat, f) := frameAt_eq_ok_iff.mpr ⟨hf, rfl⟩
    have hfound : slotAt f offset = .ok (offset.toNat, f[offset.toNat]) :=
      slotAt_eq_ok_iff.mpr ⟨hpos, List.getElem?_eq_getElem hindex, rfl⟩
    unfold write
    simp only [hframe, hfound, bind, Except.bind]
    rfl

/-- Slots give values exactly if none of them is empty. -/
theorem slotValues_eq_ok_iff {frame offset : Int} {slots : List (Option Value)} {vs : List Value} :
    slotValues frame offset slots = .ok vs ↔ slots = vs.map some := by
  induction slots generalizing offset vs with
  | nil =>
    cases vs with
    | nil => exact ⟨fun _ => rfl, fun _ => rfl⟩
    | cons => exact ⟨nofun, nofun⟩
  | cons slot slots ih =>
    cases slot with
    | none =>
      cases vs with
      | nil => exact ⟨nofun, nofun⟩
      | cons => exact ⟨nofun, by simp⟩
    | some w =>
      rw [slotValues]
      rcases hrest : slotValues frame (offset + 1) slots with e | us
      · constructor
        · intro h
          cases h
        · intro h
          cases vs with
          | nil => cases h
          | cons v vs =>
            cases h
            cases hrest.symm.trans (ih.mpr rfl)
      · have hslots := ih.mp hrest
        cases vs with
        | nil => simp
        | cons v vs =>
          have hinj : slots = vs.map some ↔ us = vs := by
            rw [hslots, List.map_inj_right fun _ _ => Option.some.inj]
          simp only [Except.ok.injEq, List.cons.injEq, List.map_cons, Option.some.injEq, hinj]

/-- What is read from a range that was found are the values of its slots. -/
theorem readRange_of_checkRange {offset frame : Int} {count i : Nat} {f : Frame}
    (h : fs.checkRange frame offset count = .ok (i, f)) :
    fs.readRange offset frame count =
      slotValues frame offset ((f.drop offset.toNat).take count) := by
  unfold readRange
  rw [h]
  rfl

/-- Writing to a range that was found stores the values in its frame. -/
theorem writeRange_of_checkRange {offset frame : Int} {vs : List Value} {i : Nat} {f : Frame}
    (h : fs.checkRange frame offset vs.length = .ok (i, f)) :
    fs.writeRange offset frame vs = .ok (fs.set i (storeAt f offset.toNat vs)) := by
  unfold writeRange
  rw [h]
  rfl

/-- A row of cells reads as values exactly if the values are in it. -/
theorem readRange_eq_ok_iff {offset frame : Int} {count : Nat} {vs : List Value} :
    fs.readRange offset frame count = .ok vs ↔ ∃ f, fs.IsFrame frame f ∧
      (0 ≤ offset ∧ offset + count ≤ f.length ∧ FitsInt64 (offset + count)) ∧
      (f.drop offset.toNat).take count = vs.map some := by
  constructor
  · intro h
    rcases hc : fs.checkRange frame offset count with e | ⟨i, f⟩
    · rw [readRange, hc] at h
      cases h
    · rw [readRange_of_checkRange hc] at h
      obtain ⟨⟨hf, _⟩, hrange⟩ := checkRange_eq_ok_iff.mp hc
      exact ⟨f, hf, hrange, slotValues_eq_ok_iff.mp h⟩
  · rintro ⟨f, hf, hrange, hslots⟩
    have hc : fs.checkRange frame offset count = .ok (frame.toNat, f) :=
      checkRange_eq_ok_iff.mpr ⟨⟨hf, rfl⟩, hrange⟩
    rw [readRange_of_checkRange hc]
    exact slotValues_eq_ok_iff.mpr hslots

/-- A row of cells is written exactly if all of it is there and its end is a signed word. -/
theorem writeRange_eq_ok_iff {offset frame : Int} {vs : List Value} :
    fs.writeRange offset frame vs = .ok fs' ↔ ∃ f, fs.IsFrame frame f ∧
      (0 ≤ offset ∧ offset + vs.length ≤ f.length ∧ FitsInt64 (offset + vs.length)) ∧
      fs' = fs.set frame.toNat (storeAt f offset.toNat vs) := by
  constructor
  · intro h
    rcases hc : fs.checkRange frame offset vs.length with e | ⟨i, f⟩
    · rw [writeRange, hc] at h
      cases h
    · rw [writeRange_of_checkRange hc] at h
      obtain ⟨⟨hf, rfl⟩, hrange⟩ := checkRange_eq_ok_iff.mp hc
      cases h
      exact ⟨f, hf, hrange, rfl⟩
  · rintro ⟨f, hf, hrange, rfl⟩
    have hc : fs.checkRange frame offset vs.length = .ok (frame.toNat, f) :=
      checkRange_eq_ok_iff.mpr ⟨⟨hf, rfl⟩, hrange⟩
    exact writeRange_of_checkRange hc

/-! Storing values in a frame. -/

theorem length_storeAt {f : Frame} {first : Nat} {vs : List Value}
    (h : first + vs.length ≤ f.length) : (storeAt f first vs).length = f.length := by
  simp only [storeAt, List.length_append, List.length_take, List.length_map, List.length_drop]
  omega

theorem getElem?_storeAt {f : Frame} {first k : Nat} {vs : List Value}
    (h : first + vs.length ≤ f.length) : (storeAt f first vs)[k]? =
      if first ≤ k ∧ k < first + vs.length then (vs[k - first]?).map some else f[k]? := by
  have htake : (f.take first).length = first := List.length_take_of_le (by omega)
  have hstored : (f.take first ++ vs.map some).length = first + vs.length := by
    rw [List.length_append, List.length_map, htake]
  unfold storeAt
  rw [List.getElem?_append, hstored, List.getElem?_append, htake]
  split
  · split
    · rw [if_neg (by omega), List.getElem?_take_of_lt (by omega)]
    · rw [if_pos (by omega), List.getElem?_map]
  · rw [if_neg (by omega), List.getElem?_drop]
    congr 1
    omega

theorem storeAt_nil (f : Frame) (first : Nat) : storeAt f first [] = f := by
  simp [storeAt]

/-- Values are stored one after the other. -/
theorem storeAt_cons {f : Frame} {first : Nat} (v : Value) (vs : List Value)
    (h : first < f.length) :
    storeAt f first (v :: vs) = storeAt (f.set first (some v)) (first + 1) vs := by
  have htake : (f.set first (some v)).take (first + 1) = f.take first ++ [some v] := by
    rw [List.take_add_one, List.take_set_of_le (Nat.le_refl first), List.getElem?_set_self h]
    rfl
  have hdrop : (f.set first (some v)).drop (first + 1 + vs.length)
      = f.drop (first + (v :: vs).length) := by
    rw [List.drop_set_of_lt (by omega), List.length_cons]
    congr 1
    omega
  simp only [storeAt, htake, hdrop, List.map_cons, List.append_assoc, List.cons_append,
    List.nil_append]

theorem alloc_eq_ok_iff {count : Nat} :
    fs.alloc count = .ok fs' ↔
      ∃ f rest, fs = f :: rest ∧ fs' = (f ++ Frame.empty count) :: rest := by
  cases fs with
  | nil => exact ⟨nofun, nofun⟩
  | cons f rest =>
    constructor
    · intro h
      cases h
      exact ⟨f, rest, rfl, rfl⟩
    · rintro ⟨g, others, hfs, rfl⟩
      cases hfs
      rfl

/-! The sizes of frames. -/

/-- Replacing a frame by another of its size changes no size. -/
theorem sizes_set {i : Nat} {f f' : Frame} (hi : fs[i]? = some f) (hlength : f'.length = f.length) :
    FrameStack.sizes (fs.set i f') = fs.sizes := by
  have hsize : (fs.map List.length)[i]? = some f'.length := by
    rw [List.getElem?_map, hi, hlength]
    rfl
  unfold sizes
  rw [List.map_set]
  apply List.ext_getElem?
  intro k
  rw [List.getElem?_set]
  split
  · next hk =>
    subst hk
    have hlt := (List.getElem?_eq_some_iff.mp hsize).1
    rw [if_pos hlt, hsize]
  · rfl

theorem sizes_write {offset frame : Int} {v : Value} (h : fs.write offset frame v = .ok fs') :
    fs'.sizes = fs.sizes := by
  obtain ⟨f, hf, _, rfl⟩ := write_eq_ok_iff.mp h
  exact sizes_set hf.2 List.length_set

theorem sizes_writeRange {offset frame : Int} {vs : List Value}
    (h : fs.writeRange offset frame vs = .ok fs') : fs'.sizes = fs.sizes := by
  obtain ⟨f, hf, hrange, rfl⟩ := writeRange_eq_ok_iff.mp h
  exact sizes_set hf.2 (length_storeAt (by omega))

/-- As many values as asked for are read, and no more than the frame has slots. -/
theorem length_readRange {offset frame : Int} {count : Nat} {vs : List Value}
    (h : fs.readRange offset frame count = .ok vs) :
    ∃ f, fs.IsFrame frame f ∧ vs.length = count ∧ count ≤ f.length := by
  obtain ⟨f, hf, hrange, hslots⟩ := readRange_eq_ok_iff.mp h
  have hlength := congrArg List.length hslots
  rw [List.length_take, List.length_drop, List.length_map] at hlength
  exact ⟨f, hf, by omega, by omega⟩

end FrameStack

end PixelMachine
