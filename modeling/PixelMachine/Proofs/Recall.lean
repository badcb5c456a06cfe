import PixelMachine.Proofs.Addressing

/-! Memory recalls what was last stored. What is done to it is listed, and the list alone tells what
reading a cell gives: the value stored last since the frame of the cell was opened. Frames are counted
from the innermost one, so that their indices shift whenever one is opened or closed; a cell keeps the
number of frames below its own. -/
namespace PixelMachine

namespace FrameStack

/-- Something that is done to memory. -/
inductive Act where
  | enter (f : Frame)
  | leave
  | alloc (count : Nat)
  | write (offset frame : Int) (v : Value)
  | writeRange (offset frame : Int) (vs : List Value)

/-- The memory after an act that succeeds. -/
def Act.apply (fs : FrameStack) : Act → Except MemoryError FrameStack
  | .enter f => .ok (fs.enter f)
  | .leave => .ok fs.leave
  | .alloc count => fs.alloc count
  | .write offset frame v => fs.write offset frame v
  | .writeRange offset frame vs => fs.writeRange offset frame vs

/-! Acts in place, slot by slot. -/

/-- A computation on memory in place: what it has changed before it fails stays changed. -/
abbrev InPlace := ExceptT MemoryError (StateM FrameStack)

/-- Puts a value into a slot. -/
def putSlot (i k : Nat) (v : Value) : InPlace Unit :=
  modify fun fs =>
    match fs[i]? with
    | some f => fs.set i (f.set k (some v))
    | none => fs

/-- Puts values into slots in a row. -/
def putSlots (i : Nat) : Nat → List Value → InPlace Unit
  | _, [] => pure ()
  | k, v :: vs => do
    putSlot i k v
    putSlots i (k + 1) vs

/-- The parts of an act, one after the other. -/
def Act.inPlace : Act → InPlace Unit
  | .enter f => modify (·.enter f)
  | .leave => modify FrameStack.leave
  | .alloc count => do
    let fs ← get
    if fs.isEmpty then throw (.frameOutOfBounds 0 fs.lastFrame)
    modify (·.modifyHead (· ++ Frame.empty count))
  | .write offset frame v => do
    let (i, f) ← liftExcept (frameAt (← get) frame)
    let (k, _) ← liftExcept (slotAt f offset)
    putSlot i k v
  | .writeRange offset frame vs => do
    let (i, _) ← liftExcept (checkRange (← get) frame offset vs.length)
    putSlots i offset.toNat vs

/-- How an act ends, and the memory that it leaves. -/
def Act.perform (fs : FrameStack) (a : Act) : Except MemoryError Unit × FrameStack :=
  a.inPlace.run.run fs

variable {fs fs' : FrameStack}

theorem run_putSlot {i : Nat} {f : Frame} (h : fs[i]? = some f) (k : Nat) (v : Value) :
    (putSlot i k v).run.run fs = (.ok (), fs.set i (f.set k (some v))) := by
  have hrun : (putSlot i k v).run.run fs = (.ok (), match fs[i]? with
      | some f => fs.set i (f.set k (some v))
      | none => fs) := rfl
  rw [hrun, h]

/-- Slots that are filled one after the other end up as when all are filled at once. -/
theorem run_putSlots {frame : Int} {k : Nat} {f : Frame} {vs : List Value} (hf : fs.IsFrame frame f)
    (hk : k + vs.length ≤ f.length) :
    (putSlots frame.toNat k vs).run.run fs = (.ok (), fs.set frame.toNat (storeAt f k vs)) := by
  -- One slot is filled, and the rest in the frame that this leaves.
  induction vs generalizing fs f k with
  | nil =>
    rw [storeAt_nil, hf.set_self]
    rfl
  | cons v vs ih =>
    rw [List.length_cons] at hk
    have hroom : k + 1 + vs.length ≤ (f.set k (some v)).length := by
      rw [List.length_set]
      omega
    calc (putSlots frame.toNat k (v :: vs)).run.run fs
      _ = (putSlots frame.toNat (k + 1) vs).run.run ((putSlot frame.toNat k v).run.run fs).2 := rfl
      _ = (putSlots frame.toNat (k + 1) vs).run.run (fs.set frame.toNat (f.set k (some v))) := by
          rw [run_putSlot hf.2]
      _ = (.ok (), (fs.set frame.toNat (f.set k (some v))).set frame.toNat
            (storeAt (f.set k (some v)) (k + 1) vs)) := ih (hf.set _) hroom
      _ = (.ok (), fs.set frame.toNat (storeAt f k (v :: vs))) := by
          rw [List.set_set, storeAt_cons v vs (by omega)]

/-- A check that fails leaves memory as it is. -/
theorem run_check {α β : Type} (r : Except MemoryError α) (g : α → InPlace β) :
    (liftExcept r >>= g).run.run fs =
      match r with
      | .ok x => (g x).run.run fs
      | .error e => (.error e, fs) := by
  cases r with
  | ok x => rfl
  | error e => rfl

/-- In place an act ends as it does at once, and where it fails it has not changed anything. -/
theorem perform_eq (fs : FrameStack) (a : Act) : a.perform fs =
    match a.apply fs with
    | .ok fs' => (.ok (), fs')
    | .error e => (.error e, fs) := by
  cases a with
  | enter f => rfl
  | leave => rfl
  | alloc count =>
    cases fs with
    | nil => rfl
    | cons f rest => rfl
  | write offset frame v =>
    have hrun : Act.perform fs (.write offset frame v) =
        (liftExcept (fs.frameAt frame) >>= fun x =>
          liftExcept (slotAt x.2 offset) >>= fun y => putSlot x.1 y.1 v : InPlace Unit).run.run fs :=
      rfl
    have happly : Act.apply fs (.write offset frame v) =
        (fs.frameAt frame >>= fun x => slotAt x.2 offset >>= fun y =>
          .ok (fs.set x.1 (x.2.set y.1 (some v)))) := rfl
    rw [hrun, happly, run_check]
    rcases hf : fs.frameAt frame with e | ⟨i, f⟩
    · rfl
    · obtain ⟨hframe, rfl⟩ := frameAt_eq_ok_iff.mp hf
      simp only [bind, Except.bind]
      rcases slotAt f offset with e | ⟨k, slot⟩
      · rfl
      · exact run_putSlot hframe.2 k v
  | writeRange offset frame vs =>
    have hrun : Act.perform fs (.writeRange offset frame vs) =
        (liftExcept (fs.checkRange frame offset vs.length) >>= fun x =>
          putSlots x.1 offset.toNat vs : InPlace Unit).run.run fs := rfl
    have happly : Act.apply fs (.writeRange offset frame vs) =
        (fs.checkRange frame offset vs.length >>= fun x =>
          .ok (fs.set x.1 (storeAt x.2 offset.toNat vs))) := rfl
    rw [hrun, happly, run_check]
    rcases hc : fs.checkRange frame offset vs.length with e | ⟨i, f⟩
    · rfl
    · obtain ⟨⟨hframe, rfl⟩, hpos, hle, _⟩ := checkRange_eq_ok_iff.mp hc
      have hroom : offset.toNat + vs.length ≤ f.length := by omega
      exact run_putSlots hframe hroom

/-! What the list of acts tells. The latest act stands first. -/

/-- The memory after some acts, each of which is carried out in place, be it with success or not. -/
def memoryAfter : List Act → FrameStack
  | [] => initial
  | a :: earlier => (a.perform (memoryAfter earlier)).2

/-- The sizes of the frames after an act, the innermost one first. -/
def Act.resize (sizes : List Nat) : Act → List Nat
  | .enter f => f.length :: sizes
  | .leave => sizes.drop 1
  | .alloc count => sizes.modifyHead (· + count)
  | .write _ _ _ | .writeRange _ _ _ => sizes

/-- The sizes of the frames after some acts. -/
def sizesAfter : List Act → List Nat
  | [] => [0]
  | a :: earlier => a.resize (sizesAfter earlier)

/-- Frames of such sizes have `count` cells in a row. -/
abbrev HasCells (sizes : List Nat) (offset frame : Int) (count : Nat) : Prop :=
  0 ≤ frame ∧ 0 ≤ offset ∧ ∃ size ∈ sizes[frame.toNat]?, offset + count ≤ size

/-- What an act needs is there. -/
def Act.Finds (sizes : List Nat) : Act → Prop
  | .enter _ | .leave => True
  | .alloc _ => sizes ≠ []
  | .write offset frame _ => HasCells sizes offset frame 1
  | .writeRange offset frame vs =>
    HasCells sizes offset frame vs.length ∧ FitsInt64 (offset + vs.length)

instance (sizes : List Nat) : DecidablePred (Act.Finds sizes)
  | .enter _ | .leave => isTrue trivial
  | .alloc _ => inferInstanceAs (Decidable (sizes ≠ []))
  | .write offset frame _ => inferInstanceAs (Decidable (HasCells sizes offset frame 1))
  | .writeRange offset frame vs =>
    inferInstanceAs (Decidable (HasCells sizes offset frame vs.length ∧ FitsInt64 (offset + vs.length)))

/-- What an act tells of the cell at an offset of the frame with `level` frames below it: the slot that
the frame comes with if the act opens it, the value if the act stores one there, and else nothing. -/
def Act.tells (sizes : List Nat) (level offset : Nat) (a : Act) : Option (Option Value) :=
  match a with
  | .enter f => if level = sizes.length then some f[offset]?.join else none
  | .leave | .alloc _ => none
  | .write o frame v =>
    if a.Finds sizes ∧ level + 1 + frame = sizes.length ∧ offset = o then some (some v) else none
  | .writeRange o frame vs =>
    if a.Finds sizes ∧ level + 1 + frame = sizes.length ∧ o ≤ offset then
      vs[(offset - o).toNat]?.map some
    else none

/-- The value that was last stored in a cell since its frame was opened, if there is one. -/
def lastStored (level offset : Nat) : List Act → Option Value
  | [] => none
  | a :: earlier => (a.tells (sizesAfter earlier) level offset).getD (lastStored level offset earlier)

/-! What memory holds, with its frames counted from the outermost one. -/

/-- The value in the cell at an offset of the frame with `level` frames below it, if there is one. -/
def held (fs : FrameStack) (level offset : Nat) : Option Value :=
  (fs.reverse[level]?.bind (·[offset]?)).join

variable {level offset : Nat}

theorem held_of_isFrame {frame : Int} {f : Frame} (hf : fs.IsFrame frame f)
    (hlevel : level + 1 + frame = fs.length) : fs.held level offset = f[offset]?.join := by
  have hlt := hf.lt_length
  have hpos := hf.1
  have hindex : fs.length - 1 - level = frame.toNat := by omega
  have hframe : fs.reverse[level]? = some f := by
    rw [List.getElem?_reverse (by omega), hindex, hf.2]
  rw [held, hframe, Option.bind_some]

theorem held_of_le (h : fs.length ≤ level) : fs.held level offset = none := by
  have hnone : fs.reverse[level]? = none := by
    apply List.getElem?_eq_none
    rwa [List.length_reverse]
  rw [held, hnone]
  rfl

theorem held_enter (fs : FrameStack) (f : Frame) : (fs.enter f).held level offset =
    if level = fs.length then f[offset]?.join else fs.held level offset := by
  rcases Nat.lt_trichotomy level fs.length with hlt | rfl | hgt
  · have hsame : (fs.enter f).reverse[level]? = fs.reverse[level]? := by
      rw [enter, List.reverse_cons, List.getElem?_append_left (by rwa [List.length_reverse])]
    rw [if_neg (by omega), held, held, hsame]
  · have hinnermost : (fs.enter f).IsFrame 0 f := ⟨by omega, rfl⟩
    have hlength : (fs.enter f).length = fs.length + 1 := rfl
    rw [if_pos rfl, held_of_isFrame hinnermost (by omega)]
  · have hlength : (fs.enter f).length = fs.length + 1 := rfl
    rw [if_neg (by omega), held_of_le (by omega), held_of_le (by omega)]

theorem held_set {i : Nat} (hi : i < fs.length) (g : Frame) : held (fs.set i g) level offset =
    if level + 1 + i = fs.length then g[offset]?.join else fs.held level offset := by
  have hlength : (fs.set i g).length = fs.length := List.length_set
  by_cases hlevel : level < fs.length
  · have hframe : (fs.set i g).reverse[level]? =
        if level + 1 + i = fs.length then some g else fs.reverse[level]? := by
      rw [List.getElem?_reverse (by omega), List.getElem?_reverse hlevel, hlength, List.getElem?_set]
      by_cases heq : i = fs.length - 1 - level
      · rw [if_pos heq, if_pos hi, if_pos (by omega)]
      · rw [if_neg heq, if_neg (by omega)]
    rw [held, hframe]
    split
    · rfl
    · rfl
  · rw [if_neg (by omega), held_of_le (by omega), held_of_le (by omega)]

/-- Empty slots at the end of a frame hold no value. -/
theorem join_getElem?_append_empty (f : Frame) (count : Nat) :
    (f ++ Frame.empty count)[offset]?.join = f[offset]?.join := by
  rw [List.getElem?_append]
  split
  · rfl
  · rw [List.getElem?_eq_none (show f.length ≤ offset by omega), Frame.empty, List.getElem?_replicate]
    split
    · rfl
    · rfl

theorem join_getElem?_set {f : Frame} {k : Nat} (hk : k < f.length) (v : Value) :
    (f.set k (some v))[offset]?.join = if offset = k then some v else f[offset]?.join := by
  rw [List.getElem?_set]
  by_cases heq : k = offset
  · rw [if_pos heq, if_pos hk, if_pos heq.symm]
    rfl
  · rw [if_neg heq, if_neg (Ne.symm heq)]

theorem join_getElem?_storeAt {f : Frame} {first : Nat} {vs : List Value}
    (h : first + vs.length ≤ f.length) : (storeAt f first vs)[offset]?.join =
      if first ≤ offset then (vs[offset - first]?.map some).getD f[offset]?.join
      else f[offset]?.join := by
  rw [getElem?_storeAt h]
  by_cases hafter : first ≤ offset
  · rw [if_pos hafter]
    by_cases hstored : offset < first + vs.length
    · have hvalue : vs[offset - first]? = some vs[offset - first] :=
        List.getElem?_eq_getElem (by omega)
      rw [if_pos ⟨hafter, hstored⟩, hvalue]
      rfl
    · have hnone : vs[offset - first]? = none := List.getElem?_eq_none (by omega)
      rw [if_neg fun h => hstored h.2, hnone]
      rfl
  · rw [if_neg hafter, if_neg fun h => hafter h.1]

/-! One act. -/

variable {a : Act}

theorem hasCells_sizes_iff {o frame : Int} {count : Nat} : HasCells fs.sizes o frame count ↔
    ∃ f, fs.IsFrame frame f ∧ 0 ≤ o ∧ o + count ≤ f.length := by
  unfold HasCells sizes
  rw [List.getElem?_map]
  constructor
  · rintro ⟨hframe, hpos, size, hsize, hle⟩
    obtain ⟨f, hf, rfl⟩ := Option.map_eq_some_iff.mp hsize
    exact ⟨f, ⟨hframe, hf⟩, hpos, hle⟩
  · rintro ⟨f, ⟨hframe, hf⟩, hpos, hle⟩
    exact ⟨hframe, hpos, f.length, by rw [hf]; rfl, hle⟩

/-- An act succeeds exactly if what it needs is there. -/
theorem finds_sizes_iff : a.Finds fs.sizes ↔ ∃ fs', a.apply fs = .ok fs' := by
  cases a with
  | enter | leave => exact ⟨fun _ => ⟨_, rfl⟩, fun _ => trivial⟩
  | alloc count =>
    cases fs with
    | nil => exact ⟨fun h => absurd rfl h, nofun⟩
    | cons f rest => exact ⟨fun _ => ⟨_, rfl⟩, fun _ => List.cons_ne_nil _ _⟩
  | write o frame v =>
    refine hasCells_sizes_iff.trans ⟨?_, ?_⟩
    · rintro ⟨f, hf, hpos, hlt⟩
      exact ⟨_, write_eq_ok_iff.mpr ⟨f, hf, ⟨hpos, by omega⟩, rfl⟩⟩
    · rintro ⟨fs', h⟩
      obtain ⟨f, hf, ⟨hpos, hlt⟩, _⟩ := write_eq_ok_iff.mp h
      exact ⟨f, hf, hpos, by omega⟩
  | writeRange o frame vs =>
    constructor
    · rintro ⟨hcells, hfits⟩
      obtain ⟨f, hf, hpos, hle⟩ := hasCells_sizes_iff.mp hcells
      exact ⟨_, writeRange_eq_ok_iff.mpr ⟨f, hf, ⟨hpos, hle, hfits⟩, rfl⟩⟩
    · rintro ⟨fs', h⟩
      obtain ⟨f, hf, ⟨hpos, hle, hfits⟩, _⟩ := writeRange_eq_ok_iff.mp h
      exact ⟨hasCells_sizes_iff.mpr ⟨f, hf, hpos, hle⟩, hfits⟩

theorem sizes_apply (h : a.apply fs = .ok fs') : fs'.sizes = a.resize fs.sizes := by
  cases a with
  | enter f =>
    cases h
    rfl
  | leave =>
    cases h
    exact List.map_drop
  | alloc count =>
    obtain ⟨f, rest, rfl, rfl⟩ := alloc_eq_ok_iff.mp h
    simp [sizes, Act.resize, Frame.empty]
  | write o frame v => exact sizes_write h
  | writeRange o frame vs => exact sizes_writeRange h

/-- What a cell holds after an act is what the act tells of it, or what it held before. -/
theorem held_apply (h : a.apply fs = .ok fs') (hlevel : level < fs'.length) :
    fs'.held level offset = (a.tells fs.sizes level offset).getD (fs.held level offset) := by
  have hfinds := finds_sizes_iff.mpr ⟨fs', h⟩
  have hsizes : fs.sizes.length = fs.length := List.length_map _
  cases a with
  | enter f =>
    cases h
    rw [held_enter, Act.tells, hsizes]
    split
    · rfl
    · rfl
  | leave =>
    cases h
    cases fs with
    | nil => cases hlevel
    | cons f rest =>
      have hrest : level < rest.length := hlevel
      have hentered : held (f :: rest) level offset = held rest level offset :=
        (held_enter rest f).trans (if_neg (by omega))
      exact hentered.symm
  | alloc count =>
    obtain ⟨f, rest, rfl, rfl⟩ := alloc_eq_ok_iff.mp h
    have hsame : held ((f ++ Frame.empty count) :: rest) level offset = held (f :: rest) level offset := by
      calc held (enter rest (f ++ Frame.empty count)) level offset
        _ = held (enter rest f) level offset := by
            rw [held_enter, held_enter, join_getElem?_append_empty]
    exact hsame
  | write o frame v =>
    obtain ⟨f, hf, ⟨hpos, hlt⟩, rfl⟩ := write_eq_ok_iff.mp h
    have hframe := hf.1
    rw [held_set hf.lt_length, join_getElem?_set (by omega), Act.tells, hsizes]
    by_cases hhere : level + 1 + frame = fs.length
    · rw [if_pos (by omega), held_of_isFrame hf hhere]
      by_cases hcell : offset = o
      · rw [if_pos (by omega), if_pos ⟨hfinds, hhere, hcell⟩]
        rfl
      · rw [if_neg (by omega), if_neg fun h => hcell h.2.2]
        rfl
    · rw [if_neg (by omega), if_neg fun h => hhere h.2.1]
      rfl
  | writeRange o frame vs =>
    obtain ⟨f, hf, ⟨hpos, hle, _⟩, rfl⟩ := writeRange_eq_ok_iff.mp h
    have hframe := hf.1
    rw [held_set hf.lt_length, join_getElem?_storeAt (by omega), Act.tells, hsizes]
    by_cases hhere : level + 1 + frame = fs.length
    · rw [if_pos (by omega), held_of_isFrame hf hhere]
      by_cases hafter : o ≤ offset
      · have hindex : (offset - o).toNat = offset - o.toNat := by omega
        rw [if_pos (by omega), if_pos ⟨hfinds, hhere, hafter⟩, hindex]
      · rw [if_neg (by omega), if_neg fun h => hafter h.2.2]
        rfl
    · rw [if_neg (by omega), if_neg fun h => hhere h.2.1]
      rfl

/-- A cell that an act tells nothing of has been there before the act. -/
theorem lt_length_of_tells_eq_none (h : a.apply fs = .ok fs') (hlevel : level < fs'.length)
    (ht : a.tells fs.sizes level offset = none) : level < fs.length := by
  have hlength : fs'.length = (a.resize fs.sizes).length := by
    rw [← sizes_apply h, sizes, List.length_map]
  have hbefore : fs.sizes.length = fs.length := List.length_map _
  cases a with
  | enter f =>
    rw [Act.tells] at ht
    split at ht
    · cases ht
    · rw [Act.resize, List.length_cons] at hlength
      omega
  | leave =>
    rw [Act.resize, List.length_drop] at hlength
    omega
  | alloc count =>
    rw [Act.resize, List.length_modifyHead] at hlength
    omega
  | write | writeRange =>
    rw [Act.resize] at hlength
    omega

/-- An act that fails stores nothing and resizes nothing. -/
theorem tells_of_not_finds {sizes : List Nat} (h : ¬ a.Finds sizes) :
    a.tells sizes level offset = none ∧ a.resize sizes = sizes := by
  cases a with
  | enter | leave => exact absurd trivial h
  | alloc count =>
    obtain rfl : sizes = [] := Decidable.not_not.mp h
    exact ⟨rfl, rfl⟩
  | write | writeRange => exact ⟨if_neg fun hfinds => h hfinds.1, rfl⟩

/-! All acts. -/

/-- The list of acts tells the sizes of frames and the values in them. -/
theorem held_memoryAfter (acts : List Act) : (memoryAfter acts).sizes = sizesAfter acts ∧
    ∀ level offset, level < (memoryAfter acts).length →
      (memoryAfter acts).held level offset = lastStored level offset acts := by
  induction acts with
  | nil =>
    refine ⟨rfl, fun level offset hlevel => ?_⟩
    obtain rfl : level = 0 := Nat.lt_one_iff.mp hlevel
    rfl
  | cons a earlier ih =>
    obtain ⟨hsizes, hheld⟩ := ih
    rw [memoryAfter, perform_eq, sizesAfter, ← hsizes]
    rcases happly : a.apply (memoryAfter earlier) with e | fs'
    · have hfinds : ¬ a.Finds (memoryAfter earlier).sizes := by
        intro hfinds
        obtain ⟨fs', h⟩ := finds_sizes_iff.mp hfinds
        cases happly.symm.trans h
      refine ⟨(@tells_of_not_finds 0 0 a _ hfinds).2.symm, fun level offset hlevel => ?_⟩
      rw [lastStored, ← hsizes, (tells_of_not_finds hfinds).1]
      exact hheld level offset hlevel
    · refine ⟨sizes_apply happly, fun level offset hlevel => ?_⟩
      have hafter := @held_apply _ _ level offset a happly hlevel
      rw [lastStored, ← hsizes]
      rcases ht : a.tells (memoryAfter earlier).sizes level offset with _ | slot
      · have hbefore := lt_length_of_tells_eq_none happly hlevel ht
        rw [ht] at hafter
        exact hafter.trans (hheld level offset hbefore)
      · rw [ht] at hafter
        exact hafter

/-- Reading a cell, by what it holds. -/
theorem read_of_isFrame {o frame : Int} {f : Frame} (hf : fs.IsFrame frame f) (hpos : 0 ≤ o)
    (hlt : o < f.length) : fs.read o frame =
      match f[o.toNat]?.join with
      | some v => .ok v
      | none => .error (.uninitialised o frame) := by
  have hindex : o.toNat < f.length := by omega
  have hframe : fs.frameAt frame = .ok (frame.toNat, f) := frameAt_eq_ok_iff.mpr ⟨hf, rfl⟩
  have hslot : f[o.toNat]? = some f[o.toNat] := List.getElem?_eq_getElem hindex
  have hfound : slotAt f o = .ok (o.toNat, f[o.toNat]) := slotAt_eq_ok_iff.mpr ⟨hpos, hslot, rfl⟩
  rw [hslot]
  unfold FrameStack.read
  simp only [hframe, hfound, bind, Except.bind]
  rcases f[o.toNat] with _ | v
  · rfl
  · rfl

/-- Memory recalls what was last stored. After any acts, an act succeeds exactly if what it needs is
there, and one that fails leaves memory as it was. A cell that is there reads as the value stored in it
last since its frame was opened, by the slots that the frame came with or by a write; it is
uninitialised if there is none. Where the frame or the cell is not there, that is the error. -/
theorem read_gives_last_stored (acts : List Act) :
    (∀ a : Act,
      (a.Finds (sizesAfter acts) ∧ ∃ fs, a.apply (memoryAfter acts) = .ok fs ∧
        a.perform (memoryAfter acts) = (.ok (), fs)) ∨
      (¬ a.Finds (sizesAfter acts) ∧ ∃ e, a.apply (memoryAfter acts) = .error e ∧
        a.perform (memoryAfter acts) = (.error e, memoryAfter acts))) ∧
    ∀ offset frame : Int, (memoryAfter acts).read offset frame =
      let frames := (sizesAfter acts).length
      let slots := (sizesAfter acts).getD frame.toNat 0
      if 0 ≤ frame ∧ frame < frames then
        if 0 ≤ offset ∧ offset < slots then
          match lastStored (frames - 1 - frame.toNat) offset.toNat acts with
          | some v => .ok v
          | none => .error (.uninitialised offset frame)
        else .error (.locationOutOfBounds offset (slots - 1))
      else .error (.frameOutOfBounds frame (frames - 1)) := by
  obtain ⟨hsizes, hheld⟩ := held_memoryAfter acts
  rw [← hsizes]
  generalize memoryAfter acts = fs at hheld
  have hframes : fs.sizes.length = fs.length := List.length_map _
  constructor
  · intro a
    have hperform := perform_eq fs a
    rcases happly : a.apply fs with e | fs'
    · rw [happly] at hperform
      refine .inr ⟨fun hfinds => ?_, e, rfl, hperform⟩
      obtain ⟨fs', h⟩ := finds_sizes_iff.mp hfinds
      cases happly.symm.trans h
    · rw [happly] at hperform
      exact .inl ⟨finds_sizes_iff.mpr ⟨fs', happly⟩, fs', rfl, hperform⟩
  · intro offset frame
    dsimp only
    rw [hframes]
    by_cases hframe : 0 ≤ frame ∧ frame < fs.length
    · obtain ⟨f, hf⟩ := exists_isFrame_iff.mpr hframe
      have hslots : fs.sizes.getD frame.toNat 0 = f.length := by
        rw [sizes, List.getD_eq_getElem?_getD, List.getElem?_map, hf.2]
        rfl
      rw [if_pos hframe, hslots]
      by_cases hcell : 0 ≤ offset ∧ offset < f.length
      · have hlast : f[offset.toNat]?.join = lastStored (fs.length - 1 - frame.toNat) offset.toNat acts := by
          rw [← hheld _ _ (by omega), held_of_isFrame hf (by omega)]
        rw [if_pos hcell, read_of_isFrame hf hcell.1 hcell.2, hlast]
      · have hframeAt : fs.frameAt frame = .ok (frame.toNat, f) := frameAt_eq_ok_iff.mpr ⟨hf, rfl⟩
        rw [if_neg hcell, FrameStack.read]
        simp only [hframeAt, slotAt_of_missing hcell, bind, Except.bind]
    · rw [if_neg hframe, FrameStack.read, frameAt_of_missing hframe]
      rfl

/-- A value goes with its frame: a frame that is opened later at the same place starts anew. -/
example (v : Value) : (memoryAfter [.enter [none], .leave, .write 0 0 v, .enter [none]]).read 0 0
    = .error (.uninitialised 0 0) := rfl

end FrameStack

end PixelMachine
