import PixelMachine.Proofs.Memory

/-! Memory accessed with guards: on machine words a sum has to fit, and an index has to be in range.
Where one of these guards fails there is no result. None of them ever fails, but for one range that is
empty and begins at the least address, so that the guarded accesses do what those without guards do. -/
namespace PixelMachine

namespace Guarded

/-- A sum of unsigned words. -/
def addNat (a b : Nat) : Option Nat := if FitsUInt64 (a + b) then some (a + b) else none

/-- A difference of unsigned words. -/
def subNat (a b : Nat) : Option Nat := if b ≤ a then some (a - b) else none

/-- A product of unsigned words. -/
def mulNat (a b : Nat) : Option Nat := if FitsUInt64 (a * b) then some (a * b) else none

/-- A sum of signed words. -/
def addInt (a b : Int) : Option Int := if FitsInt64 (a + b) then some (a + b) else none

/-- A difference of signed words. -/
def subInt (a b : Int) : Option Int := if FitsInt64 (a - b) then some (a - b) else none

/-- An unsigned word read as a signed one. -/
def signed (n : Nat) : Int := if n < 9223372036854775808 then n else n - 18446744073709551616

/-- A signed word read as an unsigned one. -/
def unsigned (n : Int) : Nat := if 0 ≤ n then n.toNat else (n + 18446744073709551616).toNat

/-- The elements from `first` on and before `past`. -/
def slice {α : Type} (xs : List α) (first past : Nat) : Option (List α) :=
  if first ≤ past ∧ past ≤ xs.length then some ((xs.take past).drop first) else none

/-- The elements from `first` on. -/
def sliceFrom {α : Type} (xs : List α) (first : Nat) : Option (List α) :=
  if first ≤ xs.length then some (xs.drop first) else none

theorem addNat_of_fits {a b : Nat} (h : a + b < 18446744073709551616) : addNat a b = some (a + b) :=
  if_pos h

theorem mulNat_of_fits {a b : Nat} (h : a * b < 18446744073709551616) : mulNat a b = some (a * b) :=
  if_pos h

theorem subNat_of_le {a b : Nat} (h : b ≤ a) : subNat a b = some (a - b) := if_pos h

theorem addInt_of_fits {a b : Int} (h : FitsInt64 (a + b)) : addInt a b = some (a + b) := if_pos h

theorem subInt_of_fits {a b : Int} (h : FitsInt64 (a - b)) : subInt a b = some (a - b) := if_pos h

theorem slice_of_le {α : Type} {xs : List α} {first count : Nat} (h : first + count ≤ xs.length) :
    slice xs first (first + count) = some ((xs.drop first).take count) := by
  unfold slice
  rw [if_pos ⟨Nat.le_add_right first count, h⟩, List.drop_take, Nat.add_sub_cancel_left]

theorem signed_of_lt {n : Nat} (h : n < 9223372036854775808) : signed n = n := if_pos h

theorem unsigned_of_nonneg {n : Int} (h : 0 ≤ n) : unsigned n = n.toNat := if_pos h

/-- The last index of a collection, as a signed word. -/
theorem lastIndex_of_lt {n : Nat} (h : n < 9223372036854775808) :
    subInt (signed n) 1 = some ((n : Int) - 1) := by
  rw [signed_of_lt h]
  exact subInt_of_fits ⟨by omega, by omega⟩

end Guarded

/-- A computation that may fail with an error, and that has no result where a guard fails. -/
abbrev Checked (ε α : Type) := ExceptT ε Option α

namespace Checked

variable {ε α β : Type}

/-- What is done under a guard. -/
def within (o : Option α) : Checked ε α := ExceptT.mk (o.map .ok)

/-- A computation in which all guards hold. -/
def safe (r : Except ε α) : Checked ε α := ExceptT.mk (some r)

theorem within_some_bind (a : α) (f : α → Checked ε β) : (within (some a) >>= f) = f a := rfl

theorem safe_ok_bind (a : α) (f : α → Checked ε β) : (safe (.ok a) >>= f) = f a := rfl

theorem ok_bind (a : α) (f : α → Except ε β) : (Except.ok a >>= f) = f a := rfl

theorem error_bind (e : ε) (f : α → Except ε β) : (Except.error e >>= f) = .error e := rfl

theorem safe_error_bind (e : ε) (f : α → Checked ε β) : (safe (.error e) >>= f) = safe (.error e) := rfl

/-- Guards that hold in both parts of a sequence hold in the sequence. -/
theorem safe_bind {x : Checked ε α} {f : α → Checked ε β} {r : Except ε α} {s : α → Except ε β}
    (hx : x = safe r) (hf : ∀ a, r = .ok a → f a = safe (s a)) : (x >>= f) = safe (r >>= s) := by
  subst hx
  cases r with
  | error e => rfl
  | ok a => exact hf a rfl

end Checked

namespace Guarded

open Checked

/-- The index of a frame, with guards. -/
def resolveFrame (fs : FrameStack) (frame : Int) : Checked MemoryError Nat :=
  if frame < 0 ∨ fs.length ≤ unsigned frame then do
    let max ← within (subInt (signed fs.length) 1)
    throw (.frameOutOfBounds frame max)
  else pure (unsigned frame)

/-- The offset of a slot in a frame, with guards. -/
def resolveLocation (fs : FrameStack) (index : Nat) (location : Int) : Checked MemoryError Nat := do
  let f ← within fs[index]?
  if location < 0 ∨ f.length ≤ unsigned location then
    let max ← within (subInt (signed f.length) 1)
    throw (.locationOutOfBounds location max)
  else pure (unsigned location)

/-- The value of a cell, with guards. -/
def read (fs : FrameStack) (offset frame : Int) : Checked MemoryError Value := do
  let index ← resolveFrame fs frame
  let slot ← resolveLocation fs index offset
  let f ← within fs[index]?
  match ← within f[slot]? with
  | some v => pure v
  | none => throw (.uninitialised offset frame)

/-- The memory after a cell is written, with guards. -/
def write (fs : FrameStack) (offset frame : Int) (v : Value) : Checked MemoryError FrameStack := do
  let index ← resolveFrame fs frame
  let slot ← resolveLocation fs index offset
  let f ← within fs[index]?
  let _ ← within f[slot]?
  pure (fs.set index (f.set slot (some v)))

/-- The memory after slots are appended to the innermost frame, with guards. -/
def alloc (fs : FrameStack) (count : Nat) : Checked MemoryError FrameStack := do
  let max ← within (subInt (signed fs.length) 1)
  match fs with
  | [] => throw (.frameOutOfBounds 0 max)
  | f :: rest =>
    let size ← within (addNat f.length count)
    pure ((f ++ Frame.empty (size - f.length)) :: rest)

/-- The last index of a range, with guards. A range that reaches beyond the signed words has none. -/
def rangeEnd (first : Int) (count : Nat) : Option (Option Int) :=
  if FitsInt64 count ∧ FitsInt64 (first + count) then (subInt (first + count) 1).map some else some none

/-- The index of the frame that holds a range, with guards. -/
def checkRange (fs : FrameStack) (frame first : Int) (count : Nat) : Checked MemoryError Nat := do
  let index ← resolveFrame fs frame
  let f ← within fs[index]?
  match ← within (rangeEnd first count) with
  | some last =>
    if 0 ≤ first ∧ last < signed f.length then pure index
    else
      let max ← within (subInt (signed f.length) 1)
      throw (.rangeOutOfBounds first last max)
  | none =>
    let max ← within (subInt (signed f.length) 1)
    throw (.rangeOutOfBounds first 9223372036854775807 max)

/-- The values of slots of which `step` have been passed, with guards: the location of each is worked
out, be it needed or not. -/
def slotValues (offset frame : Int) : Nat → List (Option Value) → Checked MemoryError (List Value)
  | _, [] => pure []
  | step, slot :: slots => do
    let location ← within (addInt offset (signed step))
    match slot with
    | none => throw (.uninitialised location frame)
    | some v => do
      let vs ← slotValues offset frame (step + 1) slots
      pure (v :: vs)

/-- The values of cells in a row, with guards. -/
def readRange (fs : FrameStack) (offset frame : Int) (count : Nat) :
    Checked MemoryError (List Value) := do
  let index ← checkRange fs frame offset count
  let f ← within fs[index]?
  let past ← within (addNat (unsigned offset) count)
  let slots ← within (slice f (unsigned offset) past)
  slotValues offset frame 0 slots

/-- Slots with as many values in their place as there are. -/
def overwrite : List (Option Value) → List Value → List (Option Value)
  | _ :: slots, v :: vs => some v :: overwrite slots vs
  | slots, [] => slots
  | [], _ => []

/-- The memory after cells in a row are written, with guards. -/
def writeRange (fs : FrameStack) (offset frame : Int) (vs : List Value) :
    Checked MemoryError FrameStack := do
  let index ← checkRange fs frame offset vs.length
  let f ← within fs[index]?
  let slots ← within (sliceFrom f (unsigned offset))
  pure (fs.set index (f.take (unsigned offset) ++ overwrite slots vs))

/-- Frames and the memory that they make up are shorter than the signed words can count. -/
structure Small (fs : FrameStack) : Prop where
  frames : fs.length < 9223372036854775808
  slots : ∀ f ∈ fs, f.length < 9223372036854775808

variable {fs : FrameStack} {offset frame first : Int} {index count : Nat} {f : Frame}

theorem resolveFrame_eq (h : Small fs) (frame : Int) :
    resolveFrame fs frame = safe ((fs.frameAt frame).map (·.1)) := by
  unfold resolveFrame FrameStack.frameAt
  by_cases hneg : frame < 0
  · rw [if_pos (.inl hneg), if_pos hneg, lastIndex_of_lt h.frames]
    rfl
  · rw [unsigned_of_nonneg (by omega), if_neg hneg]
    rcases hf : fs[frame.toNat]? with _ | f
    · rw [if_pos (.inr (List.getElem?_eq_none_iff.mp hf)), lastIndex_of_lt h.frames]
      rfl
    · have hlt := (List.getElem?_eq_some_iff.mp hf).1
      rw [if_neg (by omega)]
      rfl

theorem resolveLocation_eq (h : Small fs) (hf : fs[index]? = some f) (location : Int) :
    resolveLocation fs index location = safe ((FrameStack.slotAt f location).map (·.1)) := by
  have hsmall := h.slots f (List.mem_of_getElem? hf)
  unfold resolveLocation FrameStack.slotAt
  rw [hf, within_some_bind]
  by_cases hneg : location < 0
  · rw [if_pos (.inl hneg), if_pos hneg, lastIndex_of_lt hsmall]
    rfl
  · rw [unsigned_of_nonneg (by omega), if_neg hneg]
    rcases hs : f[location.toNat]? with _ | slot
    · rw [if_pos (.inr (List.getElem?_eq_none_iff.mp hs)), lastIndex_of_lt hsmall]
      rfl
    · have hlt := (List.getElem?_eq_some_iff.mp hs).1
      rw [if_neg (by omega)]
      rfl

theorem getElem?_of_slotAt {location : Int} {slot : Option Value} {k : Nat}
    (h : FrameStack.slotAt f location = .ok (k, slot)) : f[k]? = some slot := by
  obtain ⟨_, hslot, rfl⟩ := FrameStack.slotAt_eq_ok_iff.mp h
  exact hslot

/-- The index that a frame is found at is that of the frame. -/
theorem getElem?_of_found (h : fs.frameAt frame = .ok (index, f)) : fs[index]? = some f := by
  obtain ⟨hf, rfl⟩ := FrameStack.frameAt_eq_ok_iff.mp h
  exact hf.2

theorem read_eq (h : Small fs) (offset frame : Int) :
    read fs offset frame = safe (fs.read offset frame) := by
  unfold read FrameStack.read
  rw [resolveFrame_eq h]
  rcases hf : fs.frameAt frame with e | ⟨i, f⟩
  · rfl
  · have hi := getElem?_of_found hf
    simp only [Except.map, safe_ok_bind]
    rw [resolveLocation_eq h hi, hi]
    rcases hs : FrameStack.slotAt f offset with e | ⟨k, slot⟩
    · simp only [ok_bind, error_bind, hs]
      rfl
    · simp only [Except.map, safe_ok_bind, within_some_bind, getElem?_of_slotAt hs, ok_bind, hs]
      cases slot with
      | none => rfl
      | some v => rfl

theorem write_eq (h : Small fs) (offset frame : Int) (v : Value) :
    write fs offset frame v = safe (fs.write offset frame v) := by
  unfold write FrameStack.write
  rw [resolveFrame_eq h]
  rcases hf : fs.frameAt frame with e | ⟨i, f⟩
  · rfl
  · have hi := getElem?_of_found hf
    simp only [Except.map, safe_ok_bind]
    rw [resolveLocation_eq h hi, hi]
    rcases hs : FrameStack.slotAt f offset with e | ⟨k, slot⟩
    · simp only [ok_bind, error_bind, hs]
      rfl
    · simp only [Except.map, safe_ok_bind, within_some_bind, getElem?_of_slotAt hs, ok_bind, hs]
      rfl

/-- Slots are appended as long as the size of the frame stays an unsigned word. -/
theorem alloc_eq (h : Small fs) (hfits : ∀ f, fs.head? = some f → FitsUInt64 (f.length + count)) :
    alloc fs count = safe (fs.alloc count) := by
  unfold alloc
  rw [lastIndex_of_lt h.frames, within_some_bind]
  cases fs with
  | nil => rfl
  | cons f rest =>
    dsimp only
    rw [addNat_of_fits (hfits f rfl), within_some_bind, Nat.add_sub_cancel_left]
    rfl

/-- The one range that has no last index is empty and begins at the least address. -/
theorem rangeEnd_eq (hfirst : FitsInt64 first)
    (hne : ¬ (first = -9223372036854775808 ∧ count = 0)) :
    rangeEnd first count = some (FrameStack.rangeEnd? first count) := by
  unfold rangeEnd FrameStack.rangeEnd?
  split
  · rw [subInt_of_fits ⟨by omega, by omega⟩]
    rfl
  · rfl

example : rangeEnd (-9223372036854775808) 0 = none := by decide

theorem checkRange_eq (h : Small fs) (hfirst : FitsInt64 first)
    (hne : ¬ (first = -9223372036854775808 ∧ count = 0)) :
    checkRange fs frame first count = safe ((fs.checkRange frame first count).map (·.1)) := by
  unfold checkRange FrameStack.checkRange
  rw [resolveFrame_eq h, rangeEnd_eq hfirst hne]
  -- Kept opaque, lest its bounds are evaluated.
  generalize FrameStack.rangeEnd? first count = last?
  rcases hf : fs.frameAt frame with e | ⟨i, f⟩
  · simp only [Except.map, safe_error_bind, error_bind]
  · have hi := getElem?_of_found hf
    have hsmall := h.slots f (List.mem_of_getElem? hi)
    have hmap : (Except.ok (i, f) : Except MemoryError (Nat × Frame)).map (·.1) = .ok i := rfl
    rw [hmap, safe_ok_bind, hi, within_some_bind, within_some_bind, ok_bind]
    cases last? with
    | none =>
      dsimp only
      rw [lastIndex_of_lt hsmall, within_some_bind]
      rfl
    | some last =>
      dsimp only
      rw [signed_of_lt hsmall]
      split
      · rfl
      · rw [subInt_of_fits ⟨by omega, by omega⟩, within_some_bind]
        rfl

theorem slotValues_eq {step : Nat} {slots : List (Option Value)} (hoffset : 0 ≤ offset)
    (hroom : offset + step + slots.length < 9223372036854775808) :
    slotValues offset frame step slots = safe (FrameStack.slotValues frame (offset + step) slots) := by
  induction slots generalizing step with
  | nil => rfl
  | cons slot slots ih =>
    rw [List.length_cons] at hroom
    have hstep : step < 9223372036854775808 := by omega
    have hlocation : FitsInt64 (offset + step) := ⟨by omega, by omega⟩
    simp only [slotValues, signed_of_lt hstep, addInt_of_fits hlocation, within_some_bind]
    cases slot with
    | none => rfl
    | some v =>
      have hnext := @ih (step + 1) (by omega)
      rw [Int.natCast_add, Int.natCast_one, ← Int.add_assoc] at hnext
      simp only [FrameStack.slotValues]
      rw [hnext]
      rcases FrameStack.slotValues frame (offset + step + 1) slots with e | vs
      · rfl
      · rfl

theorem readRange_eq (h : Small fs) (hoffset : FitsInt64 offset)
    (hne : ¬ (offset = -9223372036854775808 ∧ count = 0)) :
    readRange fs offset frame count = safe (fs.readRange offset frame count) := by
  unfold readRange FrameStack.readRange
  rw [checkRange_eq h hoffset hne]
  rcases hc : fs.checkRange frame offset count with e | ⟨i, f⟩
  · rfl
  · obtain ⟨⟨⟨_, hi⟩, rfl⟩, hpos, hwithin, _⟩ := FrameStack.checkRange_eq_ok_iff.mp hc
    have hsmall := h.slots f (List.mem_of_getElem? hi)
    have hslice : slice f offset.toNat (offset.toNat + count) =
        some ((f.drop offset.toNat).take count) := slice_of_le (by omega)
    simp only [Except.map, safe_ok_bind, hi, within_some_bind, unsigned_of_nonneg hpos,
      addNat_of_fits (show offset.toNat + count < 18446744073709551616 by omega), hslice, ok_bind]
    have hlength : ((f.drop offset.toNat).take count).length ≤ count := List.length_take_le _ _
    have hvalues := @slotValues_eq offset frame 0 ((f.drop offset.toNat).take count) hpos (by omega)
    rw [Int.natCast_zero, Int.add_zero] at hvalues
    exact hvalues

theorem overwrite_eq {slots : List (Option Value)} {vs : List Value} (h : vs.length ≤ slots.length) :
    overwrite slots vs = vs.map some ++ slots.drop vs.length := by
  induction vs generalizing slots with
  | nil =>
    cases slots with
    | nil => rfl
    | cons => rfl
  | cons v vs ih =>
    cases slots with
    | nil => simp at h
    | cons slot slots =>
      simp only [overwrite, ih (Nat.le_of_succ_le_succ h), List.map_cons, List.cons_append,
        List.length_cons, List.drop_succ_cons]

theorem writeRange_eq {vs : List Value} (h : Small fs) (hoffset : FitsInt64 offset)
    (hne : ¬ (offset = -9223372036854775808 ∧ vs.length = 0)) :
    writeRange fs offset frame vs = safe (fs.writeRange offset frame vs) := by
  unfold writeRange FrameStack.writeRange
  rw [checkRange_eq h hoffset hne]
  rcases hc : fs.checkRange frame offset vs.length with e | ⟨i, f⟩
  · rfl
  · obtain ⟨⟨⟨_, hi⟩, rfl⟩, hpos, hwithin, _⟩ := FrameStack.checkRange_eq_ok_iff.mp hc
    have hslots : sliceFrom f offset.toNat = some (f.drop offset.toNat) := if_pos (by omega)
    have hroom : vs.length ≤ (f.drop offset.toNat).length := by
      rw [List.length_drop]
      omega
    have hstored : f.take offset.toNat ++ overwrite (f.drop offset.toNat) vs =
        FrameStack.storeAt f offset.toNat vs := by
      rw [overwrite_eq hroom, List.drop_drop, FrameStack.storeAt, List.append_assoc]
    simp only [Except.map, safe_ok_bind, hi, within_some_bind, unsigned_of_nonneg hpos, hslots, hstored,
      ok_bind]
    rfl

end Guarded

end PixelMachine
