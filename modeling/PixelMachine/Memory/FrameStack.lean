import PixelMachine.Memory.Error
import PixelMachine.Number.Word
import PixelMachine.Value

/-! Local memory: a stack of frames, each a list of slots that may be empty. -/
namespace PixelMachine

/-- The slots of one scope. -/
abbrev Frame := List (Option Value)

namespace Frame

/-- A frame of empty slots. -/
def empty (size : Nat) : Frame := List.replicate size none

/-- The slots between brackets. -/
def text (f : Frame) : String := "[" ++ ", ".intercalate (f.map Value.slotText) ++ "]"

end Frame

/-- Frames, the innermost one first. -/
abbrev FrameStack := List Frame

namespace FrameStack

/-- One empty frame. -/
def initial : FrameStack := [[]]

/-- The index of the last frame. -/
def lastFrame (fs : FrameStack) : Int := (fs.length : Int) - 1

/-- Opens an innermost frame. -/
def enter (fs : FrameStack) (f : Frame) : FrameStack := f :: fs

/-- Closes the innermost frame; without one nothing happens. -/
def leave (fs : FrameStack) : FrameStack := fs.drop 1

/-- Appends empty slots to the innermost frame. -/
def alloc (fs : FrameStack) (count : Nat) : Except MemoryError FrameStack :=
  match fs with
  | f :: rest => .ok ((f ++ Frame.empty count) :: rest)
  | [] => .error (.frameOutOfBounds 0 (lastFrame fs))

/-- The frame of an index, with the index as a natural number. -/
def frameAt (fs : FrameStack) (frame : Int) : Except MemoryError (Nat × Frame) :=
  if frame < 0 then .error (.frameOutOfBounds frame (lastFrame fs))
  else
    match fs[frame.toNat]? with
    | some f => .ok (frame.toNat, f)
    | none => .error (.frameOutOfBounds frame (lastFrame fs))

/-- The slot of a frame at an offset, with the offset as a natural number. -/
def slotAt (f : Frame) (location : Int) : Except MemoryError (Nat × Option Value) :=
  if location < 0 then .error (.locationOutOfBounds location ((f.length : Int) - 1))
  else
    match f[location.toNat]? with
    | some slot => .ok (location.toNat, slot)
    | none => .error (.locationOutOfBounds location ((f.length : Int) - 1))

/-- The value of a cell. -/
def read (fs : FrameStack) (offset frame : Int) : Except MemoryError Value := do
  let (_, f) ← frameAt fs frame
  let (_, slot) ← slotAt f offset
  match slot with
  | some v => .ok v
  | none => .error (.uninitialised offset frame)

/-- The memory after a cell is written. -/
def write (fs : FrameStack) (offset frame : Int) (v : Value) : Except MemoryError FrameStack := do
  let (i, f) ← frameAt fs frame
  let (k, _) ← slotAt f offset
  return fs.set i (f.set k (some v))

/-- The last index of `count` slots from `first` on, while a signed 64-bit word holds it. -/
def rangeEnd? (first : Int) (count : Nat) : Option Int :=
  if FitsInt64 count ∧ FitsInt64 (first + count) then some (first + count - 1) else none

/-- The frame that holds `count` slots from `first` on, all of them. -/
def checkRange (fs : FrameStack) (frame first : Int) (count : Nat) :
    Except MemoryError (Nat × Frame) := do
  let (i, f) ← frameAt fs frame
  match rangeEnd? first count with
  | some last =>
    if 0 ≤ first ∧ last < f.length then .ok (i, f)
    else .error (.rangeOutOfBounds first last ((f.length : Int) - 1))
  | none => .error (.rangeOutOfBounds first 9223372036854775807 ((f.length : Int) - 1))

/-- The values of slots, the first of which is at `offset`; the first empty one is the error. -/
def slotValues (frame : Int) : Int → List (Option Value) → Except MemoryError (List Value)
  | _, [] => .ok []
  | offset, none :: _ => .error (.uninitialised offset frame)
  | offset, some v :: slots =>
    match slotValues frame (offset + 1) slots with
    | .ok vs => .ok (v :: vs)
    | .error e => .error e

/-- The values of `count` cells in a row. -/
def readRange (fs : FrameStack) (offset frame : Int) (count : Nat) :
    Except MemoryError (List Value) := do
  let (_, f) ← checkRange fs frame offset count
  slotValues frame offset ((f.drop offset.toNat).take count)

/-- A frame with values stored from an index on. -/
def storeAt (f : Frame) (first : Nat) (vs : List Value) : Frame :=
  f.take first ++ vs.map some ++ f.drop (first + vs.length)

/-- The memory after cells in a row are written. -/
def writeRange (fs : FrameStack) (offset frame : Int) (vs : List Value) :
    Except MemoryError FrameStack := do
  let (i, f) ← checkRange fs frame offset vs.length
  return fs.set i (storeAt f offset.toNat vs)

end FrameStack

end PixelMachine
