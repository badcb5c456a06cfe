import PixelMachine.Saved.Value

/-! Snapshots of a machine for tools, and their saved form. -/
namespace PixelMachine

/-- What a tool sees of a machine. The stacks have their bottom first. -/
structure Snapshot where
  programCounter : Int64
  halted : Bool
  paused : Bool
  width : UInt32
  height : UInt32
  workStack : List Value
  returnStack : List UInt64
  frames : FrameStack

namespace Snapshot

/-- The saved form of a snapshot. -/
def toJson (s : Snapshot) : Json :=
  .obj [("program_counter", .ofInt64 s.programCounter), ("halted", .bool s.halted),
    ("paused", .bool s.paused), ("width", .ofUInt32 s.width), ("height", .ofUInt32 s.height),
    ("work_stack", .ofList Value.toJson s.workStack),
    ("ret_stack", .ofList .ofUInt64 s.returnStack), ("frames", FrameStack.toJson s.frames)]

/-- Reads a saved snapshot. -/
def ofJson? (j : Json) : Option Snapshot :=
  match j.record? ["program_counter", "halted", "paused", "width", "height", "work_stack", "ret_stack",
    "frames"] with
  | some [counter, halted, paused, width, height, workStack, returnStack, frames] => do
    let counter ← Json.required Json.int64? counter
    let halted ← Json.required Json.bool? halted
    let paused ← Json.required Json.bool? paused
    let width ← Json.required Json.uint32? width
    let height ← Json.required Json.uint32? height
    let workStack ← Json.required (Json.list? Value.ofJson?) workStack
    let returnStack ← Json.required (Json.list? Json.uint64?) returnStack
    let frames ← Json.required FrameStack.ofJson? frames
    return ⟨counter, halted, paused, width, height, workStack, returnStack, frames⟩
  | _ => none

end Snapshot

end PixelMachine
