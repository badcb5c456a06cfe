import PixelMachine.Opcode
import PixelMachine.Table

/-! Statistics of a run. -/
namespace PixelMachine

/-- How many instructions ran, how often each opcode, which places of the program, and how deep the
stacks grew. -/
structure Trace where
  instructions : Nat := 0
  opcodeCounts : Table Opcode Nat := .empty
  coverage : IndexSet := .empty
  maxWorkStack : Nat := 0
  maxFrameDepth : Nat := 0
  maxCallDepth : Nat := 0

namespace Trace

/-- The statistics before anything has run. -/
def empty : Trace := {}

/-- Records that an instruction starts. -/
def record (t : Trace) (index : Nat) (opcode : Opcode) : Trace :=
  { t with
    instructions := t.instructions + 1
    opcodeCounts := t.opcodeCounts.insert opcode ((t.opcodeCounts.find? opcode).getD 0 + 1)
    coverage := t.coverage.insert index }

/-- Records the depths after an instruction. -/
def recordDepths (t : Trace) (workStack frames calls : Nat) : Trace :=
  { t with
    maxWorkStack := max t.maxWorkStack workStack
    maxFrameDepth := max t.maxFrameDepth frames
    maxCallDepth := max t.maxCallDepth calls }

end Trace

end PixelMachine
