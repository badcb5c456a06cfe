import PixelMachine.Saved.Value
import PixelMachine.Trace

/-! The saved form of statistics. -/
namespace PixelMachine

/-- The statistics of a run as they are saved: words for counts, and any list of places. -/
structure SavedTrace where
  instructions : UInt64 := 0
  opcodeCounts : Table Opcode UInt64 := .empty
  coverage : List UInt64 := []
  maxWorkStack : UInt64 := 0
  maxFrameDepth : UInt64 := 0
  maxCallDepth : UInt64 := 0

/-- Values changed one by one keep the order of keys. -/
def Table.map {κ ν μ : Type} [Ord κ] (t : Table κ ν) (f : ν → μ) : Table κ μ :=
  ⟨t.entries.map fun (k, v) => (k, f v), List.Pairwise.map _ (fun _ _ h => h) t.ascending⟩

/-- The statistics to be saved. -/
def Trace.saved (t : Trace) : SavedTrace where
  instructions := t.instructions.toUInt64
  opcodeCounts := t.opcodeCounts.map Nat.toUInt64
  coverage := t.coverage.members.map Nat.toUInt64
  maxWorkStack := t.maxWorkStack.toUInt64
  maxFrameDepth := t.maxFrameDepth.toUInt64
  maxCallDepth := t.maxCallDepth.toUInt64

namespace SavedTrace

/-- The saved form of counts: one field to an opcode, in order. -/
def countsToJson (t : Table Opcode UInt64) : Json :=
  .obj (t.entries.map fun (op, n) => (op.mnemonic, .ofUInt64 n))

/-- Reads saved counts; of two fields with one name the later counts. -/
def countsOfJson? (j : Json) : Option (Table Opcode UInt64) := do
  let fields ← j.fields?
  let entries ← fields.mapM fun (name, n) => do
    return (← Opcode.ofMnemonic? name, ← n.uint64?)
  return Table.ofList entries

/-- The saved form of statistics. -/
def toJson (t : SavedTrace) : Json :=
  .obj [("instructions", .ofUInt64 t.instructions), ("opcode_counts", countsToJson t.opcodeCounts),
    ("coverage", .ofList .ofUInt64 t.coverage), ("max_work_stack", .ofUInt64 t.maxWorkStack),
    ("max_frame_depth", .ofUInt64 t.maxFrameDepth), ("max_call_depth", .ofUInt64 t.maxCallDepth)]

/-- Reads saved statistics. -/
def ofJson? (j : Json) : Option SavedTrace :=
  match j.record? ["instructions", "opcode_counts", "coverage", "max_work_stack", "max_frame_depth",
    "max_call_depth"] with
  | some [instructions, counts, coverage, work, frames, calls] => do
    let instructions ← Json.required Json.uint64? instructions
    let counts ← Json.required countsOfJson? counts
    let coverage ← Json.required (Json.list? Json.uint64?) coverage
    let work ← Json.required Json.uint64? work
    let frames ← Json.required Json.uint64? frames
    let calls ← Json.required Json.uint64? calls
    return ⟨instructions, counts, coverage, work, frames, calls⟩
  | _ => none

end SavedTrace

end PixelMachine
