import PixelMachine.Json.Basic
import PixelMachine.Memory.FrameStack
import PixelMachine.Program.Basic

/-! The saved form of values, instructions, programs and frames. -/
namespace PixelMachine

/-- The list of things that `save` writes. -/
def Json.ofList {α : Type} (save : α → Json) (xs : List α) : Json := .arr (xs.map save)

/-- An unsigned 64-bit word. -/
def Json.ofUInt64 (n : UInt64) : Json := .int n.toNat

/-- An unsigned 32-bit word. -/
def Json.ofUInt32 (n : UInt32) : Json := .int n.toNat

/-- A signed 64-bit word. -/
def Json.ofInt64 (n : Int64) : Json := .int n.toInt

/-- How the parts of a document are reached: directly as its text is read, in a copy of the whole
document, or in content that was kept until its tag was known. -/
inductive Reading where
  | direct | copied | kept
  deriving DecidableEq, Repr

namespace ValueKind

/-- Every tag, in the order in which numbers stand for them. -/
def all : List ValueKind := [.number, .label, .shiftedLabel, .counterOffset, .function, .array]

/-- The name of a tag in saved documents. -/
def savedName : ValueKind → String
  | .number => "Number"
  | .label => "Label"
  | .shiftedLabel => "LabelWithOffset"
  | .counterOffset => "PcOffset"
  | .function => "Function"
  | .array => "Array"

/-- The tag with this name. -/
def ofSavedName? (name : String) : Option ValueKind := all.find? (·.savedName == name)

/-- A tag that stands in a list with its content: its name or, unless it is reached directly, its
number. -/
def ofItem? (reading : Reading) : Json → Option ValueKind
  | .str name => ofSavedName? name
  | .int n => if reading = .direct ∨ n < 0 then none else all[n.toNat]?
  | _ => none

/-- A tag that stands in a field: a variant without content. In kept content an empty object counts as
no content. -/
def ofField? (reading : Reading) : Json → Option ValueKind
  | .obj [(name, .obj [])] => if reading = .kept then ofSavedName? name else none
  | j => j.plainVariant?.bind ofSavedName?

end ValueKind

namespace Value

/-- A tag and its content. -/
def tagged (kind : ValueKind) (content : Json) : Json :=
  .obj [("type", .str kind.savedName), ("value", content)]

/-- The two parts of a cell's address. -/
def savedCell (offset frame : Int64) : Json :=
  .obj [("offset", .ofInt64 offset), ("frame", .ofInt64 frame)]

mutual

/-- The saved form of a value. -/
def toJson : Value → Json
  | .number x => tagged .number (.ofFloat x)
  | .label offset frame => tagged .label (savedCell offset frame)
  | .shiftedLabel offset frame => tagged .shiftedLabel (savedCell offset frame)
  | .counterOffset offset => tagged .counterOffset (.ofInt64 offset)
  | .function name => tagged .function (.str name)
  | .array slots => tagged .array (.arr (slotsToJson slots))

/-- The saved forms of slots; an empty one is `null`. -/
def slotsToJson : List (Option Value) → List Json
  | [] => []
  | none :: slots => .null :: slotsToJson slots
  | some v :: slots => toJson v :: slotsToJson slots

end

/-- A saved value taken apart, and how its content is reached. -/
structure Parts where
  kind : ValueKind
  content : Json
  reading : Reading

/-- The tag and the content of a saved value: fields in either order, other fields passed over, or a
list of the two. Content before its tag is kept before it is known what it is for, so all of it must
be readable. -/
def parts? (reading : Reading) : Json → Option Parts
  | .obj fields =>
    match fields.filter fun f => f.1 == "type" || f.1 == "value" with
    | [("type", tag), ("value", content)] => (ValueKind.ofField? reading tag).map (⟨·, content, reading⟩)
    | [("value", content), ("type", tag)] =>
      if content.readable then (ValueKind.ofField? reading tag).map (⟨·, content, .kept⟩) else none
    | _ => none
  | .arr [tag, content] => (ValueKind.ofItem? reading tag).map (⟨·, content, reading⟩)
  | _ => none

/-- A cell's address, which only an object writes. -/
def cell? (j : Json) : Option (Int64 × Int64) := do
  let fields ← j.fields?
  let offset ← (← Json.field? "offset" fields).bind Json.int64?
  let frame ← (← Json.field? "frame" fields).bind Json.int64?
  return (offset, frame)

/-- Reads a saved value whose arrays nest less deep than the fuel. -/
def ofJsonWithin? : Nat → Reading → Json → Option Value
  | 0, _, _ => none
  | fuel + 1, reading, j =>
    match parts? reading j with
    | none => none
    | some ⟨.number, content, _⟩ => content.float?.map .number
    | some ⟨.label, content, _⟩ => (cell? content).map fun (o, f) => .label o f
    | some ⟨.shiftedLabel, content, _⟩ => (cell? content).map fun (o, f) => .shiftedLabel o f
    | some ⟨.counterOffset, content, _⟩ => content.int64?.map .counterOffset
    | some ⟨.function, content, _⟩ => content.str?.map .function
    | some ⟨.array, content, reading⟩ =>
      (content.list? (Json.nullable? (ofJsonWithin? fuel reading))).map .array

/-- Reads a saved value that is reached in a given way. -/
def ofJsonFrom? (reading : Reading) (j : Json) : Option Value := ofJsonWithin? j.height reading j

/-- Reads a saved value. -/
def ofJson? (j : Json) : Option Value := ofJsonFrom? .direct j

end Value

namespace Opcode

/-- The saved form of an opcode. -/
def toJson (op : Opcode) : Json := .str op.mnemonic

/-- Reads a saved opcode. -/
def ofJson? (j : Json) : Option Opcode := j.plainVariant?.bind ofMnemonic?

end Opcode

namespace Instruction

/-- The saved form of an instruction; a missing operand is left out. -/
def toJson (i : Instruction) : Json :=
  match i.operand with
  | some v => .obj [("opcode", i.opcode.toJson), ("operand", v.toJson)]
  | none => .obj [("opcode", i.opcode.toJson)]

/-- Reads a saved instruction that is reached in a given way. -/
def ofJsonFrom? (reading : Reading) (j : Json) : Option Instruction :=
  match j.record? ["opcode", "operand"] with
  | some [opcode, operand] => do
    let opcode ← Json.required Opcode.ofJson? opcode
    let operand ← Json.optional none (Json.nullable? (Value.ofJsonFrom? reading)) operand
    return ⟨opcode, operand⟩
  | _ => none

/-- Reads a saved instruction. -/
def ofJson? (j : Json) : Option Instruction := ofJsonFrom? .direct j

end Instruction

/-- The saved form of a function table: one field to a name, in order. -/
def FunctionTable.toJson (t : FunctionTable) : Json :=
  .obj (t.entries.map fun (name, address) => (name, .ofUInt64 address))

/-- Reads a saved function table; of two fields with one name the later counts. -/
def FunctionTable.ofJson? (j : Json) : Option FunctionTable := do
  let fields ← j.fields?
  let entries ← fields.mapM fun (name, address) => address.uint64?.map (name, ·)
  return Table.ofList entries

namespace Program

/-- The saved form of a program. -/
def toJson (p : Program) : Json :=
  .obj [("instructions", .ofList Instruction.toJson p.instructions.toList),
    ("functions", FunctionTable.toJson p.functions)]

/-- Reads a saved program that is reached in a given way. -/
def ofJsonFrom? (reading : Reading) (j : Json) : Option Program :=
  match j.record? ["instructions", "functions"] with
  | some [instructions, functions] => do
    let instructions ← Json.required (Json.list? (Instruction.ofJsonFrom? reading)) instructions
    let functions ← Json.optional .empty FunctionTable.ofJson? functions
    return ⟨instructions.toArray, functions⟩
  | _ => none

/-- Reads a saved program. -/
def ofJson? (j : Json) : Option Program := ofJsonFrom? .direct j

end Program

/-- The saved form of a frame. -/
def Frame.toJson (f : Frame) : Json := .arr (Value.slotsToJson f)

/-- Reads a saved frame. -/
def Frame.ofJson? (j : Json) : Option Frame := j.list? (Json.nullable? Value.ofJson?)

/-- The saved form of frames, the innermost one first. -/
def FrameStack.toJson (fs : FrameStack) : Json := .ofList Frame.toJson fs

/-- Reads saved frames. -/
def FrameStack.ofJson? (j : Json) : Option FrameStack := j.list? Frame.ofJson?

end PixelMachine
