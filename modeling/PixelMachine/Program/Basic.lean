import PixelMachine.Program.Instruction
import PixelMachine.Table

/-! Programs: a list of instructions and the addresses of functions. -/
namespace PixelMachine

/-- The addresses of functions by name. -/
abbrev FunctionTable := Table String UInt64

/-- A linked program. -/
structure Program where
  instructions : Array Instruction
  functions : FunctionTable := .empty

namespace Program

/-- The program that halts at once. -/
def idle : Program := ⟨#[⟨.halt, none⟩], Table.ofList [(".main", 0)]⟩

/-- The number of instructions. -/
def size (p : Program) : Nat := p.instructions.size

/-- The instruction at an index. -/
def instruction? (p : Program) (index : Nat) : Option Instruction := p.instructions[index]?

/-- The address of a function. -/
def address? (p : Program) (name : String) : Option UInt64 := p.functions.find? name

/-- The instructions of lines that follow the first `done` ones; an error names its line, counted
from one. -/
def decodeLines (done : Nat) : List String → Except DecodeError (List Instruction)
  | [] => .ok []
  | line :: lines =>
    match Instruction.ofLine line with
    | .error e => .error (.atLine (done + 1) e)
    | .ok i =>
      match decodeLines (done + 1) lines with
      | .error e => .error e
      | .ok is => .ok (i :: is)

/-- Accepts a table whose names are all function names; the first that is not is the error. -/
def checkNames : List (String × UInt64) → Except DecodeError Unit
  | [] => .ok ()
  | (name, _) :: rest =>
    match checkFunctionName name with
    | .error e => .error e
    | .ok () => checkNames rest

/-- The program of lines of text and a function table. All lines are decoded before the names are
looked at. -/
def ofLines (lines : List String) (functions : List (String × UInt64)) :
    Except DecodeError Program :=
  match decodeLines 0 lines with
  | .error e => .error e
  | .ok instructions =>
    match checkNames functions with
    | .error e => .error e
    | .ok () => .ok ⟨instructions.toArray, Table.ofList functions⟩

end Program

end PixelMachine
