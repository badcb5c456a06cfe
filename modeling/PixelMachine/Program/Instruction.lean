import PixelMachine.Program.Operand

/-! Instructions and the lines that write them. -/
namespace PixelMachine

/-- An opcode and its operand, if it has one. -/
structure Instruction where
  opcode : Opcode
  operand : Option Value := none
  deriving Repr

namespace Instruction

/-- The line of program text for an instruction. -/
def text (i : Instruction) : String :=
  match i.operand with
  | some v => i.opcode.mnemonic ++ " " ++ v.text
  | none => i.opcode.mnemonic

/-- An instruction whose opcode takes an operand. Only a plain location will do for `pusha`. -/
def withOperand (opcode : Opcode) (operand : List Char) : Except DecodeError Instruction :=
  match opcode, readOperand operand with
  | .pusha, .ok (.label offset frame) => .ok ⟨opcode, some (.label offset frame)⟩
  | .pusha, _ => .error (.expectedLocation opcode (String.ofList operand))
  | _, .ok v => .ok ⟨opcode, some v⟩
  | _, .error e => .error e

/-- The instruction that one line of program text writes. -/
def ofLine (line : String) : Except DecodeError Instruction :=
  match words line.toList with
  | [] => .error .emptyLine
  | head :: operands =>
    match Opcode.ofWord? head with
    | none => .error (.unknownOpcode (String.ofList head))
    | some opcode =>
      if opcode.takesOperand then
        match operands with
        | [] => .error (.missingOperand opcode)
        | [operand] => withOperand opcode operand
        | _ => .error (.extraOperands opcode)
      else
        match operands with
        | [] => .ok ⟨opcode, none⟩
        | found :: _ => .error (.unexpectedOperand opcode (String.ofList found))

end Instruction

end PixelMachine
