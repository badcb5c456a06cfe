import PixelMachine.FaultKind
import PixelMachine.Number.Text
import PixelMachine.Opcode

/-! What can be wrong with program text. -/
namespace PixelMachine

/-- Why a text is no instruction, operand, function name or colour. -/
inductive DecodeError where
  | emptyLine
  | unknownOpcode (word : String)
  | missingOperand (opcode : Opcode)
  | extraOperands (opcode : Opcode)
  | unexpectedOperand (opcode : Opcode) (found : String)
  | expectedLocation (opcode : Opcode) (found : String)
  | invalidOperand (text : String)
  | invalidLabel (text : String)
  | invalidCounterOffset (text : String)
  | invalidFunctionName (text : String)
  | invalidColour (text : String)
  | colourOutOfRange (x : Float)
  | atLine (line : Nat) (cause : DecodeError)
  deriving DecidableEq, Repr

namespace DecodeError

/-- The wording of an error. -/
def message : DecodeError → String
  | .emptyLine => "empty instruction line"
  | .unknownOpcode word => word ++ " is not a valid instruction"
  | .missingOperand op => "operand for " ++ op.mnemonic ++ " instruction was not specified"
  | .extraOperands op =>
    "extra operands specified for " ++ op.mnemonic ++ " instruction; can only specify one"
  | .unexpectedOperand op found => op.mnemonic ++ " instruction takes no operand, found " ++ found
  | .expectedLocation op found =>
    "invalid operand " ++ found ++ " to " ++ op.mnemonic
      ++ " instruction, expected a memory location [offset:frame]"
  | .invalidOperand text => "invalid operand " ++ text ++ " found"
  | .invalidLabel text => "invalid label " ++ text ++ " found"
  | .invalidCounterOffset text => "invalid PC offset " ++ text ++ " found"
  | .invalidFunctionName text => "invalid function name " ++ text ++ " found"
  | .invalidColour text => "invalid colour literal " ++ text ++ ", expected #RRGGBB"
  | .colourOutOfRange x =>
    "invalid RGB number " ++ messageNumber x ++ ", must be in range [0, 0xffffff]"
  | .atLine line cause => "line " ++ line.repr ++ ": " ++ cause.message

/-- The class of an error: a colour may be out of range, all else is malformed text. -/
def kind : DecodeError → FaultKind
  | .colourOutOfRange _ => .outOfRange
  | .atLine _ cause => cause.kind
  | _ => .malformed

end DecodeError

end PixelMachine
