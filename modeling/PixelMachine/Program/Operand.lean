import PixelMachine.Colour
import PixelMachine.Number.Literal
import PixelMachine.Text.Blank
import PixelMachine.Value

/-! The operands of program text. -/
namespace PixelMachine

/-- A number as an operand. No letter but that of an exponent may stand in it, so that the words for
infinity and NaN stay out. -/
def readNumber? (text : List Char) : Option Float :=
  if text.any (fun c => c.isAlpha && c != 'e' && c != 'E') then none else readFloat? text

/-- The characters of function names after the dot. -/
def isNameChar (c : Char) : Bool := c.isAlphanum || c == '_'

/-- A dot and one or more letters, digits or underscores, all of them ASCII. -/
def isFunctionName : List Char → Bool
  | '.' :: rest => !rest.isEmpty && rest.all isNameChar
  | _ => false

/-- Accepts function names only. -/
def checkFunctionName (name : String) : Except DecodeError Unit :=
  if isFunctionName name.toList then .ok () else .error (.invalidFunctionName name)

/-- The offset and frame between the brackets of a location; without a colon the frame is the
innermost one. -/
def readCell? (inner : List Char) : Option (Int64 × Int64) :=
  match cut? [':'] inner with
  | some (offset, frame) => do
    let offset ← readInt64? (trimBlanks offset)
    let frame ← readInt64? (trimBlanks frame)
    return (offset, frame)
  | none => (readInt64? (trimBlanks inner)).map (·, 0)

/-- A location, which is bracketed text. -/
def readLocation (text inner : List Char) (make : Int64 → Int64 → Value) : Except DecodeError Value :=
  match readCell? inner with
  | some (offset, frame) => .ok (make offset frame)
  | none => .error (.invalidLabel (String.ofList text))

/-- The value of an operand that is neither a number nor a function name. -/
def readAddress (text : List Char) : Except DecodeError Value :=
  match (after? ['+'] text).bind bracketed? with
  | some inner => readLocation text inner .shiftedLabel
  | none =>
    match bracketed? text with
    | some inner => readLocation text inner .label
    | none =>
      match after? ['#', 'P', 'C'] text with
      | some rest =>
        match readInt64? rest with
        | some offset => .ok (.counterOffset offset)
        | none => .error (.invalidCounterOffset (String.ofList text))
      | none =>
        if (String.ofList text).utf8ByteSize = 7 ∧ text.head? = some '#' then
          (readColour text).map fun rgb => .number (Float.ofNat rgb)
        else .error (.invalidOperand (String.ofList text))

/-- The value of an operand. A number comes first, then a function name. -/
def readOperand (text : List Char) : Except DecodeError Value :=
  match readNumber? text with
  | some x => .ok (.number x)
  | none =>
    if text.head? = some '.' then
      if isFunctionName text then .ok (.function (String.ofList text))
      else .error (.invalidFunctionName (String.ofList text))
    else readAddress text

end PixelMachine
