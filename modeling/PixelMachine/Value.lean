import PixelMachine.Number.Text

/-! The values that instructions carry and stacks and frames hold. -/
namespace PixelMachine

/-- A tagged value. Addresses are 64-bit words; a slot of an array may be empty. -/
inductive Value where
  | number (x : Float)
  /-- The memory cell at `offset` of a frame, counted from the innermost one. -/
  | label (offset frame : Int64)
  /-- A cell whose offset is shifted by an index taken when the label is used. -/
  | shiftedLabel (offset frame : Int64)
  /-- A place in the program, relative to the instruction that pushes it. -/
  | counterOffset (offset : Int64)
  | function (name : String)
  | array (slots : List (Option Value))
  deriving Inhabited, Repr

/-- The tags of values. -/
inductive ValueKind where
  | number | label | shiftedLabel | counterOffset | function | array
  deriving DecidableEq, Repr

/-- The name of a tag in messages. -/
def ValueKind.name : ValueKind → String
  | .number => "number"
  | .label => "label"
  | .shiftedLabel => "label-with-offset"
  | .counterOffset => "pc-offset"
  | .function => "function"
  | .array => "array"

namespace Value

/-- The tag of a value. -/
def kind : Value → ValueKind
  | .number _ => .number
  | .label _ _ => .label
  | .shiftedLabel _ _ => .shiftedLabel
  | .counterOffset _ => .counterOffset
  | .function _ => .function
  | .array _ => .array

/-- The number that a value is, if it is one. -/
def number? : Value → Option Float
  | .number x => some x
  | _ => none

/-- Truth as a number. -/
def ofBool (b : Bool) : Value := .number (if b then 1.0 else 0.0)

mutual

/-- Values are equal as the program sees it: numbers compare as floats do, so that NaN differs from
itself and the two zeros are equal. -/
def same : Value → Value → Bool
  | .number x, .number y => x == y
  | .label o f, .label o' f' => o == o' && f == f'
  | .shiftedLabel o f, .shiftedLabel o' f' => o == o' && f == f'
  | .counterOffset n, .counterOffset n' => n == n'
  | .function s, .function s' => s == s'
  | .array xs, .array ys => sameSlots xs ys
  | _, _ => false

/-- Slots are equal pairwise, an empty one only to an empty one. -/
def sameSlots : List (Option Value) → List (Option Value) → Bool
  | [], [] => true
  | none :: xs, none :: ys => sameSlots xs ys
  | some x :: xs, some y :: ys => same x y && sameSlots xs ys
  | _, _ => false

end

/-- A whole number that always shows its sign. -/
def signedText (n : Int64) : String := if n < 0 then n.toInt.repr else "+" ++ n.toInt.repr

/-- A cell's address in brackets. -/
def cellText (offset frame : Int64) : String :=
  "[" ++ offset.toInt.repr ++ ":" ++ frame.toInt.repr ++ "]"

mutual

/-- The text of a value, which is also its form as an operand. -/
def text : Value → String
  | .number x => outputNumber x
  | .label offset frame => cellText offset frame
  | .shiftedLabel offset frame => "+" ++ cellText offset frame
  | .counterOffset offset => "#PC" ++ signedText offset
  | .function name => name
  | .array slots => "[" ++ ",".intercalate (slotTexts slots) ++ "]"

/-- The texts of slots; an empty one is `undefined`. -/
def slotTexts : List (Option Value) → List String
  | [] => []
  | none :: slots => "undefined" :: slotTexts slots
  | some v :: slots => text v :: slotTexts slots

end

/-- The text of one slot. -/
def slotText : Option Value → String
  | none => "undefined"
  | some v => v.text

end Value

end PixelMachine
