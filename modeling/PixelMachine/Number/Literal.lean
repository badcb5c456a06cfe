import PixelMachine.Number.Exact

/-! Reading numbers from text: whole numbers in the range of a word, and floats. -/
namespace PixelMachine

/-- A nonempty run of decimal digits. -/
def readDigits? (cs : List Char) : Option Nat :=
  if !cs.isEmpty && cs.all Char.isDigit then some (Nat.ofDigitChars 10 cs 0) else none

/-- Digits with an optional sign. -/
def readInt? (cs : List Char) : Option Int :=
  match cs with
  | '-' :: digits => (readDigits? digits).map fun n => -(n : Int)
  | '+' :: digits => (readDigits? digits).map fun n => (n : Int)
  | digits => (readDigits? digits).map fun n => (n : Int)

/-- A signed literal in the range of a 64-bit word. -/
def readInt64? (cs : List Char) : Option Int64 :=
  match readInt? cs with
  | some n => if FitsInt64 n then some (Int64.ofInt n) else none
  | none => none

/-- Digits with an optional plus sign. -/
def readNat? (cs : List Char) : Option Nat :=
  match cs with
  | '+' :: digits => readDigits? digits
  | digits => readDigits? digits

/-- An unsigned literal in the range of a 32-bit word. -/
def readUInt32? (cs : List Char) : Option UInt32 :=
  match readNat? cs with
  | some n => if FitsUInt32 n then some n.toUInt32 else none
  | none => none

/-- An unsigned literal in the range of a 64-bit word. -/
def readUInt64? (cs : List Char) : Option UInt64 :=
  match readNat? cs with
  | some n => if FitsUInt64 n then some n.toUInt64 else none
  | none => none

/-- The float nearest to `± digits · 10 ^ exponent`. -/
def ofDecimal (negative : Bool) (digits : Nat) (exponent : Int) : Float :=
  let magnitude := Float.ofScientific digits (exponent < 0) exponent.natAbs
  if negative then -magnitude else magnitude

/-- The exponent part of a float literal: nothing, or `e` with a whole number. -/
def readExponent? (cs : List Char) : Option Int :=
  match cs with
  | [] => some 0
  | 'e' :: rest | 'E' :: rest => readInt? rest
  | _ => none

/-- A float literal without its sign: digits with an optional point, at least one of them, and an
optional exponent. -/
def readMagnitude? (negative : Bool) (cs : List Char) : Option Float :=
  let whole := cs.takeWhile Char.isDigit
  let rest := cs.dropWhile Char.isDigit
  let (fraction, rest) := match rest with
    | '.' :: rest => (rest.takeWhile Char.isDigit, rest.dropWhile Char.isDigit)
    | rest => ([], rest)
  if whole.isEmpty && fraction.isEmpty then none
  else (readExponent? rest).map fun exponent =>
    ofDecimal negative (Nat.ofDigitChars 10 (whole ++ fraction) 0) (exponent - fraction.length)

/-- A float literal, rounded to the nearest float; beyond the largest one it is infinite. -/
def readFloat? (cs : List Char) : Option Float :=
  match cs with
  | '-' :: rest => readMagnitude? true rest
  | '+' :: rest => readMagnitude? false rest
  | rest => readMagnitude? false rest

end PixelMachine
