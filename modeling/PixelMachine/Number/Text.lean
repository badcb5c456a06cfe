import PixelMachine.Number.Shortest

/-! How numbers are written: in messages, in program output and in saved documents. -/
namespace PixelMachine

/-- Digits and point, never an exponent. -/
def Decimal.positional (d : Decimal) : String :=
  let digits := Nat.toDigits 10 d.digits
  if 0 ≤ d.exponent then String.ofList (digits ++ List.replicate d.exponent.toNat '0')
  else
    let places := (-d.exponent).toNat
    if places < digits.length then
      String.ofList (digits.take (digits.length - places) ++ '.' :: digits.drop (digits.length - places))
    else String.ofList ('0' :: '.' :: List.replicate (places - digits.length) '0' ++ digits)

/-- The power of ten of the first digit. -/
def Decimal.power (d : Decimal) : Int := (Nat.toDigits 10 d.digits).length + d.exponent - 1

/-- One digit before the point, and an exponent that always shows its sign. -/
def Decimal.scientific (d : Decimal) : String :=
  let digits := Nat.toDigits 10 d.digits
  let fraction := if digits.length ≤ 1 then [] else '.' :: digits.drop 1
  let mark := if d.power < 0 then "e-" else "e+"
  String.ofList (digits.take 1 ++ fraction) ++ mark ++ d.power.natAbs.repr

/-- A minus sign in front of a negative number. -/
def withSign (negative : Bool) (text : String) : String := if negative then "-" ++ text else text

/-- A number inside a message: the fewest digits, a half-way case going up, `-0` kept. -/
def messageNumber (x : Float) : String :=
  match exactValue x with
  | .nan => "NaN"
  | .infinite negative => withSign negative "inf"
  | .finite negative 0 _ => withSign negative "0"
  | .finite negative mantissa exponent => withSign negative (shortest .up mantissa exponent).positional

/-- A number in program output: whole numbers below `10 ^ 21` in full and without a point, both zeros
as `0`, other numbers with the fewest digits. -/
def outputNumber (x : Float) : String :=
  match exactValue x with
  | .nan => "NaN"
  | .infinite negative => withSign negative "Infinity"
  | .finite _ 0 _ => "0"
  | .finite negative mantissa exponent =>
    match wholePart? x with
    | some n =>
      if n.natAbs < pow10 21 then n.repr
      else withSign negative (shortest .up mantissa exponent).positional
    | none => withSign negative (shortest .up mantissa exponent).positional

/-- A finite number in a saved document: the fewest digits, a half-way case going to the even digit, a
point always shown, positional from `10 ^ -5` up to `10 ^ 16`. Other floats have no such text. -/
def savedNumber? (x : Float) : Option String :=
  match exactValue x with
  | .nan | .infinite _ => none
  | .finite negative 0 _ => some (withSign negative "0.0")
  | .finite negative mantissa exponent =>
    let d := shortest .even mantissa exponent
    let text :=
      if -5 ≤ d.power ∧ d.power < 16 then
        if 0 ≤ d.exponent then d.positional ++ ".0" else d.positional
      else d.scientific
    some (withSign negative text)

end PixelMachine
