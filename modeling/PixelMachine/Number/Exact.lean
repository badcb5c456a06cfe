import PixelMachine.Number.Word

/-! The exact value of a float: a finite one is `± mantissa · 2 ^ exponent`. Flooring, remainders and
the reading of whole numbers are integer arithmetic on that value. -/
namespace PixelMachine

/-- What a float stands for; both zeros are finite with mantissa zero. -/
inductive Exact where
  | nan
  | infinite (negative : Bool)
  | finite (negative : Bool) (mantissa : Nat) (exponent : Int)
  deriving DecidableEq, Repr

/-- The exact value of a float. -/
def exactValue (x : Float) : Exact :=
  match x.toModel.unpack with
  | .notANumber => .nan
  | .infinity .positive => .infinite false
  | .infinity .negative => .infinite true
  | .zero .positive => .finite false 0 0
  | .zero .negative => .finite true 0 0
  | .finite .positive m e _ => .finite false m e
  | .finite .negative m e _ => .finite true m e

/-- A magnitude with its sign. -/
def signed (negative : Bool) (n : Nat) : Int := if negative then -(n : Int) else n

/-- The float nearest to `± mantissa · 2 ^ exponent`, a half going to the even neighbour. -/
def ofDyadic (negative : Bool) (mantissa : Nat) (exponent : Int) : Float :=
  let magnitude :=
    if 0 ≤ exponent then Float.ofScientific (mantissa * pow2 exponent.toNat) false 0
    else Float.ofScientific (mantissa * pow5 (-exponent).toNat) true (-exponent).toNat
  if negative then -magnitude else magnitude

/-- The greatest whole number that is at most `x`. -/
def floor (x : Float) : Float :=
  match exactValue x with
  | .finite negative mantissa exponent =>
    if mantissa = 0 ∨ 0 ≤ exponent then x
    else Float.ofInt (signed negative mantissa / pow2 (-exponent).toNat)
  | _ => x

/-- Round to the nearest whole number, halves going up. -/
def roundHalfUp (x : Float) : Float := floor (x + 0.5)

/-- The whole number that `x` is, if it is one. -/
def wholePart? (x : Float) : Option Int :=
  match exactValue x with
  | .finite negative mantissa exponent =>
    if 0 ≤ exponent then some (signed negative (mantissa * pow2 exponent.toNat))
    else if mantissa % pow2 (-exponent).toNat = 0 then
      some (signed negative (mantissa / pow2 (-exponent).toNat))
    else none
  | _ => none

/-- The nearest natural number, halves going away from zero; negative numbers and NaN give zero and
what is above `limit` gives `limit`. -/
def nearestNat (limit : Nat) (x : Float) : Nat :=
  match exactValue x with
  | .nan | .infinite true | .finite true _ _ => 0
  | .infinite false => limit
  | .finite false mantissa exponent =>
    min limit <|
      if 0 ≤ exponent then mantissa * pow2 exponent.toNat
      else (2 * mantissa + pow2 (-exponent).toNat) / (2 * pow2 (-exponent).toNat)

/-- The greatest natural number that is at most `x`; negative numbers and NaN give zero and what is
above `limit` gives `limit`. -/
def floorNat (limit : Nat) (x : Float) : Nat :=
  match exactValue x with
  | .nan | .infinite true | .finite true _ _ => 0
  | .infinite false => limit
  | .finite false mantissa exponent =>
    min limit <|
      if 0 ≤ exponent then mantissa * pow2 exponent.toNat
      else mantissa / pow2 (-exponent).toNat

/-- The remainder of `x` by `y` with the sign of `x`: what is left of `x` after taking away whole
multiples of `y`. -/
def remainder (x y : Float) : Float :=
  match exactValue x, exactValue y with
  | .finite negative m e, .finite _ n f =>
    if n = 0 then 0.0 / 0.0
    else
      let unit := min e f
      ofDyadic negative (m * pow2 (e - unit).toNat % (n * pow2 (f - unit).toNat)) unit
  | .finite _ _ _, .infinite _ => x
  | _, _ => 0.0 / 0.0

end PixelMachine
