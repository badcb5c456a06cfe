import PixelMachine.Number.Exact

/-! The fewest decimal digits that read back as a given float. -/
namespace PixelMachine

/-- A decimal number `digits · 10 ^ exponent`. -/
structure Decimal where
  digits : Nat
  exponent : Int
  deriving DecidableEq, Repr

/-- Which of two equally near decimals is written. -/
inductive Tie where
  | up
  | even
  deriving DecidableEq, Repr

/-- Compares `a · 10 ^ p` with `b · 2 ^ q`. -/
def compareScaled (a : Nat) (p : Int) (b : Nat) (q : Int) : Ordering :=
  compare (a * pow10 p.toNat * pow2 (-q).toNat) (b * pow2 q.toNat * pow10 (-p).toNat)

/-- A power of ten at or just above the first digit of `mantissa · 2 ^ exponent`, from the number of
bits: at most one more than the digit's own. -/
def leadingPower (mantissa : Nat) (exponent : Int) : Int :=
  (mantissa.log2 + exponent + 1) * 30103 / 100000

/-- The decimals that read back as `mantissa · 2 ^ exponent`: those between the middles to the two
neighbouring floats, and the middles themselves when the mantissa is even. -/
def readsBack (mantissa : Nat) (exponent : Int) (d : Decimal) : Bool :=
  let low := if mantissa = 4503599627370496 ∧ -1074 < exponent then 4 * mantissa - 1 else 4 * mantissa - 2
  let belowOk := match compareScaled d.digits d.exponent low (exponent - 2) with
    | .lt => false
    | .eq => mantissa % 2 = 0
    | .gt => true
  let aboveOk := match compareScaled d.digits d.exponent (4 * mantissa + 2) (exponent - 2) with
    | .lt => true
    | .eq => mantissa % 2 = 0
    | .gt => false
  belowOk && aboveOk

/-- How many times `10 ^ p` goes into `mantissa · 2 ^ exponent`. -/
def gridBelow (mantissa : Nat) (exponent p : Int) : Nat :=
  (mantissa * pow2 exponent.toNat * pow10 (-p).toNat) / (pow10 p.toNat * pow2 (-exponent).toNat)

/-- The multiple of `10 ^ p` that is nearest to the float among those that read back, if any is. -/
def onGrid? (tie : Tie) (mantissa : Nat) (exponent p : Int) : Option Decimal :=
  let n := gridBelow mantissa exponent p
  let lower : Decimal := ⟨n, p⟩
  let upper : Decimal := ⟨n + 1, p⟩
  match readsBack mantissa exponent lower, readsBack mantissa exponent upper with
  | false, false => none
  | true, false => some lower
  | false, true => some upper
  | true, true =>
    -- The middle of the two neighbours decides which is nearer.
    match compareScaled (10 * n + 5) (p - 1) mantissa exponent with
    | .lt => some upper
    | .gt => some lower
    | .eq => match tie with
      | .up => some upper
      | .even => some (if n % 2 = 0 then lower else upper)

/-- Tries `count` grids, each ten times finer than the one before. -/
def searchGrids (tie : Tie) (mantissa : Nat) (exponent : Int) : Int → Nat → Decimal
  | p, 0 => ⟨gridBelow mantissa exponent p, p⟩
  | p, count + 1 =>
    match onGrid? tie mantissa exponent p with
    | some d => d
    | none => searchGrids tie mantissa exponent (p - 1) count

/-- Drops the zeros at the end of the digits. -/
def dropZeros : Nat → Decimal → Decimal
  | 0, d => d
  | fuel + 1, d =>
    if d.digits ≠ 0 ∧ d.digits % 10 = 0 then dropZeros fuel ⟨d.digits / 10, d.exponent + 1⟩ else d

/-- The shortest decimal that reads back as `mantissa · 2 ^ exponent`, the nearest one of those.
Seventeen digits always suffice, and the first grid may be one too coarse. -/
def shortest (tie : Tie) (mantissa : Nat) (exponent : Int) : Decimal :=
  dropZeros 20 (searchGrids tie mantissa exponent (leadingPower mantissa exponent) 18)

end PixelMachine
