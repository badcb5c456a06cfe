import PixelMachine.Program.DecodeError
import PixelMachine.Text.Cut

/-! Packed colours `0xRRGGBB` and their literals `#rrggbb`. -/
namespace PixelMachine

/-- The largest packed colour. -/
def colourLimit : Nat := 0xFFFFFF

/-- The value of a hexadecimal digit, in either letter case. -/
def hexDigit? (c : Char) : Option Nat :=
  if c.isDigit then some (c.toNat - '0'.toNat)
  else if 'a' ≤ c ∧ c ≤ 'f' then some (c.toNat - 'a'.toNat + 10)
  else if 'A' ≤ c ∧ c ≤ 'F' then some (c.toNat - 'A'.toNat + 10)
  else none

/-- The number that hexadecimal digits write, most significant first. -/
def ofHexDigits (ds : List Nat) : Nat := ds.foldl (fun n d => 16 * n + d) 0

/-- The value of a text of hexadecimal digits only. -/
def readHex? (cs : List Char) : Option Nat := (cs.mapM hexDigit?).map ofHexDigits

/-- The last `width` hexadecimal digits of a number, in lower case. -/
def hexDigits : Nat → Nat → List Char
  | 0, _ => []
  | width + 1, n => hexDigits width (n / 16) ++ [Nat.digitChar (n % 16)]

/-- The literal of a packed colour. -/
def colourText (rgb : Int) : Except DecodeError String :=
  if 0 ≤ rgb ∧ rgb ≤ colourLimit then .ok (String.ofList ('#' :: hexDigits 6 rgb.toNat))
  else .error (.colourOutOfRange (Float.ofInt rgb))

/-- The packed colour of a literal: `#` and exactly six hexadecimal digits. -/
def readColour (text : List Char) : Except DecodeError Nat :=
  match after? ['#'] text with
  | some digits =>
    if digits.length = 6 then
      match readHex? digits with
      | some rgb => .ok rgb
      | none => .error (.invalidColour (String.ofList text))
    else .error (.invalidColour (String.ofList text))
  | none => .error (.invalidColour (String.ofList text))

/-- A number as a packed colour; a fraction is dropped. -/
def colourOfNumber (x : Float) : Except DecodeError UInt32 :=
  if 0.0 ≤ x ∧ x ≤ Float.ofNat colourLimit then .ok (floorNat colourLimit x).toUInt32
  else .error (.colourOutOfRange x)

end PixelMachine
