import PixelMachine.Colour
import PixelMachine.Json.Basic

/-! Reading documents from text. A part that is well formed but denotes no value becomes
`Json.unreadable`: a text with half of a surrogate pair, a number beyond the floats, a container
inside too many others. -/
namespace PixelMachine

namespace Json

/-- The blanks of a document. -/
def isSpace (c : Char) : Bool := c == ' ' || c == '\n' || c == '\t' || c == '\r'

/-- Passes over blanks. -/
def skipSpace (cs : List Char) : List Char := cs.dropWhile isSpace

/-- Containers nest at most this deep. -/
def depthLimit : Nat := 127

/-- The character of an escape letter. -/
def escaped? (c : Char) : Option Char :=
  if c = '"' ∨ c = '\\' ∨ c = '/' then some c
  else if c = 'b' then some (Char.ofNat 8)
  else if c = 'f' then some (Char.ofNat 12)
  else if c = 'n' then some '\n'
  else if c = 'r' then some '\r'
  else if c = 't' then some '\t'
  else none

/-- The characters of a text read so far, in reverse, or nothing once they denote no text; and the
first half of a surrogate pair that waits for its second. -/
structure Quoted where
  chars : Option (List Char) := some []
  high : Option Nat := none

namespace Quoted

/-- A waiting half that did not find its partner spoils the text. -/
def settle (q : Quoted) : Quoted := if q.high.isSome then ⟨none, none⟩ else q

/-- One more character. -/
def push (q : Quoted) (c : Char) : Quoted := ⟨q.settle.chars.map (c :: ·), none⟩

/-- One more UTF-16 unit, from an escape with four digits. -/
def pushUnit (q : Quoted) (unit : Nat) : Quoted :=
  if 0xD800 ≤ unit ∧ unit < 0xDC00 then ⟨q.settle.chars, some unit⟩
  else if 0xDC00 ≤ unit ∧ unit < 0xE000 then
    match q.high with
    | some high =>
      let scalar := 0x10000 + (high - 0xD800) * 0x400 + (unit - 0xDC00)
      ⟨q.chars.map (Char.ofNat scalar :: ·), none⟩
    | none => ⟨none, none⟩
  else q.push (Char.ofNat unit)

/-- The finished text. -/
def finish (q : Quoted) : Option String := q.settle.chars.map fun cs => String.ofList cs.reverse

end Quoted

/-- Reads on after an opening quote. The result is the text, if it denotes one, and what follows the
closing quote. -/
def readQuoted (q : Quoted) : List Char → Option (Option String × List Char)
  | '"' :: rest => some (q.finish, rest)
  | '\\' :: 'u' :: a :: b :: c :: d :: rest =>
    match readHex? [a, b, c, d] with
    | some unit => readQuoted (q.pushUnit unit) rest
    | none => none
  | '\\' :: e :: rest =>
    match escaped? e with
    | some c => readQuoted (q.push c) rest
    | none => none
  | c :: rest => if c.toNat < 0x20 ∨ c = '\\' then none else readQuoted (q.push c) rest
  | [] => none

/-- The digits of a number's significand that fit a 64-bit word, and the power of ten that goes with
them. Once a digit does not fit, further ones are left out. -/
structure Significand where
  digits : Nat := 0
  exponent : Int := 0
  full : Bool := false

namespace Significand

/-- One more digit before the point: left out, it raises the power. -/
def pushWhole (s : Significand) (c : Char) : Significand :=
  let next := s.digits * 10 + (c.toNat - '0'.toNat)
  if s.full ∨ ¬FitsUInt64 next then ⟨s.digits, s.exponent + 1, true⟩ else ⟨next, s.exponent, false⟩

/-- One more digit after the point: taken in, it lowers the power. -/
def pushFraction (s : Significand) (c : Char) : Significand :=
  let next := s.digits * 10 + (c.toNat - '0'.toNat)
  if s.full ∨ ¬FitsUInt64 next then ⟨s.digits, s.exponent, true⟩ else ⟨next, s.exponent - 1, false⟩

end Significand

/-- The largest power of ten that a float can be. -/
def tenLimit : Nat := 308

/-- A float times a power of ten, by one multiplication or by divisions of at most `10 ^ 308` each;
beyond the floats there is none. -/
def scaleTen? : Nat → Float → Int → Option Float
  | 0, _, _ => none
  | fuel + 1, x, exponent =>
    if exponent.natAbs ≤ tenLimit then
      let ten := Float.ofScientific 1 false exponent.natAbs
      if 0 ≤ exponent then if (x * ten).isInf then none else some (x * ten) else some (x / ten)
    else if x == 0.0 then some x
    else if 0 ≤ exponent then none
    else scaleTen? fuel (x / Float.ofScientific 1 false tenLimit) (exponent + tenLimit)

/-- A float with a sign, or an unreadable number. -/
def ofMagnitude (negative : Bool) : Option Float → Json
  | some x => .float (if negative then -x else x)
  | none => .unreadable

/-- The float of a significand and a written exponent. One too long for a 32-bit word stands for
zero or is beyond the floats. -/
def ofSignificand (negative : Bool) (s : Significand) (exponent : Int) : Json :=
  if exponent.natAbs < 2147483648 then
    let power := s.exponent + exponent
    ofMagnitude negative (scaleTen? (power.natAbs + 1) (Float.ofNat s.digits) power)
  else if s.digits ≠ 0 ∧ 0 < exponent then .unreadable
  else ofMagnitude negative (some 0.0)

/-- A number without point and exponent: a whole number where a 64-bit word holds it; zero with a
minus sign is a float. -/
def ofWhole (negative : Bool) (s : Significand) : Json :=
  if s.full then ofSignificand negative s 0
  else if negative then
    if s.digits = 0 ∨ 9223372036854775808 < s.digits then .float (-(Float.ofNat s.digits))
    else .int (-(s.digits : Int))
  else .int s.digits

/-- The written exponent at the front, if there is one; after the letter digits must follow. -/
def readPower? : List Char → Option (Option Int × List Char)
  | c :: rest =>
    if c = 'e' ∨ c = 'E' then
      let (negative, rest) := match rest with
        | '-' :: rest => (true, rest)
        | '+' :: rest => (false, rest)
        | rest => (false, rest)
      let digits := rest.takeWhile Char.isDigit
      if digits.isEmpty then none
      else
        let n := Nat.ofDigitChars 10 digits 0
        some (some (if negative then -(n : Int) else n), rest.dropWhile Char.isDigit)
    else some (none, c :: rest)
  | [] => some (none, [])

/-- A number after its sign. No zero may stand before another digit, and a point needs digits on
both sides. -/
def readMagnitude (negative : Bool) (cs : List Char) : Option (Json × List Char) :=
  let whole := cs.takeWhile Char.isDigit
  let rest := cs.dropWhile Char.isDigit
  if whole.isEmpty ∨ (whole.head? = some '0' ∧ 1 < whole.length) then none
  else
    let s := whole.foldl Significand.pushWhole {}
    match rest with
    | '.' :: rest =>
      let fraction := rest.takeWhile Char.isDigit
      if fraction.isEmpty then none
      else
        let s := fraction.foldl Significand.pushFraction { s with full := false }
        match readPower? (rest.dropWhile Char.isDigit) with
        | some (power, rest) => some (ofSignificand negative s (power.getD 0), rest)
        | none => none
    | rest =>
      match readPower? rest with
      | some (some power, rest) => some (ofSignificand negative s power, rest)
      | some (none, rest) => some (ofWhole negative s, rest)
      | none => none

/-- A number. -/
def readNumber : List Char → Option (Json × List Char)
  | '-' :: rest => readMagnitude true rest
  | cs => readMagnitude false cs

/-- A container, unless too many stand around it. -/
def contained (depth : Nat) (j : Json) : Json := if depthLimit < depth then .unreadable else j

/-- An object of fields in reverse; a name that is no text makes it unreadable. -/
def ofFields (fields : List (Option String × Json)) : Json :=
  match fields.reverse.mapM fun (name, j) => name.map (·, j) with
  | some fields => .obj fields
  | none => .unreadable

mutual

/-- The value at the front of the text, inside `depth` containers. The fuel bounds the number of
characters that are read. -/
def readValue : Nat → Nat → List Char → Option (Json × List Char)
  | 0, _, _ => none
  | fuel + 1, depth, cs =>
    match skipSpace cs with
    | 'n' :: 'u' :: 'l' :: 'l' :: rest => some (.null, rest)
    | 't' :: 'r' :: 'u' :: 'e' :: rest => some (.bool true, rest)
    | 'f' :: 'a' :: 'l' :: 's' :: 'e' :: rest => some (.bool false, rest)
    | '"' :: rest =>
      match readQuoted {} rest with
      | some (some s, rest) => some (.str s, rest)
      | some (none, rest) => some (.unreadable, rest)
      | none => none
    | '[' :: rest =>
      match skipSpace rest with
      | ']' :: rest => some (contained (depth + 1) (.arr []), rest)
      | rest =>
        match readItems fuel (depth + 1) [] rest with
        | some (items, rest) => some (contained (depth + 1) (.arr items.reverse), rest)
        | none => none
    | '\x7b' :: rest =>
      match skipSpace rest with
      | '\x7d' :: rest => some (contained (depth + 1) (.obj []), rest)
      | rest =>
        match readFields fuel (depth + 1) [] rest with
        | some (fields, rest) => some (contained (depth + 1) (ofFields fields), rest)
        | none => none
    | cs => readNumber cs

/-- The items of a list up to its end, in reverse. -/
def readItems : Nat → Nat → List Json → List Char → Option (List Json × List Char)
  | 0, _, _, _ => none
  | fuel + 1, depth, items, cs =>
    match readValue fuel depth cs with
    | some (item, rest) =>
      match skipSpace rest with
      | ',' :: rest => readItems fuel depth (item :: items) rest
      | ']' :: rest => some (item :: items, rest)
      | _ => none
    | none => none

/-- The fields of an object up to its end, in reverse. -/
def readFields : Nat → Nat → List (Option String × Json) → List Char →
    Option (List (Option String × Json) × List Char)
  | 0, _, _, _ => none
  | fuel + 1, depth, fields, cs =>
    match skipSpace cs with
    | '"' :: rest =>
      match readQuoted {} rest with
      | some (name, rest) =>
        match skipSpace rest with
        | ':' :: rest =>
          match readValue fuel depth rest with
          | some (item, rest) =>
            match skipSpace rest with
            | ',' :: rest => readFields fuel depth ((name, item) :: fields) rest
            | '\x7d' :: rest => some ((name, item) :: fields, rest)
            | _ => none
          | none => none
        | _ => none
      | none => none
    | _ => none

end

/-- The document that a text writes, with nothing but blanks around it. -/
def read? (text : String) : Option Json :=
  let cs := text.toList
  match readValue (cs.length + 1) 0 cs with
  | some (j, rest) => if (skipSpace rest).isEmpty then some j else none
  | none => none

end Json

end PixelMachine
