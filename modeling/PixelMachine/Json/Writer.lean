import PixelMachine.Json.Basic
import PixelMachine.Number.Text

/-! The text of documents, on one line or indented. -/
namespace PixelMachine

namespace Json

/-- The lower-case hexadecimal digit of a number below sixteen. -/
def hexChar (n : Nat) : Char := Nat.digitChar n

/-- A character inside quotes: quotes, backslashes and control characters are escaped. -/
def escapeChar (c : Char) : List Char :=
  if c = '"' then ['\\', '"']
  else if c = '\\' then ['\\', '\\']
  else if c.toNat < 0x20 then
    if c.toNat = 8 then ['\\', 'b']
    else if c.toNat = 9 then ['\\', 't']
    else if c.toNat = 10 then ['\\', 'n']
    else if c.toNat = 12 then ['\\', 'f']
    else if c.toNat = 13 then ['\\', 'r']
    else ['\\', 'u', '0', '0', hexChar (c.toNat / 16), hexChar (c.toNat % 16)]
  else [c]

/-- A quoted text. -/
def quote (s : String) : String := String.ofList ('"' :: s.toList.flatMap escapeChar ++ ['"'])

/-- A part that is not a container. -/
def scalarText : Json → String
  | .bool true => "true"
  | .bool false => "false"
  | .int n => n.repr
  | .float x => (savedNumber? x).getD "null"
  | .str s => quote s
  | _ => "null"

mutual

/-- The document on one line, without blanks. -/
def text : Json → String
  | .arr items => "[" ++ ",".intercalate (itemTexts items) ++ "]"
  | .obj fields => "\x7b" ++ ",".intercalate (fieldTexts fields) ++ "\x7d"
  | j => scalarText j

def itemTexts : List Json → List String
  | [] => []
  | item :: items => text item :: itemTexts items

def fieldTexts : List (String × Json) → List String
  | [] => []
  | (name, item) :: fields => (quote name ++ ":" ++ text item) :: fieldTexts fields

end

/-- A container over several lines: its parts each on a line, indented by `depth + 1` steps. -/
def block (first last : String) (depth : Nat) (parts : List String) : String :=
  if parts.isEmpty then first ++ last
  else
    let line := fun (n : Nat) => "\n" ++ String.ofList (List.replicate (2 * n) ' ')
    first ++ line (depth + 1) ++ ("," ++ line (depth + 1)).intercalate parts ++ line depth ++ last

mutual

/-- The document over several lines, two blanks to a level; `depth` levels stand around it. -/
def indented (depth : Nat) : Json → String
  | .arr items => block "[" "]" depth (itemLines depth items)
  | .obj fields => block "\x7b" "\x7d" depth (fieldLines depth fields)
  | j => scalarText j

def itemLines (depth : Nat) : List Json → List String
  | [] => []
  | item :: items => indented (depth + 1) item :: itemLines depth items

def fieldLines (depth : Nat) : List (String × Json) → List String
  | [] => []
  | (name, item) :: fields =>
    (quote name ++ ": " ++ indented (depth + 1) item) :: fieldLines depth fields

end

end Json

end PixelMachine
