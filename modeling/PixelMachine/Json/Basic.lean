import PixelMachine.Number.Word

/-! Documents as trees, and the reading of records, words and variants from them. -/
namespace PixelMachine

/-- A document. Whole numbers in the range of a 64-bit word, signed or not, are apart from floats;
`unreadable` is well-formed text that denotes no value, which may stand where nobody reads it. -/
inductive Json where
  | null
  | bool (b : Bool)
  | int (n : Int)
  | float (x : Float)
  | str (s : String)
  | arr (items : List Json)
  | obj (fields : List (String × Json))
  | unreadable
  deriving Inhabited, Repr

namespace Json

mutual

/-- How deep containers nest in a document. -/
def height : Json → Nat
  | .arr items => itemsHeight items + 1
  | .obj fields => fieldsHeight fields + 1
  | _ => 1

def itemsHeight : List Json → Nat
  | [] => 0
  | item :: items => max (height item) (itemsHeight items)

def fieldsHeight : List (String × Json) → Nat
  | [] => 0
  | (_, item) :: fields => max (height item) (fieldsHeight fields)

end

mutual

/-- Every part of the document denotes a value. -/
def readable : Json → Bool
  | .arr items => itemsReadable items
  | .obj fields => fieldsReadable fields
  | .unreadable => false
  | _ => true

def itemsReadable : List Json → Bool
  | [] => true
  | item :: items => readable item && itemsReadable items

def fieldsReadable : List (String × Json) → Bool
  | [] => true
  | (_, item) :: fields => readable item && fieldsReadable fields

end

/-- A float; infinities and NaN have no document but `null`. -/
def ofFloat (x : Float) : Json := if x.isFinite then .float x else .null

/-- A float, which may be written as a whole number. -/
def float? : Json → Option Float
  | .float x => some x
  | .int n => some (Float.ofInt n)
  | _ => none

/-- A truth value. -/
def bool? : Json → Option Bool
  | .bool b => some b
  | _ => none

/-- A text. -/
def str? : Json → Option String
  | .str s => some s
  | _ => none

/-- The items of a list. -/
def items? : Json → Option (List Json)
  | .arr items => some items
  | _ => none

/-- The fields of an object. -/
def fields? : Json → Option (List (String × Json))
  | .obj fields => some fields
  | _ => none

/-- A signed 64-bit word. -/
def int64? : Json → Option Int64
  | .int n => if FitsInt64 n then some (Int64.ofInt n) else none
  | _ => none

/-- An unsigned 64-bit word. -/
def uint64? : Json → Option UInt64
  | .int n => if 0 ≤ n ∧ FitsUInt64 n.toNat then some n.toNat.toUInt64 else none
  | _ => none

/-- An unsigned 32-bit word. -/
def uint32? : Json → Option UInt32
  | .int n => if 0 ≤ n ∧ FitsUInt32 n.toNat then some n.toNat.toUInt32 else none
  | _ => none

/-- A list of things that `read` accepts. -/
def list? {α : Type} (read : Json → Option α) (j : Json) : Option (List α) :=
  j.items?.bind (·.mapM read)

/-- Something that `read` accepts, or nothing for `null`. -/
def nullable? {α : Type} (read : Json → Option α) : Json → Option (Option α)
  | .null => some none
  | j => (read j).map some

/-- The only field of a name: nothing when it is missing, refused when it comes twice. -/
def field? (name : String) (fields : List (String × Json)) : Option (Option Json) :=
  match fields.filter (·.1 == name) with
  | [] => some none
  | [(_, j)] => some (some j)
  | _ => none

/-- Lines up list items with the names of a record; the list may be too short, not too long. -/
def alignItems : List String → List Json → Option (List (Option Json))
  | [], [] => some []
  | [], _ :: _ => none
  | _ :: names, [] => (alignItems names []).map (none :: ·)
  | _ :: names, item :: items => (alignItems names items).map (some item :: ·)

/-- The fields of a record, in the order of `names`: from an object, where other fields are passed
over, or from a list of the fields in order. -/
def record? (names : List String) : Json → Option (List (Option Json))
  | .obj fields => names.mapM (field? · fields)
  | .arr items => alignItems names items
  | _ => none

/-- A field that must be there. -/
def required {α : Type} (read : Json → Option α) (field : Option Json) : Option α := field.bind read

/-- A field that may be missing. -/
def optional {α : Type} (default : α) (read : Json → Option α) : Option Json → Option α
  | none => some default
  | some j => read j

/-- A variant's name and content: the name alone, or an object with that one field. -/
def variant? : Json → Option (String × Option Json)
  | .str name => some (name, none)
  | .obj [(name, content)] => some (name, some content)
  | _ => none

/-- The name of a variant without content. -/
def plainVariant? (j : Json) : Option String :=
  match j.variant? with
  | some (name, none) | some (name, some .null) => some name
  | _ => none

end Json

end PixelMachine
