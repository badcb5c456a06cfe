/-! The broad classes of what can go wrong. -/
namespace PixelMachine

/-- A class of errors. -/
inductive FaultKind where
  | malformed | mistyped | outOfRange | unresolved | runtime
  deriving DecidableEq, Repr

/-- The name under which an error of this class is reported. -/
def FaultKind.title : FaultKind → String
  | .malformed => "SyntaxError"
  | .mistyped => "TypeError"
  | .outOfRange => "RangeError"
  | .unresolved => "ReferenceError"
  | .runtime => "Error"

/-- The name of the class in saved documents. -/
def FaultKind.name : FaultKind → String
  | .malformed => "Syntax"
  | .mistyped => "Type"
  | .outOfRange => "Range"
  | .unresolved => "Reference"
  | .runtime => "Runtime"

/-- Every class. -/
def FaultKind.all : List FaultKind := [.malformed, .mistyped, .outOfRange, .unresolved, .runtime]

end PixelMachine
