import PixelMachine.Memory.Error
import PixelMachine.Program.DecodeError
import PixelMachine.Value

/-! What can go wrong while a machine runs or is inspected. -/
namespace PixelMachine

/-- What an instruction uses a number for. -/
inductive Role where
  | jumpTarget | callTarget | argumentCount | slotCount | frameSize | frameIndex | location | copyCount
  | valueCount | labelIndex
  deriving DecidableEq, Repr

/-- The name of a use in messages. -/
def Role.name : Role → String
  | .jumpTarget => "jump target"
  | .callTarget => "call target"
  | .argumentCount => "argument count"
  | .slotCount => "slot count"
  | .frameSize => "frame size"
  | .frameIndex => "frame index"
  | .location => "location"
  | .copyCount => "copy count"
  | .valueCount => "value count"
  | .labelIndex => "label index"

/-- A command that does not fit the machine's state. -/
inductive Misuse where
  | resumeHalted | stepRunning | resizeRunning
  deriving DecidableEq, Repr

/-- Why the command does not fit. -/
def Misuse.reason : Misuse → String
  | .resumeHalted => "cannot resume a halted machine"
  | .stepRunning => "cannot step while the machine is running"
  | .resizeRunning => "screen size can only change while halted"

/-- A side of the screen. -/
inductive Dimension where
  | width | height
  deriving DecidableEq, Repr

/-- The name of a side. -/
def Dimension.name : Dimension → String
  | .width => "width"
  | .height => "height"

/-- What a query looks into. -/
inductive Subject where
  | workStack | returnStack | frame | location
  deriving DecidableEq, Repr

/-- The name of what a query looks into. -/
def Subject.name : Subject → String
  | .workStack => "workStack"
  | .returnStack => "retStack"
  | .frame => "frame"
  | .location => "location"

/-- An error of a machine. -/
inductive Fault where
  | decode (cause : DecodeError)
  | memory (cause : MemoryError)
  | typeMismatch (opcode : Opcode) (expected found : ValueKind)
  | stackUnderflow (opcode : Opcode)
  | counterOutOfBounds (counter last : Int)
  | notAnInteger (opcode : Opcode) (role : Role) (x : Float)
  | integerOutOfRange (opcode : Opcode) (role : Role) (x : Float)
  | negativeCount (opcode : Opcode) (role : Role) (x : Float)
  | addressOverflow (opcode : Opcode) (base offset : Int)
  | stackLimit (opcode : Opcode) (requested limit : Nat)
  | frameLimit (opcode : Opcode) (requested limit : Nat)
  | delayOutOfRange (milliseconds : Float)
  | randomBound (bound : Float)
  | screenOutOfBounds (x y w h : Float)
  | screenSize (side : Dimension) (requested limit : Nat)
  | invalidCharCode (code : Float)
  | unknownFunction (name : String)
  | emptyReturnStack
  | missingOperand (opcode : Opcode)
  | halted
  | invalidControlState (misuse : Misuse)
  | malformedQuery (query : String)
  | queryOutOfRange (subject : Subject) (index max : Int)
  deriving DecidableEq, Repr

namespace Fault

/-- The wording of an error. -/
def message : Fault → String
  | .decode e => e.message
  | .memory e => e.message
  | .typeMismatch op expected found =>
    "invalid operand type given to " ++ op.mnemonic ++ ", expected " ++ expected.name ++ ", got " ++ found.name
  | .stackUnderflow op => "empty stack when operand is needed by " ++ op.mnemonic
  | .counterOutOfBounds counter last =>
    "program counter " ++ counter.repr ++ " is out of bounds, valid range is [0, " ++ last.repr ++ "]"
  | .notAnInteger op role x =>
    role.name ++ " for " ++ op.mnemonic ++ " must be an integer, got " ++ messageNumber x
  | .integerOutOfRange op role x =>
    role.name ++ " for " ++ op.mnemonic ++ " is too large, got " ++ messageNumber x
  | .negativeCount op role x =>
    role.name ++ " for " ++ op.mnemonic ++ " must not be negative, got " ++ messageNumber x
  | .addressOverflow op base offset =>
    "address " ++ base.repr ++ " + " ++ offset.repr ++ " for " ++ op.mnemonic ++ " overflows"
  | .stackLimit op requested limit =>
    op.mnemonic ++ " would grow the work stack to " ++ requested.repr ++ " values, limit is " ++ limit.repr
  | .frameLimit op requested limit =>
    op.mnemonic ++ " would grow a frame to " ++ requested.repr ++ " slots, limit is " ++ limit.repr
  | .delayOutOfRange ms => "cannot delay for " ++ messageNumber ms ++ " ms"
  | .randomBound bound =>
    "argument to irnd instruction is " ++ messageNumber bound ++ " <= 0, must be > 0"
  | .screenOutOfBounds x y w h =>
    "out of bounds fill x=" ++ messageNumber x ++ ", y=" ++ messageNumber y ++ ", w=" ++ messageNumber w
      ++ ", h=" ++ messageNumber h ++ " requested"
  | .screenSize side requested limit =>
    "cannot set screen " ++ side.name ++ " to " ++ requested.repr ++ ", valid range is [1, " ++ limit.repr ++ "]"
  | .invalidCharCode code => messageNumber code ++ " is not a valid character code"
  | .unknownFunction name => "tried calling function " ++ name ++ " which does not exist"
  | .emptyReturnStack => "tried popping return pointer from stack when it was empty"
  | .missingOperand op => op.mnemonic ++ " instruction is missing its operand"
  | .halted => "trying to execute step in halted VM"
  | .invalidControlState misuse => "invalid control state: " ++ misuse.reason
  | .malformedQuery query => "invalid query `" ++ query ++ "`"
  | .queryOutOfRange subject index max =>
    subject.name ++ " index " ++ index.repr ++ " is out of bounds, valid range is [0, " ++ max.repr ++ "]"

/-- The class of an error. -/
def kind : Fault → FaultKind
  | .decode e => e.kind
  | .typeMismatch _ _ _ => .mistyped
  | .stackUnderflow _ => .unresolved
  | .malformedQuery _ => .malformed
  | .unknownFunction _ | .emptyReturnStack | .missingOperand _ | .halted | .invalidControlState _ => .runtime
  | _ => .outOfRange

end Fault

end PixelMachine
