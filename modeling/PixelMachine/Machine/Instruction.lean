import PixelMachine.Colour
import PixelMachine.Machine.Operands
import PixelMachine.Machine.State

/-! What each instruction does: it takes its operands and checks them, and then asks for one effect
on the rest of the machine. -/
namespace PixelMachine

/-- A change that cannot fail. All but `jump`, `call`, `ret`, `halt` and `awaitKey` go on with the next
instruction. -/
inductive Effect where
  | next
  | jump (target : Int)
  /-- Opens a frame of the arguments and remembers where to return to. -/
  | call (target : Int) (arguments : List Value)
  /-- Goes back to `target`; `rest` is the return stack without it. -/
  | ret (target : Nat) (rest : List Nat)
  | halt
  | store (frames : FrameStack)
  | paint (region : Region) (colour : UInt32)
  | print (texts : List String)
  | roll (random : Generator)
  | awaitKey

namespace Machine

open Operands

/-- Replaces a number by a function of it. -/
def unary (op : Opcode) (f : Float → Float) : Operands Effect := do
  let x ← popNumber op
  push (.number (f x))
  return .next

/-- Replaces two numbers by a function of them; the topmost is the first. -/
def binary (op : Opcode) (f : Float → Float → Float) : Operands Effect := do
  let x ← popNumber op
  let y ← popNumber op
  push (.number (f x y))
  return .next

/-- Replaces two numbers by the truth of a relation between them. -/
def relation (op : Opcode) (f : Float → Float → Bool) : Operands Effect := do
  let x ← popNumber op
  let y ← popNumber op
  push (.ofBool (f x y))
  return .next

/-- The larger of two numbers; NaN if one is. -/
def larger (x y : Float) : Float := if x.isNaN || y.isNaN then 0.0 / 0.0 else if x < y then y else x

/-- The smaller of two numbers; NaN if one is. -/
def smaller (x y : Float) : Float := if x.isNaN || y.isNaN then 0.0 / 0.0 else if y < x then y else x

/-- Replaces two values of one kind by whether they are equal, or by whether they differ. -/
def equality (op : Opcode) (negate : Bool) : Operands Effect := do
  let x ← pop op
  let y ← pop op
  if x.kind ≠ y.kind then fail (.typeMismatch op y.kind x.kind)
  push (.ofBool (x.same y != negate))
  return .next

/-- The sum of two addresses, while a signed 64-bit word holds it. -/
def addAddress (op : Opcode) (base offset : Int) : Except Fault Int :=
  if FitsInt64 (base + offset) then .ok (base + offset)
  else .error (.addressOverflow op base offset)

/-- An access to memory. -/
def access {α : Type} (r : Except MemoryError α) : Operands α := lift (r.mapError .memory)

/-- The value that an operand of `push` stands for. -/
def resolve (m : Machine) (index : Nat) : Value → Operands Value
  | .number x => return .number x
  | .array slots => return .array slots
  | .function name =>
    match m.program.address? name with
    | some address => return .number address.toFloat
    | none => fail (.unknownFunction name)
  | .label offset frame => access (m.frames.read offset.toInt frame.toInt)
  | .shiftedLabel offset frame => do
    let shift ← popInteger .push .labelIndex
    let location ← lift (addAddress .push offset.toInt shift)
    access (m.frames.read location frame.toInt)
  | .counterOffset offset => do
    let target ← lift (addAddress .push index offset.toInt)
    return .number (Float.ofInt target)

/-- Jumps if a condition holds. The target has to be an address only then. -/
def branch (op : Opcode) (holds : Float → Bool) : Operands Effect := do
  let target ← popNumber op
  let condition ← popNumber op
  if holds condition then return .jump (← lift (integerOf op .jumpTarget target)) else return .next

/-- A sum of sizes is within a limit; a sum beyond the unsigned 64-bit words counts as the largest
of them. -/
def checkGrowth (fault : Nat → Nat → Fault) (current count limit : Nat) : Except Fault Unit :=
  if FitsUInt64 (current + count) ∧ current + count ≤ limit then .ok ()
  else .error (fault (min (current + count) 18446744073709551615) limit)

/-- Paints a logical rectangle. -/
def paint (m : Machine) (x y w h colour : Float) : Operands Effect :=
  match m.screen.region? x y w h with
  | none => fail (.screenOutOfBounds x y w h)
  | some region => do
    let colour ← lift ((colourOfNumber colour).mapError .decode)
    return .paint region colour

/-- Seconds that a pause may last at most, as a float. -/
def delayLimit : Float := 18446744073709551616.0

/-- The text of a character code, rounded to the nearest whole number. -/
def charText? (code : Float) : Option String :=
  match wholePart? (roundHalfUp code) with
  | some n => if 0 ≤ n ∧ n.toNat.isValidChar then some (String.ofList [Char.ofNat n.toNat]) else none
  | none => none

/-- A printed value, on a line of its own. -/
def printed (v : Value) : String := v.text ++ "\n"

/-- Takes the operands of the instruction at `index` and checks them. -/
def plan (m : Machine) (index : Nat) (i : Instruction) : Operands Effect :=
  let op := i.opcode
  match op with
  | .add => binary op (· + ·)
  | .sub => binary op (· - ·)
  | .mul => binary op (· * ·)
  | .div => binary op (· / ·)
  | .mod => binary op remainder
  | .inc => unary op (· + 1.0)
  | .dec => unary op (· - 1.0)
  | .max | .or => binary op larger
  | .min | .and => binary op smaller
  | .round => unary op roundHalfUp
  | .irnd => do
    let bound ← popNumber op
    if bound > 0.0 then
      let (sample, random) := m.random.sample
      push (.number (Scalar.draw sample bound))
      return .roll random
    else fail (.randomBound bound)
  | .not => unary op fun x => if x > 0.0 then 0.0 else 1.0
  | .lt => relation op fun x y => x < y
  | .le => relation op fun x y => x ≤ y
  | .gt => relation op fun x y => x > y
  | .ge => relation op fun x y => x ≥ y
  | .eq => equality op false
  | .neq => equality op true
  | .dup => do
    let v ← pop op
    push v
    push v
    return .next
  | .drop => do
    let _ ← pop op
    return .next
  | .push =>
    match i.operand with
    | some operand => do
      let v ← resolve m index operand
      push v
      return .next
    | none => fail (.missingOperand op)
  | .nop => return .next
  | .jmp => do return .jump (← popInteger op .jumpTarget)
  | .cjmp => branch op (· != 0.0)
  | .cjmp2 => branch op (· == 0.0)
  | .call => do
    let target ← popInteger op .callTarget
    let count ← popCount op .argumentCount
    ensureDepth op count
    return .call target (← take count)
  | .ret =>
    match m.returns with
    | target :: rest => return .ret target rest
    | [] => fail .emptyReturnStack
  | .halt => return .halt
  | .alloc => do
    let count ← popCount op .slotCount
    let current := ((m.frames.head?).map List.length).getD 0
    lift (checkGrowth (.frameLimit op) current count m.config.frameLimit.toNat)
    return .store (← access (m.frames.alloc count))
  | .oframe => do
    let count ← popCount op .frameSize
    lift (checkGrowth (.frameLimit op) 0 count m.config.frameLimit.toNat)
    return .store (m.frames.enter (.empty count))
  | .cframe => return .store m.frames.leave
  | .st => do
    let frame ← popInteger op .frameIndex
    let location ← popInteger op .location
    let v ← pop op
    return .store (← access (m.frames.write location frame v))
  | .delay => do
    let milliseconds ← popNumber op
    if milliseconds > 0.0 && !(milliseconds / 1000.0 < delayLimit) then
      fail (.delayOutOfRange milliseconds)
    return .next
  | .write => do
    let x ← popNumber op
    let y ← popNumber op
    let colour ← popNumber op
    paint m x y 1.0 1.0 colour
  | .writebox => do
    let x ← popNumber op
    let y ← popNumber op
    let w ← popNumber op
    let h ← popNumber op
    let colour ← popNumber op
    paint m x y w h colour
  | .clear => do
    let colour ← popNumber op
    paint m 0.0 0.0 (Float.ofNat m.screen.width) (Float.ofNat m.screen.height) colour
  | .read => do
    let x ← popNumber op
    let y ← popNumber op
    match m.screen.sample? x y with
    | some colour =>
      push (.number colour.toFloat)
      return .next
    | none => fail (.screenOutOfBounds x y 1.0 1.0)
  | .width => do
    push (.number (Float.ofNat m.screen.width))
    return .next
  | .height => do
    push (.number (Float.ofNat m.screen.height))
    return .next
  | .print => do
    let v ← pop op
    return .print [printed v]
  | .dupa => do
    let v ← pop op
    let count ← popCount op .copyCount
    lift (checkGrowth (.stackLimit op) (← get).length count m.config.stackLimit.toNat)
    pushAll (List.replicate count v)
    return .next
  | .sta => do
    let frame ← popInteger op .frameIndex
    let location ← popInteger op .location
    let count ← popCount op .valueCount
    ensureDepth op count
    let _ ← access (m.frames.checkRange frame location count)
    let vs ← take count
    return .store (← access (m.frames.writeRange location frame vs))
  | .pusha => do
    let count ← popCount op .valueCount
    match i.operand with
    | some (.label offset frame) =>
      let vs ← access (m.frames.readRange offset.toInt frame.toInt count)
      pushAll vs
      return .next
    | some v => fail (.typeMismatch op .label v.kind)
    | none => fail (.missingOperand op)
  | .printa => do
    let count ← popCount op .valueCount
    ensureDepth op count
    return .print ((← take count).map printed)
  | .reta => do
    let count ← popCount op .valueCount
    ensureDepth op count
    pushAll (← take count)
    return .next
  | .getchar => return .awaitKey
  | .putchar => do
    let code ← popNumber op
    match charText? code with
    | some text => return .print [text]
    | none => fail (.invalidCharCode code)

end Machine

end PixelMachine
