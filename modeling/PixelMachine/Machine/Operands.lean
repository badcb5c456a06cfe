import PixelMachine.Fault

/-! Taking operands from the work stack. What an instruction took before it failed stays taken, and
nothing else changes. -/
namespace PixelMachine

/-- A computation on the work stack, top first. A failure carries the stack that is left. -/
abbrev Operands := StateT (List Value) (Except (Fault × List Value))

namespace Operands

/-- Gives up; the stack stays as it is. -/
def fail {α : Type} (e : Fault) : Operands α := fun stack => .error (e, stack)

/-- The result of a check that does not look at the stack. -/
def lift {α : Type} : Except Fault α → Operands α
  | .ok a => pure a
  | .error e => fail e

/-- Puts a value on top. -/
def push (v : Value) : Operands Unit := modify (v :: ·)

/-- Takes the topmost value. -/
def pop (op : Opcode) : Operands Value := fun
  | v :: stack => .ok (v, stack)
  | [] => .error (.stackUnderflow op, [])

/-- Takes a number. -/
def popNumber (op : Opcode) : Operands Float := do
  let v ← pop op
  match v.number? with
  | some x => return x
  | none => fail (.typeMismatch op .number v.kind)

/-- A number as an address or count: it must be whole and fit a signed 64-bit word. -/
def integerOf (op : Opcode) (role : Role) (x : Float) : Except Fault Int :=
  match wholePart? x with
  | some n => if FitsInt64 n then .ok n else .error (.integerOutOfRange op role x)
  | none => .error (.notAnInteger op role x)

/-- Takes an address. -/
def popInteger (op : Opcode) (role : Role) : Operands Int := do
  let x ← popNumber op
  lift (integerOf op role x)

/-- Takes a count. -/
def popCount (op : Opcode) (role : Role) : Operands Nat := do
  let n ← popInteger op role
  if n < 0 then fail (.negativeCount op role (Float.ofInt n)) else return n.toNat

/-- At least `count` values are there. -/
def ensureDepth (op : Opcode) (count : Nat) : Operands Unit := do
  if (← get).length < count then fail (.stackUnderflow op)

/-- Takes the topmost `count` values, the topmost first. -/
def take (count : Nat) : Operands (List Value) := fun stack => .ok (stack.take count, stack.drop count)

/-- Puts values on top one after the other, so that the last one ends up on top. -/
def pushAll (vs : List Value) : Operands Unit := modify (vs.reverse ++ ·)

end Operands

end PixelMachine
