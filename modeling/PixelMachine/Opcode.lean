/-! The operation codes and their mnemonics. -/
namespace PixelMachine

/-- The operations of the machine, in the order in which saved traces list them. -/
inductive Opcode where
  | add | sub | mul | div | mod | inc | dec | max | min | round | irnd | and | or | not | lt | le
  | eq | neq | gt | ge | dup | drop | push | nop | jmp | cjmp | cjmp2 | call | ret | halt | alloc
  | oframe | cframe | st | delay | write | writebox | clear | read | width | height | print | dupa
  | sta | pusha | printa | reta | getchar | putchar
  deriving DecidableEq, Repr

namespace Opcode

/-- Every opcode, in order. -/
def all : List Opcode :=
  [.add, .sub, .mul, .div, .mod, .inc, .dec, .max, .min, .round, .irnd, .and, .or, .not, .lt, .le,
   .eq, .neq, .gt, .ge, .dup, .drop, .push, .nop, .jmp, .cjmp, .cjmp2, .call, .ret, .halt, .alloc,
   .oframe, .cframe, .st, .delay, .write, .writebox, .clear, .read, .width, .height, .print, .dupa,
   .sta, .pusha, .printa, .reta, .getchar, .putchar]

/-- The lower-case word for an opcode in program text. -/
def mnemonic : Opcode → String
  | .add => "add" | .sub => "sub" | .mul => "mul" | .div => "div" | .mod => "mod" | .inc => "inc"
  | .dec => "dec" | .max => "max" | .min => "min" | .round => "round" | .irnd => "irnd"
  | .and => "and" | .or => "or" | .not => "not" | .lt => "lt" | .le => "le" | .eq => "eq"
  | .neq => "neq" | .gt => "gt" | .ge => "ge" | .dup => "dup" | .drop => "drop" | .push => "push"
  | .nop => "nop" | .jmp => "jmp" | .cjmp => "cjmp" | .cjmp2 => "cjmp2" | .call => "call"
  | .ret => "ret" | .halt => "halt" | .alloc => "alloc" | .oframe => "oframe" | .cframe => "cframe"
  | .st => "st" | .delay => "delay" | .write => "write" | .writebox => "writebox"
  | .clear => "clear" | .read => "read" | .width => "width" | .height => "height"
  | .print => "print" | .dupa => "dupa" | .sta => "sta" | .pusha => "pusha" | .printa => "printa"
  | .reta => "reta" | .getchar => "getchar" | .putchar => "putchar"

/-- Only these carry an operand. -/
def takesOperand : Opcode → Bool
  | .push | .pusha => true
  | _ => false

/-- The opcode with exactly this mnemonic. -/
def ofMnemonic? (text : String) : Option Opcode := all.find? (·.mnemonic == text)

/-- The opcode named by a word of program text, in any letter case. Mnemonics are ASCII, and no other
character lowers to one of their letters. -/
def ofWord? (word : List Char) : Option Opcode :=
  all.find? (·.mnemonic.toList == word.map Char.toLower)

/-- Opcodes compare by their place in the list. -/
instance : Ord Opcode := ⟨fun a b => compare a.ctorIdx b.ctorIdx⟩

/-- An opcode is known by its place in the list. -/
theorem ctorIdx_inj {a b : Opcode} (h : a.ctorIdx = b.ctorIdx) : a = b := by
  rw [← ofNat_ctorIdx a, ← ofNat_ctorIdx b, h]

theorem compare_eq (a b : Opcode) : compare a b = compare a.ctorIdx b.ctorIdx := rfl

instance : Std.TransOrd Opcode where
  eq_swap := by
    intro a b
    rw [compare_eq, compare_eq]
    exact Std.OrientedCmp.eq_swap
  isLE_trans := by
    intro a b c
    rw [compare_eq, compare_eq, compare_eq]
    exact Std.TransCmp.isLE_trans

instance : Std.LawfulEqOrd Opcode where
  compare_self := by
    intro a
    rw [compare_eq]
    exact Std.ReflCmp.compare_self
  eq_of_compare h := ctorIdx_inj (Nat.compare_eq_eq.mp h)

end Opcode

end PixelMachine
