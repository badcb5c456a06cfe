import PixelMachine.Machine.State
import PixelMachine.Number.Literal
import PixelMachine.Text.Blank
import PixelMachine.Text.Cut

/-! Queries that inspect a machine:

* `#PC`, the program counter;
* `S`, `S.len`, `S[i]`, `S[a..b]` for the stacks `workStack` and `retStack`, counted from the bottom;
* `[o:f]`, `[o]`, `[:f]`, `[:f].len`, `[:]`, `[:].len` for memory, frame zero being the innermost. -/
namespace PixelMachine

/-- A part of a stack. -/
inductive StackView where
  | all
  | length
  | item (index : Int64)
  | slice (first last : Int64)
  deriving DecidableEq, Repr

/-- A query. -/
inductive Query where
  | counter
  | workStack (view : StackView)
  | returnStack (view : StackView)
  | cell (offset frame : Int64)
  | frame (index : Int64)
  | frameLength (index : Int64)
  | frames
  | frameCount
  deriving DecidableEq, Repr

namespace Query

/-- An index with blanks around it. -/
def readIndex? (text : List Char) : Option Int64 := readInt64? (trimBlanks text)

/-- The part of a stack that follows the stack's name. -/
def readView? (text : List Char) : Option StackView :=
  if text = [] then some .all
  else if text = ".len".toList then some .length
  else do
    let inner ← bracketed? text
    match cut? "..".toList inner with
    | some (first, last) => return .slice (← readIndex? first) (← readIndex? last)
    | none => return .item (← readIndex? inner)

/-- A query into memory; `length` says that `.len` follows the brackets. -/
def readMemory? (length : Bool) (inner : List Char) : Option Query :=
  match cut? [':'] inner with
  | some (left, right) =>
    if (trimBlanks left).isEmpty then
      if (trimBlanks right).isEmpty then return if length then .frameCount else .frames
      else do
        let index ← readIndex? right
        return if length then .frameLength index else .frame index
    else if length then none
    else do return .cell (← readIndex? left) (← readIndex? right)
  | none => if length then none else do return .cell (← readIndex? inner) 0

/-- The query that a text without blanks around it writes. -/
def read? (text : List Char) : Option Query :=
  if text = "#PC".toList then some .counter
  else
    match after? "workStack".toList text with
    | some rest => (readView? rest).map .workStack
    | none =>
      match after? "retStack".toList text with
      | some rest => (readView? rest).map .returnStack
      | none =>
        match before? ".len".toList text with
        | some address => (bracketed? address).bind (readMemory? true)
        | none => (bracketed? text).bind (readMemory? false)

/-- An index below a bound. -/
def bounded (subject : Subject) (index : Int64) (bound : Nat) : Except Fault Nat :=
  if 0 ≤ index.toInt ∧ index.toInt < bound then .ok index.toInt.toNat
  else .error (.queryOutOfRange subject index.toInt ((bound : Int) - 1))

/-- Texts between brackets. -/
def listText (texts : List String) : String := "[" ++ ", ".intercalate texts ++ "]"

/-- The answer to a question about a stack, whose texts have the bottom first. -/
def answerStack (subject : Subject) (texts : List String) : StackView → Except Fault String
  | .all => .ok (listText texts)
  | .length => .ok texts.length.repr
  | .item index => do
    let i ← bounded subject index texts.length
    return texts.getD i ""
  | .slice first last => do
    let last ← bounded subject last (texts.length + 1)
    let first ← bounded subject first (last + 1)
    return listText ((texts.take last).drop first)

/-- A frame and its contents, one to a line. -/
def frameLines (fs : FrameStack) : List String :=
  fs.mapIdx fun i f => i.repr ++ ": " ++ f.text

/-- The answer to a query. -/
def answer (m : Machine) : Query → Except Fault String
  | .counter => .ok m.counter.repr
  | .workStack view => answerStack .workStack (m.stack.reverse.map Value.text) view
  | .returnStack view => answerStack .returnStack (m.returns.reverse.map Nat.repr) view
  | .cell offset index => do
    let i ← bounded .frame index m.frames.length
    let f := m.frames.getD i []
    let k ← bounded .location offset f.length
    return Value.slotText (f.getD k none)
  | .frame index => do
    let i ← bounded .frame index m.frames.length
    return Frame.text (m.frames.getD i [])
  | .frameLength index => do
    let i ← bounded .frame index m.frames.length
    return (m.frames.getD i []).length.repr
  | .frames => .ok ("\n".intercalate (frameLines m.frames))
  | .frameCount => .ok m.frames.length.repr

end Query

/-- Answers a query text. -/
def Machine.query (m : Machine) (text : String) : Except Fault String :=
  let text := trimBlanks text.toList
  match Query.read? text with
  | some q => q.answer m
  | none => .error (.malformedQuery (String.ofList text))

end PixelMachine
