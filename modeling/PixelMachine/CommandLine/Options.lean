import PixelMachine.Number.Literal
import PixelMachine.Text.Blank
import PixelMachine.Text.Cut

/-! The arguments of the command line. -/
namespace PixelMachine

/-- What a run is asked to do. -/
structure Options where
  program : String
  width : UInt32 := 100
  height : UInt32 := 100
  surface : UInt32 × UInt32 := (500, 500)
  breakpoints : List UInt64 := []
  queries : List String := []
  seed : Option UInt64 := none
  pollInterval : UInt64 := 200
  dumpScreen : Option String := none
  report : Bool := false
  deriving DecidableEq, Repr

/-- The arguments seen so far: an option that may come once is there when it came, and lists are in
reverse. -/
structure Draft where
  programs : List String := []
  width : Option UInt32 := none
  height : Option UInt32 := none
  surface : Option (UInt32 × UInt32) := none
  breakpoints : List UInt64 := []
  queries : List String := []
  seed : Option UInt64 := none
  pollInterval : Option UInt64 := none
  dumpScreen : Option String := none
  report : Bool := false

namespace Draft

/-- A side of the screen: a signed literal in the range of an unsigned 32-bit word. -/
def readSide? (text : List Char) : Option UInt32 :=
  match readInt64? text with
  | some n => if 0 ≤ n.toInt ∧ FitsUInt32 n.toInt.toNat then some n.toInt.toNat.toUInt32 else none
  | none => none

/-- Width and height around the first `x`, neither of them zero. -/
def readSurface? (text : List Char) : Option (UInt32 × UInt32) :=
  let isMark := fun c => c == 'x' || c == 'X'
  match text.dropWhile (!isMark ·) with
  | [] => none
  | _ :: rest => do
    let width ← readUInt32? (trimBlanks (text.takeWhile (!isMark ·)))
    let height ← readUInt32? (trimBlanks rest)
    if width = 0 ∨ height = 0 then none else return (width, height)

/-- Sets something that has not been set. -/
def once {α : Type} (old new : Option α) : Option (Option α) :=
  match old, new with
  | none, some a => some (some a)
  | _, _ => none

/-- Takes in an option and its value. -/
def setOption? (d : Draft) (name value : String) : Option Draft :=
  let text := value.toList
  match name with
  | "width" => do return { d with width := ← once d.width (readSide? text) }
  | "height" => do return { d with height := ← once d.height (readSide? text) }
  | "surface" => do return { d with surface := ← once d.surface (readSurface? text) }
  | "break" => do return { d with breakpoints := (← readUInt64? text) :: d.breakpoints }
  | "query" => some { d with queries := value :: d.queries }
  | "seed" => do return { d with seed := ← once d.seed (readUInt64? text) }
  | "poll-ms" => do return { d with pollInterval := ← once d.pollInterval (readUInt64? text) }
  | "dump-screen" => do
    return { d with dumpScreen := ← once d.dumpScreen (if value.isEmpty then none else some value) }
  | _ => none

/-- A value given as an argument of its own does not look like an option. -/
def isValue (arg : String) : Bool := arg == "-" || !arg.startsWith "-"

/-- Takes in an argument that is no option. -/
def addProgram? (d : Draft) (arg : String) : Option Draft :=
  if arg.isEmpty then none else some { d with programs := arg :: d.programs }

/-- Takes in the arguments one after the other. After `--` no argument is an option. -/
def addAll? (d : Draft) : List String → Option Draft
  | [] => some d
  | arg :: args =>
    match after? ['-', '-'] arg.toList with
    | some [] => args.foldlM addProgram? d
    | some body =>
      match cut? ['='] body with
      | some (name, value) =>
        match d.setOption? (String.ofList name) (String.ofList value) with
        | some d => addAll? d args
        | none => none
      | none =>
        if body = "report".toList then
          if d.report then none else addAll? { d with report := true } args
        else
          match args with
          | value :: args =>
            if isValue value then
              match d.setOption? (String.ofList body) value with
              | some d => addAll? d args
              | none => none
            else none
          | [] => none
    | none =>
      if isValue arg then
        match d.addProgram? arg with
        | some d => addAll? d args
        | none => none
      else none

/-- The options of a complete draft, which has exactly one program. -/
def finish? (d : Draft) : Option Options :=
  match d.programs with
  | [program] =>
    let defaults : Options := { program := program }
    some {
      program := program
      width := d.width.getD defaults.width
      height := d.height.getD defaults.height
      surface := d.surface.getD defaults.surface
      breakpoints := d.breakpoints.reverse
      queries := d.queries.reverse
      seed := d.seed
      pollInterval := d.pollInterval.getD defaults.pollInterval
      dumpScreen := d.dumpScreen
      report := d.report }
  | _ => none

end Draft

/-- The options that arguments write. -/
def Options.read? (args : List String) : Option Options := (Draft.addAll? {} args).bind Draft.finish?

end PixelMachine
