import PixelMachine.CommandLine.Options
import PixelMachine.Json.Reader
import PixelMachine.Json.Writer
import PixelMachine.Machine.Query
import PixelMachine.Machine.RunControl
import PixelMachine.Saved.Event
import PixelMachine.Saved.Trace
import PixelMachine.Screen.Image

/-! A run from the command line: it reads a program, runs it to its end with queries answered at each
pause, and reports. -/
namespace PixelMachine

/-- What the files of a run answer: the text of the program file, and whether the image can be
written; a failure has the system's words for it. -/
structure Files where
  program : Except String String
  screen : Except String Unit

/-- What a run leaves behind. -/
structure Transcript where
  exitCode : Nat
  output : String := ""
  errors : String := ""
  image : Option (List UInt8) := none

namespace Session

/-- The lines and functions of a program file in text form, which is an object. -/
def textForm? (j : Json) : Option (List String × FunctionTable) := do
  let fields ← j.fields?
  let lines ← (← Json.field? "lines" fields).bind (Json.list? Json.str?)
  let functions ← Json.optional .empty FunctionTable.ofJson? (← Json.field? "functions" fields)
  return (lines, functions)

/-- The program of a file: in text form, else in its saved form. Both are read from a copy of the
document, so all of it must be readable. -/
def readProgram? (text : String) : Option (Except DecodeError Program) :=
  match Json.read? text with
  | none => none
  | some j =>
    if j.readable then
      match textForm? j with
      | some (lines, functions) => some (Program.ofLines lines functions.entries)
      | none => (Program.ofJsonFrom? .copied j).map .ok
    else none

/-- An error and what caused it. -/
def chain : DecodeError → String
  | .atLine line cause => (DecodeError.atLine line cause).message ++ ": " ++ chain cause
  | e => e.message

/-- The keys of typed input: one to a character, and one for the end of each line. -/
def keysOf : List Char → List Key
  | [] => []
  | '\r' :: '\n' :: rest => .enter :: keysOf rest
  | '\n' :: rest => .enter :: keysOf rest
  | [c] => [.char c, .enter]
  | c :: rest => .char c :: keysOf rest

/-- The answers to queries, one after the other. -/
def answers (m : Machine) (queries : List String) : String :=
  String.join (queries.map fun q =>
    match m.query q with
    | .ok answer => q ++ " = " ++ answer ++ "\n"
    | .error e => q ++ ": " ++ e.kind.title ++ ": " ++ e.message ++ "\n")

/-- Resumes a paused machine again and again; the answers at each pause are added to `errors`. The
fuel bounds the number of pauses. -/
def goOn (fuel : Nat) (queries : List String) :
    Nat → Machine.Outcome → String → Option (Machine.Outcome × String)
  | 0, _, _ => none
  | _ + 1, (.error e, m), errors => some ((.error e, m), errors)
  | pauses + 1, (.ok (), m), errors =>
    if m.paused && !m.halted then
      match m.resume fuel with
      | some outcome => goOn fuel queries pauses outcome (errors ++ answers m queries)
      | none => none
    else some ((.ok (), m), errors)

/-- The report of a run. -/
def report (result : Except Fault Unit) (m : Machine) : Json :=
  let common := [("snapshot", m.snapshot.toJson), ("trace", m.trace.saved.toJson)]
  match result with
  | .ok () => .obj (("ok", .bool true) :: common)
  | .error e =>
    .obj (("ok", .bool false) :: common ++ [("error", .obj [("kind", e.kind.toJson),
      ("name", .str e.kind.title), ("message", .str e.message)])])

/-- The machine that the options describe, with the program loaded and breakpoints set. -/
def prepare (o : Options) (input : String) (entropy : UInt64) (program : Program) :
    Except Fault Machine := do
  let (width, height) := o.surface
  let devices : Devices := {
    surface := .black width.toNat height.toNat
    keyboard := .ofKeys (keysOf input.toList)
    entropy := entropy }
  let m ← Machine.withConfig devices
    { width := o.width, height := o.height, pollInterval := o.pollInterval, seed := o.seed }
  return o.breakpoints.foldl (fun m address => (m.addBreakpoint address.toNat).2) (m.load program)

/-- What is left to do after a run has ended: the last answers, the error, the image, the report. -/
def conclude (o : Options) (screen : Except String Unit) (result : Except Fault Unit) (m : Machine)
    (errors : String) : Transcript :=
  let errors := errors ++ answers m o.queries
  let (exitCode, errors) := match result with
    | .ok () => (0, errors)
    | .error e => (1, errors ++ e.kind.title ++ ": " ++ e.message ++ "\n")
  let output := m.log.text
  let finished : Transcript := {
    exitCode := exitCode
    output := if o.report then output ++ (report result m).indented 0 ++ "\n" else output
    errors := errors }
  match o.dumpScreen, screen with
  | none, _ => finished
  | some _, .ok () => { finished with image := some m.screen.surface.image }
  | some path, .error reason =>
    { exitCode := 1, output := output
      errors := errors ++ "error: failed to write " ++ path ++ ": " ++ reason ++ "\n" }

/-- A run that does not get as far as the program. -/
def refused (message : String) : Transcript := { exitCode := 1, errors := "error: " ++ message }

/-- A whole run. There is no transcript when the fuel runs out. What the reader of documents says about
one that holds no program comes from outside, like the reasons for which files cannot be read: `why`
gives the end of the message, from the colon to the line end, and without it the message stops there. -/
def run (fuel : Nat) (o : Options) (files : Files) (input : String) (entropy : UInt64)
    (why : String → String := fun _ => "") : Option Transcript :=
  match files.program with
  | .error reason => some (refused ("failed to read " ++ o.program ++ ": " ++ reason ++ "\n"))
  | .ok text =>
    match readProgram? text with
    | none => some (refused ("failed to parse " ++ o.program ++ why text))
    | some (.error e) => some (refused ("failed to decode program: " ++ chain e ++ "\n"))
    | some (.ok program) =>
      match prepare o input entropy program with
      | .error e => some (refused (e.message ++ "\n"))
      | .ok m =>
        match m.run fuel with
        | none => none
        | some outcome =>
          match goOn fuel o.queries fuel outcome "" with
          | none => none
          | some ((result, m), errors) => some (conclude o files.screen result m errors)

end Session

end PixelMachine
