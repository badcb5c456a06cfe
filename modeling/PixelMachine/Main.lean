import PixelMachine.CommandLine.Session

/-! The command line: reads the arguments, the program file and the typed input, and writes what the
run leaves behind. -/
namespace PixelMachine

/-- The system's words for a failed access to a file and its number for the failure. A file that can be
read fails only when it is no text. -/
def fileReason : IO.Error → String
  | .noFileOrDirectory _ code details | .permissionDenied _ code details
  | .inappropriateType _ code details | .invalidArgument _ code details
  | .resourceExhausted _ code details => details ++ " (os error " ++ code.toNat.repr ++ ")"
  | .userError _ => "stream did not contain valid UTF-8"
  | e => toString e

/-- What is wrong with a document that holds no program: it has neither of the two forms, or not all of
it can be read. -/
def documentReason (text : String) : String :=
  match (Json.read? text).filter (·.readable) with
  | some _ => ": data did not match any variant of untagged enum ProgramSource\n"
  | none => ": invalid JSON\n"

/-- Steps that a run may take: more than any run lasts. -/
def endlessFuel : Nat := 4611686018427387904

/-- Runs a program file as the options say. -/
def runFile (o : Options) : IO UInt32 := do
  let program ←
    try
      let text ← IO.FS.withFile o.program .read fun file => file.readToEnd
      pure (Except.ok text)
    catch e => pure (.error (fileReason e))
  let input ← (← IO.getStdin).readToEnd
  let entropy ← IO.rand 0 18446744073709551615
  let session := fun screen =>
    Session.run endlessFuel o ⟨program, screen⟩ input entropy.toUInt64 documentReason
  match session (.ok ()) with
  | none => return 1
  | some transcript =>
    let written ← match o.dumpScreen, transcript.image with
      | some path, some bytes =>
        try
          IO.FS.writeBinFile path ⟨bytes.toArray⟩
          pure (Except.ok ())
        catch e => pure (.error (fileReason e))
      | _, _ => pure (.ok ())
    let transcript := match written with
      | .ok () => transcript
      | .error reason => (session (.error reason)).getD transcript
    IO.print transcript.output
    IO.eprint transcript.errors
    return transcript.exitCode.toUInt32

end PixelMachine

/-- Arguments that make no sense end with exit code two. -/
def main (args : List String) : IO UInt32 :=
  match PixelMachine.Options.read? args with
  | some o => PixelMachine.runFile o
  | none => return 2
