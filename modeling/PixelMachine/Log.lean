import PixelMachine.Control

/-! The text output of a program. -/
namespace PixelMachine

/-- The text so far. A trigger makes its requests whenever exactly its text is appended; a log that
is not kept stays empty. -/
structure Log where
  text : String := ""
  triggers : List (String × Requests) := []
  kept : Bool := true

namespace Log

/-- Appends a text. -/
def append (l : Log) (t : String) : Log := if l.kept then { l with text := l.text ++ t } else l

/-- The requests that appending a text makes. -/
def requestsOf (l : Log) (t : String) : Requests :=
  l.triggers.foldl (fun r e => if e.1 = t then r.or e.2 else r) {}

end Log

end PixelMachine
