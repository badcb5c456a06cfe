import PixelMachine.Event
import PixelMachine.FaultKind
import PixelMachine.Keyboard
import PixelMachine.Saved.Value

/-! The saved form of events, keys and error classes. -/
namespace PixelMachine

namespace Event

/-- The saved form of an event. -/
def toJson : Event → Json
  | .haltedChanged b => .obj [("HaltedChanged", .bool b)]
  | .pausedChanged b => .obj [("PausedChanged", .bool b)]
  | .breakpointHit address => .obj [("BreakpointHit", .obj [("address", .ofUInt64 address)])]

/-- Reads a saved event. -/
def ofJson? (j : Json) : Option Event :=
  match j.variant? with
  | some ("HaltedChanged", some content) => content.bool?.map .haltedChanged
  | some ("PausedChanged", some content) => content.bool?.map .pausedChanged
  | some ("BreakpointHit", some content) =>
    match content.record? ["address"] with
    | some [address] => (Json.required Json.uint64? address).map .breakpointHit
    | _ => none
  | _ => none

end Event

namespace Key

/-- The saved form of a key. -/
def toJson : Key → Json
  | .char c => .obj [("Char", .str (String.ofList [c]))]
  | .enter => .str "Enter"
  | .tab => .str "Tab"
  | .named name => .obj [("Named", .str name)]

/-- A text of one character. -/
def oneChar? (s : String) : Option Char :=
  match s.toList with
  | [c] => some c
  | _ => none

/-- Reads a saved key. -/
def ofJson? (j : Json) : Option Key :=
  match j.variant? with
  | some ("Char", some content) => (content.str?.bind oneChar?).map .char
  | some ("Named", some content) => content.str?.map .named
  | _ =>
    match j.plainVariant? with
    | some "Enter" => some .enter
    | some "Tab" => some .tab
    | _ => none

end Key

namespace FaultKind

/-- The saved form of an error class. -/
def toJson (k : FaultKind) : Json := .str k.name

/-- Reads a saved error class. -/
def ofJson? (j : Json) : Option FaultKind :=
  j.plainVariant?.bind fun name => all.find? (·.name == name)

end FaultKind

end PixelMachine
