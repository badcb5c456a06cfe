import PixelMachine.Control

/-! Keys and keyboards. -/
namespace PixelMachine

/-- A key press. -/
inductive Key where
  | char (c : Char)
  | enter
  | tab
  /-- Any other key; the machine passes over it. -/
  | named (name : String)
  deriving DecidableEq, Repr

namespace Key

/-- The key of a name; a single character names itself. -/
def ofName (name : String) : Key :=
  match name.toList with
  | [c] => .char c
  | _ => if name = "Enter" then .enter else if name = "Tab" then .tab else .named name

/-- The key that types a character. -/
def ofTyped (c : Char) : Key := if c = '\n' then .enter else if c = '\t' then .tab else .char c

/-- The character code of a key, if the machine takes it. -/
def code? : Key → Option Nat
  | .char c => if c.toNat = 0 then none else some c.toNat
  | .enter => some 10
  | .tab => some 9
  | .named _ => none

end Key

/-- What one look at the keyboard brings: a key or none, and requests made at that moment. -/
structure Poll where
  key : Option Key := none
  requests : Requests := {}
  deriving DecidableEq, Repr

/-- The polls to come; once they are used up every further one brings no key and `idle` requests. -/
structure Keyboard where
  script : List Poll := []
  idle : Requests := {}
  deriving DecidableEq, Repr

namespace Keyboard

/-- A keyboard that delivers keys one after the other. -/
def ofKeys (keys : List Key) : Keyboard := { script := keys.map fun k => { key := some k } }

/-- The keys that type a text. -/
def typed (text : String) : List Key := text.toList.map Key.ofTyped

/-- The next poll. -/
def poll (k : Keyboard) : Poll × Keyboard :=
  match k.script with
  | p :: rest => (p, { k with script := rest })
  | [] => ({ requests := k.idle }, k)

end Keyboard

end PixelMachine
