/-! Requests to pause or stop a machine, made by others while it runs. -/
namespace PixelMachine

/-- Which requests have been made. -/
structure Requests where
  pause : Bool := false
  stop : Bool := false
  deriving DecidableEq, Repr

namespace Requests

/-- Both requests together. -/
def or (a b : Requests) : Requests := ⟨a.pause || b.pause, a.stop || b.stop⟩

/-- Some request has been made. -/
def any (r : Requests) : Bool := r.pause || r.stop

end Requests

/-- The requests that wait for the machine, and those still to come: one entry of `arriving` lands
just before each of the machine's looks at the requests. -/
structure Control where
  pending : Requests := {}
  arriving : List Requests := []
  deriving DecidableEq, Repr

namespace Control

/-- Makes requests now. -/
def request (c : Control) (r : Requests) : Control := { c with pending := c.pending.or r }

/-- Lets the next entry land. -/
def sync (c : Control) : Control :=
  match c.arriving with
  | [] => c
  | r :: rest => ⟨c.pending.or r, rest⟩

/-- Looks whether a pause is requested. -/
def seesPause (c : Control) : Bool × Control := (c.sync.pending.pause, c.sync)

/-- Looks whether a stop is requested. -/
def seesStop (c : Control) : Bool × Control := (c.sync.pending.stop, c.sync)

/-- Looks for a request of either kind, first for a pause. -/
def seesAny (c : Control) : Bool × Control :=
  match c.seesPause with
  | (true, c) => (true, c)
  | (false, c) => c.seesStop

/-- Takes away a requested pause. -/
def takePause (c : Control) : Bool × Control :=
  (c.sync.pending.pause, { c.sync with pending := { c.sync.pending with pause := false } })

/-- Takes away a requested stop. -/
def takeStop (c : Control) : Bool × Control :=
  (c.sync.pending.stop, { c.sync with pending := { c.sync.pending with stop := false } })

/-- Takes away both, first the pause. -/
def clear (c : Control) : Control := c.takePause.2.takeStop.2

end Control

end PixelMachine
