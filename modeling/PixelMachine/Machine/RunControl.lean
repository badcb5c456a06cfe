import PixelMachine.Machine.Step

/-! Running and debugging: a machine is halted, paused or running. Halted, the next run or step
starts from a reset; paused, it can be resumed or stepped. -/
namespace PixelMachine

namespace Machine

/-- Empties stacks, memory, statistics and requests and goes back to the first instruction. -/
def reset (m : Machine) : Machine :=
  { m with
    stack := []
    frames := .initial
    returns := []
    counter := 0
    control := m.control.clear
    trace := .empty }.setPaused false

/-- Halts. -/
def stop (m : Machine) : Machine := m.setHalted true

/-- Pauses. -/
def pause (m : Machine) : Machine := m.setPaused true

/-- Halts, takes another program and resets. -/
def load (m : Machine) (program : Program) : Machine := { m.stop with program := program }.reset

/-- Carries out the requests that wait: a stop halts, and a pause pauses unless the machine is
halted. -/
def applyRequests (m : Machine) : Machine :=
  let (stop, control) := m.control.takeStop
  let m := { m with control := control }
  let m := if stop then m.setHalted true else m
  let (pause, control) := m.control.takePause
  let m := { m with control := control }
  if pause && !m.halted then m.setPaused true else m

/-- Pauses a running machine whose next instruction, counted from one, has a breakpoint. -/
def checkBreakpoint (m : Machine) : Machine :=
  if m.halted || m.paused || m.counter < 0 then m
  else
    let address := m.counter.toNat + 1
    if m.breakpoints.contains address then
      (m.setPaused true).announce (.breakpointHit address.toUInt64)
    else m

/-- Steps until the machine is halted or paused, or until the return stack is shallower than a given
depth. The fuel bounds the number of steps; there is no result when it runs out. -/
def drive : Nat → Option Nat → Machine → Option Outcome
  | 0, _, _ => none
  | fuel + 1, depth, m =>
    let m := m.applyRequests
    if m.halted || m.paused then some (.ok (), m)
    else
      match m.step with
      | none => none
      | some (.error e, m) => some (.error e, m)
      | some (.ok (), m) =>
        let m := m.checkBreakpoint
        if depth.any (m.returns.length < ·) then some (.ok (), m) else drive fuel depth m

/-- Goes on until the machine halts, pauses or fails. A pause requested earlier is forgotten. -/
def resume (fuel : Nat) (m : Machine) : Option Outcome :=
  if m.halted then some (.error (.invalidControlState .resumeHalted), m)
  else drive fuel none ({ m with control := m.control.takePause.2 }.setPaused false)

/-- Resets and runs from the start. -/
def run (fuel : Nat) (m : Machine) : Option Outcome := resume fuel (m.reset.setHalted false)

/-- Makes a halted machine start over, paused; a running one cannot be stepped. -/
def enterPaused (m : Machine) : Except Fault Machine :=
  if m.halted then .ok ((m.reset.setHalted false).setPaused true)
  else if m.paused then .ok m
  else .error (.invalidControlState .stepRunning)

/-- Executes one instruction of a paused machine, or the first one of a halted machine. -/
def singleStep (m : Machine) : Option Outcome :=
  let m := m.applyRequests
  match m.enterPaused with
  | .error e => some (.error e, m)
  | .ok m =>
    match m.step with
    | none => none
    | some (.error e, m) => some (.error e, m)
    | some (.ok (), m) => some (.ok (), m.applyRequests)

/-- Runs until the current function returns, then pauses. -/
def stepOut (fuel : Nat) (m : Machine) : Option Outcome :=
  let m := m.applyRequests
  match m.enterPaused with
  | .error e => some (.error e, m)
  | .ok m =>
    match drive fuel (some m.returns.length) (m.setPaused false) with
    | none => none
    | some (.error e, m) => some (.error e, m)
    | some (.ok (), m) => some (.ok (), if m.halted then m else m.setPaused true)

/-- Sets a breakpoint at an address counted from one; true if it was not set. -/
def addBreakpoint (m : Machine) (address : Nat) : Bool × Machine :=
  (!m.breakpoints.contains address, { m with breakpoints := m.breakpoints.insert address })

/-- Removes a breakpoint; true if it was set. -/
def removeBreakpoint (m : Machine) (address : Nat) : Bool × Machine :=
  (m.breakpoints.contains address, { m with breakpoints := m.breakpoints.erase address })

/-- Removes all breakpoints. -/
def clearBreakpoints (m : Machine) : Machine := { m with breakpoints := .empty }

/-- Registers an observer and tells its number. -/
def subscribe (m : Machine) (channel : Bool := true) (closing : List Bool := []) : Nat × Machine :=
  (m.observers.nextId, { m with observers := m.observers.subscribe channel closing })

/-- Closes an observer. -/
def hangUp (m : Machine) (id : Nat) : Machine := { m with observers := m.observers.hangUp id }

/-- Makes requests from outside. -/
def request (m : Machine) (r : Requests) : Machine := { m with control := m.control.request r }

/-- The screen changes its size only while the machine is halted. -/
def checkResize (m : Machine) (side : Dimension) (requested limit : Nat) : Except Fault Unit :=
  if m.halted then checkScreenSize side requested limit
  else .error (.invalidControlState .resizeRunning)

/-- Changes the logical width. -/
def setWidth (m : Machine) (width : Nat) : Outcome :=
  match m.checkResize .width width m.screen.surface.width with
  | .ok () => (.ok (), { m with screen := { m.screen with width := width } })
  | .error e => (.error e, m)

/-- Changes the logical height. -/
def setHeight (m : Machine) (height : Nat) : Outcome :=
  match m.checkResize .height height m.screen.surface.height with
  | .ok () => (.ok (), { m with screen := { m.screen with height := height } })
  | .error e => (.error e, m)

end Machine

end PixelMachine
