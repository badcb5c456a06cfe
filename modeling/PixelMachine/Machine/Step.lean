import PixelMachine.Machine.Instruction

/-! One step of a machine. -/
namespace PixelMachine

namespace Machine

/-- Polls the keyboard until it brings a key with a code, which is pushed, or until the wait is
interrupted: the machine is paused, or someone asks for a pause or a stop. The fuel bounds the number
of polls. -/
def awaitKeyWithin : Nat → Machine → Option Machine
  | 0, _ => none
  | fuel + 1, m =>
    let (poll, keyboard) := m.keyboard.poll
    let m := { m with keyboard := keyboard, control := m.control.request poll.requests }
    match poll.key.bind Key.code? with
    | some code =>
      some { m with stack := .number (Float.ofNat code) :: m.stack, counter := m.counter + 1 }
    | none =>
      if m.halted || m.paused then some m
      else
        let (seen, control) := m.control.seesAny
        let m := { m with control := control }
        if seen then some m else awaitKeyWithin fuel m

/-- Waits for a key. There is no result when the wait never ends: after the polls of the script and the
requests still to arrive nothing can change any more. -/
def awaitKey (m : Machine) : Option Machine :=
  awaitKeyWithin (m.keyboard.script.length + m.control.arriving.length + 1) m

/-- Appends texts to the log and makes the requests that they trigger. -/
def say (m : Machine) (texts : List String) : Machine :=
  texts.foldl (fun m t =>
    { m with log := m.log.append t, control := m.control.request (m.log.requestsOf t) }) m

/-- Carries out what the instruction at the counter asked for. -/
def perform (m : Machine) : Effect → Option Machine
  | .next => some { m with counter := m.counter + 1 }
  | .jump target => some { m with counter := target }
  | .call target arguments =>
    some { m with
      frames := m.frames.enter (arguments.map some)
      returns := (m.counter + 1).toNat :: m.returns
      counter := target }
  | .ret target rest => some { m with returns := rest, counter := target }
  | .halt => some (m.setHalted true)
  | .store frames => some { m with frames := frames, counter := m.counter + 1 }
  | .paint region colour =>
    some { m with screen := m.screen.paint region colour, counter := m.counter + 1 }
  | .print texts => some { m.say texts with counter := m.counter + 1 }
  | .roll random => some { m with random := random, counter := m.counter + 1 }
  | .awaitKey => m.awaitKey

/-- The instruction at the counter, with its index. -/
def current (m : Machine) : Except Fault (Nat × Instruction) :=
  let fault := Fault.counterOutOfBounds m.counter ((m.program.size : Int) - 1)
  if m.counter < 0 then .error fault
  else
    match m.program.instruction? m.counter.toNat with
    | some i => .ok (m.counter.toNat, i)
    | none => .error fault

/-- How a command ended and the machine it left. -/
abbrev Outcome := Except Fault Unit × Machine

/-- Executes the instruction at the counter. An error halts the machine. There is no result when the
instruction waits for a key for ever. -/
def step (m : Machine) : Option Outcome :=
  if m.halted then some (.error .halted, m)
  else
    match m.current with
    | .error e => some (.error e, m.setHalted true)
    | .ok (index, i) =>
      let m := { m with trace := m.trace.record index i.opcode }
      match plan m index i m.stack with
      | .error (e, stack) => some (.error e, { m with stack := stack }.setHalted true)
      | .ok (effect, stack) =>
        match { m with stack := stack }.perform effect with
        | none => none
        | some m =>
          some (.ok (), { m with
            trace := m.trace.recordDepths m.stack.length m.frames.length m.returns.length })

end Machine

end PixelMachine
