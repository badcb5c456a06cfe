import PixelMachine.Config
import PixelMachine.Event
import PixelMachine.Fault
import PixelMachine.Keyboard
import PixelMachine.Log
import PixelMachine.Memory.FrameStack
import PixelMachine.Program.Basic
import PixelMachine.Random
import PixelMachine.Saved.Snapshot
import PixelMachine.Screen.Basic
import PixelMachine.Trace

/-! The state of a machine and how a new one is built. -/
namespace PixelMachine

/-- What a machine is connected to; `entropy` seeds the random source when the settings do not. -/
structure Devices where
  surface : Surface
  log : Log := {}
  keyboard : Keyboard := {}
  entropy : UInt64 := 0

/-- A surface of a hundred by a hundred pixels, no log and no keys. -/
def Devices.headless : Devices := { surface := .black 100 100, log := { kept := false } }

/-- A machine. Both stacks have their top first; `counter` is the index of the next instruction. It
runs unless it is halted or paused. -/
structure Machine where
  program : Program := .idle
  config : Config
  screen : Screen
  log : Log
  keyboard : Keyboard
  stack : List Value := []
  frames : FrameStack := .initial
  returns : List Nat := []
  counter : Int := 0
  halted : Bool := true
  paused : Bool := false
  breakpoints : IndexSet := .empty
  observers : Observers := {}
  control : Control := {}
  random : Generator
  trace : Trace := .empty

/-- A side of the logical screen is at least one and at most that of the surface. -/
def checkScreenSize (side : Dimension) (requested limit : Nat) : Except Fault Unit :=
  if requested = 0 ∨ limit < requested then .error (.screenSize side requested limit) else .ok ()

namespace Machine

/-- A halted machine with the program that does nothing. -/
def build (d : Devices) (config : Config) : Machine where
  config := config
  screen := ⟨d.surface, config.width.toNat, config.height.toNat⟩
  log := d.log
  keyboard := d.keyboard
  random := .ofSeed (config.seed.getD d.entropy)

/-- The largest side up to a hundred that fits a surface's side, and at least one. -/
def fittingSide (limit : Nat) : UInt32 := (max (min 100 limit) 1).toUInt32

/-- A machine with the default settings, on a smaller screen where the surface is smaller. -/
def new (d : Devices) : Machine :=
  build d { width := fittingSide d.surface.width, height := fittingSide d.surface.height }

/-- A machine with given settings; its screen has to fit the surface. -/
def withConfig (d : Devices) (config : Config) : Except Fault Machine := do
  checkScreenSize .width config.width.toNat d.surface.width
  checkScreenSize .height config.height.toNat d.surface.height
  return build d config

/-- Tells the observers of an event. -/
def announce (m : Machine) (e : Event) : Machine := { m with observers := m.observers.announce e }

/-- Sets the halted flag and announces it, changed or not. -/
def setHalted (m : Machine) (b : Bool) : Machine :=
  { m with halted := b, observers := m.observers.announce (.haltedChanged b) }

/-- Sets the paused flag and announces it, changed or not. -/
def setPaused (m : Machine) (b : Bool) : Machine :=
  { m with paused := b, observers := m.observers.announce (.pausedChanged b) }

/-- What a tool sees of the machine. -/
def snapshot (m : Machine) : Snapshot where
  programCounter := Int64.ofInt m.counter
  halted := m.halted
  paused := m.paused
  width := m.screen.width.toUInt32
  height := m.screen.height.toUInt32
  workStack := m.stack.reverse
  returnStack := m.returns.reverse.map Nat.toUInt64
  frames := m.frames

end Machine

end PixelMachine
