import PixelMachine.Proofs.Loop

/-! The states that a machine can come to, and what makes a property hold in all of them. -/
namespace PixelMachine

/-- What one can do with a machine. -/
inductive Command where
  | load (program : Program)
  | reset | run | resume | pause | stop | step | singleStep | stepOut
  | addBreakpoint (address : Nat)
  | removeBreakpoint (address : Nat)
  | clearBreakpoints
  | subscribe (channel : Bool) (closing : List Bool)
  | hangUp (id : Nat)
  | request (r : Requests)
  | setWidth (width : Nat)
  | setHeight (height : Nat)

namespace Machine

/-- Gives a command. There is no result when the command does not return, or not within the fuel. -/
def execute (fuel : Nat) (m : Machine) : Command → Option Outcome
  | .load program => some (.ok (), m.load program)
  | .reset => some (.ok (), m.reset)
  | .run => m.run fuel
  | .resume => m.resume fuel
  | .pause => some (.ok (), m.pause)
  | .stop => some (.ok (), m.stop)
  | .step => m.step
  | .singleStep => m.singleStep
  | .stepOut => m.stepOut fuel
  | .addBreakpoint address => some (.ok (), (m.addBreakpoint address).2)
  | .removeBreakpoint address => some (.ok (), (m.removeBreakpoint address).2)
  | .clearBreakpoints => some (.ok (), m.clearBreakpoints)
  | .subscribe channel closing => some (.ok (), (m.subscribe channel closing).2)
  | .hangUp id => some (.ok (), m.hangUp id)
  | .request r => some (.ok (), m.request r)
  | .setWidth width => some (m.setWidth width)
  | .setHeight height => some (m.setHeight height)

/-- The machine that `resume` starts to drive. -/
def resumed (m : Machine) : Machine := { m with control := m.control.takePause.2 }.setPaused false

theorem resume_of_running {m : Machine} (hh : m.halted = false) (fuel : Nat) :
    m.resume fuel = drive fuel none m.resumed := by
  unfold resume
  rw [if_neg (by simp [hh])]
  rfl

/-- A command on `m` executes an instruction in the state `b`, or would if no request, flag or fault
stood against it. -/
inductive Executes (m : Machine) : Machine → Prop where
  | step : Executes m m
  | singleStep {p : Machine} : m.applyRequests.enterPaused = .ok p → Executes m p
  | run {b : Machine} : Turns none (m.reset.setHalted false).resumed b →
      Executes m b.applyRequests
  | resume {b : Machine} : m.halted = false → Turns none m.resumed b → Executes m b.applyRequests
  | stepOut {p b : Machine} : m.applyRequests.enterPaused = .ok p →
      Turns (some p.returns.length) (p.setPaused false) b → Executes m b.applyRequests

/-- The states that a new machine comes to: after every sequence of commands that return, and within
commands at every instruction. Others may plan their requests anew at any time. -/
inductive Reachable : Machine → Prop where
  | new (d : Devices) : Reachable (new d)
  | withConfig {d : Devices} {config : Config} {m : Machine} : withConfig d config = .ok m →
      Reachable m
  | arrive {m : Machine} (arriving : List Requests) : Reachable m →
      Reachable { m with control := { m.control with arriving := arriving } }
  | command {m m' : Machine} {fuel : Nat} {c : Command} {r : Except Fault Unit} : Reachable m →
      m.execute fuel c = some (r, m') → Reachable m'
  | within {m b : Machine} : Reachable m → Executes m b → Reachable b

/-- A property of the work that new machines have and that nothing done to a machine breaks. -/
structure Kept (Inv : Work → Prop) : Prop where
  build : ∀ d config, Inv (build d config).work
  load : ∀ (m : Machine) program, Inv m.work → Inv (m.load program).work
  reset : ∀ m : Machine, Inv m.work → Inv m.reset.work
  resize : ∀ (m : Machine) screen, Inv m.work → Inv { m with screen := screen }.work
  step : ∀ (m m' : Machine) r, Inv m.work → m.step = some (r, m') → Inv m'.work

namespace Kept

variable {Inv : Work → Prop}

theorem applyRequests {m : Machine} (h : Inv m.work) : Inv m.applyRequests.work := by
  rwa [work_applyRequests]

theorem turns (hk : Kept Inv) {depth : Option Nat} {m b : Machine}
    (ht : Turns depth m b) (h : Inv m.work) : Inv b.work := by
  induction ht with
  | refl => exact h
  | tail _ ht ih =>
    obtain ⟨_, _, hs, _⟩ := ht
    rw [work_checkBreakpoint]
    exact hk.step _ _ _ (applyRequests ih) hs

theorem drive (hk : Kept Inv) {fuel : Nat} {depth : Option Nat} {m m' : Machine}
    {r : Except Fault Unit} (hd : drive fuel depth m = some (r, m')) (h : Inv m.work) :
    Inv m'.work := by
  obtain ⟨b, hb, he⟩ := drive_eq_some_iff.mp ⟨fuel, hd⟩
  have hinv := hk.turns hb h
  cases he with
  | stopped _ => exact applyRequests hinv
  | failed _ _ hs => exact hk.step _ _ _ (applyRequests hinv) hs
  | returned _ _ hs _ =>
    rw [work_checkBreakpoint]
    exact hk.step _ _ _ (applyRequests hinv) hs

theorem enterPaused (hk : Kept Inv) {m p : Machine} (hp : m.enterPaused = .ok p)
    (h : Inv m.work) : Inv p.work := by
  rcases enterPaused_eq_ok hp with ⟨_, rfl⟩ | ⟨_, _, rfl⟩
  · exact hk.reset m h
  · exact h

theorem resume (hk : Kept Inv) {fuel : Nat} {m m' : Machine} {r : Except Fault Unit}
    (hr : m.resume fuel = some (r, m')) (h : Inv m.work) : Inv m'.work := by
  unfold Machine.resume at hr
  split at hr
  · cases hr
    exact h
  · exact hk.drive hr h

theorem singleStep (hk : Kept Inv) {m m' : Machine} {r : Except Fault Unit}
    (hs : m.singleStep = some (r, m')) (h : Inv m.work) : Inv m'.work := by
  have happly := applyRequests h
  cases singleSteps_of_eq hs with
  | refused _ => exact happly
  | failed hp hstep => exact hk.step _ _ _ (hk.enterPaused hp happly) hstep
  | done hp hstep => exact applyRequests (hk.step _ _ _ (hk.enterPaused hp happly) hstep)

theorem stepOut (hk : Kept Inv) {fuel : Nat} {m m' : Machine} {r : Except Fault Unit}
    (hs : m.stepOut fuel = some (r, m')) (h : Inv m.work) : Inv m'.work := by
  have happly := applyRequests h
  cases stepsOut_of_eq hs with
  | refused _ => exact happly
  | failed hp hd | halted hp hd | done hp hd =>
    have hpaused := hk.enterPaused hp happly
    have hdriven := hk.drive hd hpaused
    exact hdriven

theorem execute (hk : Kept Inv) {fuel : Nat} {m m' : Machine} {c : Command}
    {r : Except Fault Unit} (hc : m.execute fuel c = some (r, m')) (h : Inv m.work) :
    Inv m'.work := by
  cases c with
  | load program =>
    cases hc
    exact hk.load m program h
  | reset =>
    cases hc
    exact hk.reset m h
  | run =>
    have hr : (m.reset.setHalted false).resume fuel = some (r, m') := hc
    exact hk.resume hr (hk.reset m h)
  | resume => exact hk.resume hc h
  | step => exact hk.step _ _ _ h hc
  | singleStep => exact hk.singleStep hc h
  | stepOut => exact hk.stepOut hc h
  | pause | stop | addBreakpoint | removeBreakpoint | clearBreakpoints | subscribe | hangUp
  | request =>
    cases hc
    exact h
  | setWidth width =>
    simp only [Machine.execute, setWidth] at hc
    split at hc
    · cases hc
      exact hk.resize m _ h
    · cases hc
      exact h
  | setHeight height =>
    simp only [Machine.execute, setHeight] at hc
    split at hc
    · cases hc
      exact hk.resize m _ h
    · cases hc
      exact h

end Kept

theorem eq_build_of_withConfig {d : Devices} {config : Config} {m : Machine}
    (h : withConfig d config = .ok m) : m = build d config := by
  unfold withConfig at h
  rcases hw : checkScreenSize .width config.width.toNat d.surface.width with e | u
  · rw [hw] at h
    cases h
  · rcases hh : checkScreenSize .height config.height.toNat d.surface.height with e | u
    · rw [hw, hh] at h
      cases h
    · rw [hw, hh] at h
      cases h
      rfl

/-- Such a property holds in every state that a machine can come to. -/
theorem Reachable.of_kept {Inv : Work → Prop} (hk : Kept Inv) {m : Machine} (h : Reachable m) :
    Inv m.work := by
  induction h with
  | new d => exact hk.build d _
  | withConfig hc =>
    rw [eq_build_of_withConfig hc]
    exact hk.build _ _
  | arrive _ _ ih => exact ih
  | command _ hc ih => exact hk.execute hc ih
  | within _ he ih =>
    -- Within a command the machine has made turns only, from a start that the command prepared.
    have happly := Kept.applyRequests ih
    cases he with
    | step => exact ih
    | singleStep hp => exact hk.enterPaused hp happly
    | run ht =>
      have hreset := hk.reset _ ih
      exact Kept.applyRequests (hk.turns ht hreset)
    | resume _ ht => exact Kept.applyRequests (hk.turns ht ih)
    | stepOut hp ht =>
      have hpaused := hk.enterPaused hp happly
      exact Kept.applyRequests (hk.turns ht hpaused)

end Machine

end PixelMachine
