import Mathlib.Logic.Relation
import PixelMachine.Machine.RunControl
import PixelMachine.Proofs.Steps

/-! Run control leaves the work of a machine alone, and the driving loop is a chain of turns. -/
namespace PixelMachine

/-- What a program computes with: all of a machine but its run control, that is the flags, the
breakpoints, the observers and the requests. -/
structure Work where
  program : Program
  config : Config
  screen : Screen
  log : Log
  keyboard : Keyboard
  stack : List Value
  frames : FrameStack
  returns : List Nat
  counter : Int
  random : Generator
  trace : Trace

namespace Machine

/-- The work of a machine. -/
def work (m : Machine) : Work :=
  ⟨m.program, m.config, m.screen, m.log, m.keyboard, m.stack, m.frames, m.returns, m.counter,
    m.random, m.trace⟩

@[simp] theorem work_setHalted (m : Machine) (b : Bool) : (m.setHalted b).work = m.work := rfl

@[simp] theorem work_setPaused (m : Machine) (b : Bool) : (m.setPaused b).work = m.work := rfl

@[simp] theorem work_announce (m : Machine) (e : Event) : (m.announce e).work = m.work := rfl

/-- The first half of `applyRequests`: a stop that is requested halts. -/
def obeyStop (m : Machine) : Machine :=
  if m.control.takeStop.1 then { m with control := m.control.takeStop.2 }.setHalted true
  else { m with control := m.control.takeStop.2 }

/-- The second half of `applyRequests`: a pause that is requested pauses unless the machine is
halted. -/
def obeyPause (m : Machine) : Machine :=
  if m.control.takePause.1 && !m.halted then { m with control := m.control.takePause.2 }.setPaused true
  else { m with control := m.control.takePause.2 }

theorem applyRequests_eq (m : Machine) : m.applyRequests = m.obeyStop.obeyPause := rfl

@[simp] theorem work_obeyStop (m : Machine) : m.obeyStop.work = m.work := by
  unfold obeyStop
  split <;> rfl

@[simp] theorem work_obeyPause (m : Machine) : m.obeyPause.work = m.work := by
  unfold obeyPause
  split <;> rfl

@[simp] theorem work_applyRequests (m : Machine) : m.applyRequests.work = m.work := by
  rw [applyRequests_eq, work_obeyPause, work_obeyStop]

@[simp] theorem work_checkBreakpoint (m : Machine) : m.checkBreakpoint.work = m.work := by
  unfold checkBreakpoint
  split
  · rfl
  · dsimp only
    split <;> rfl

theorem breakpoints_applyRequests (m : Machine) : m.applyRequests.breakpoints = m.breakpoints := by
  have hpause (m : Machine) : m.obeyPause.breakpoints = m.breakpoints := by
    unfold obeyPause
    split <;> rfl
  rw [applyRequests_eq, hpause]
  unfold obeyStop
  split <;> rfl

theorem obeyStop_halted (m : Machine) :
    m.obeyStop.halted = (m.halted || m.control.sync.pending.stop) := by
  unfold obeyStop
  split
  · next hs =>
    have hs : m.control.sync.pending.stop = true := hs
    simp [hs, setHalted]
  · next hs =>
    have hs : m.control.sync.pending.stop = false := by simpa [Control.takeStop] using hs
    simp [hs]

@[simp] theorem obeyStop_paused (m : Machine) : m.obeyStop.paused = m.paused := by
  unfold obeyStop
  split <;> rfl

@[simp] theorem obeyStop_control (m : Machine) : m.obeyStop.control = m.control.takeStop.2 := by
  unfold obeyStop
  split <;> rfl

@[simp] theorem obeyPause_halted (m : Machine) : m.obeyPause.halted = m.halted := by
  unfold obeyPause
  split <;> rfl

@[simp] theorem obeyPause_control (m : Machine) : m.obeyPause.control = m.control.takePause.2 := by
  unfold obeyPause
  split <;> rfl

theorem obeyPause_paused (m : Machine) :
    m.obeyPause.paused = (m.paused || m.control.sync.pending.pause && !m.halted) := by
  unfold obeyPause
  split
  · next hp =>
    have hp : (m.control.sync.pending.pause && !m.halted) = true := hp
    simp [hp, setPaused]
  · next hp =>
    have hp : (m.control.sync.pending.pause && !m.halted) = false := by
      simpa [Control.takePause] using hp
    simp [hp]

theorem applyRequests_halted (m : Machine) :
    m.applyRequests.halted = (m.halted || m.control.sync.pending.stop) := by
  rw [applyRequests_eq, obeyPause_halted, obeyStop_halted]

/-- The second look at the requests sees what the first one left, and what landed since. -/
theorem takeStop_sync_pause (c : Control) :
    c.takeStop.2.sync.pending.pause = c.sync.sync.pending.pause := by
  rcases c with ⟨pending, _ | ⟨r, _ | ⟨r', rest⟩⟩⟩ <;> rfl

theorem applyRequests_paused (m : Machine) :
    m.applyRequests.paused =
      (m.paused || m.control.sync.sync.pending.pause && !m.applyRequests.halted) := by
  rw [applyRequests_eq, obeyPause_paused, obeyPause_halted, obeyStop_paused, obeyStop_control,
    takeStop_sync_pause]

@[simp] theorem returns_applyRequests (m : Machine) : m.applyRequests.returns = m.returns :=
  congrArg Work.returns (work_applyRequests m)

@[simp] theorem counter_applyRequests (m : Machine) : m.applyRequests.counter = m.counter :=
  congrArg Work.counter (work_applyRequests m)

@[simp] theorem keyboard_applyRequests (m : Machine) : m.applyRequests.keyboard = m.keyboard :=
  congrArg Work.keyboard (work_applyRequests m)

@[simp] theorem log_applyRequests (m : Machine) : m.applyRequests.log = m.log :=
  congrArg Work.log (work_applyRequests m)

theorem control_applyRequests (m : Machine) :
    m.applyRequests.control = m.control.takeStop.2.takePause.2 := by
  rw [applyRequests_eq, obeyPause_control, obeyStop_control]

@[simp] theorem returns_checkBreakpoint (m : Machine) : m.checkBreakpoint.returns = m.returns :=
  congrArg Work.returns (work_checkBreakpoint m)

/-- A stop comes first: the machine is halted, and a pause that waits as well is only taken away. -/
theorem applyRequests_of_stop {m : Machine} (h : m.control.sync.pending.stop = true) :
    m.applyRequests =
      { m with control := m.control.takeStop.2.takePause.2 }.setHalted true := by
  have hstop : m.obeyStop = { m with control := m.control.takeStop.2 }.setHalted true := by
    unfold obeyStop
    rw [if_pos (show m.control.takeStop.1 = true from h)]
  rw [applyRequests_eq, hstop]
  unfold obeyPause
  rw [if_neg (by simp [setHalted])]
  rfl

/-- Without a stop only a pause can make a difference. -/
theorem applyRequests_of_no_stop {m : Machine} (h : m.control.sync.pending.stop = false) :
    m.applyRequests =
        { m with control := m.control.takeStop.2.takePause.2 } ∨
      m.applyRequests =
        { m with control := m.control.takeStop.2.takePause.2 }.setPaused true ∧ m.halted = false := by
  have hstop : m.obeyStop = { m with control := m.control.takeStop.2 } := by
    unfold obeyStop
    rw [if_neg (show ¬m.control.takeStop.1 = true by simp [Control.takeStop, h])]
  rw [applyRequests_eq, hstop]
  unfold obeyPause
  split
  · next hp =>
    exact .inr ⟨rfl, by simpa using (Bool.and_eq_true_iff.mp hp).2⟩
  · exact .inl rfl

theorem trace_applyRequests (m : Machine) : m.applyRequests.trace = m.trace :=
  congrArg Work.trace (work_applyRequests m)

theorem trace_checkBreakpoint (m : Machine) : m.checkBreakpoint.trace = m.trace :=
  congrArg Work.trace (work_checkBreakpoint m)

/-- One turn of the driving loop: the requests are carried out, an instruction is executed, and the
breakpoints are looked at. The loop then goes on, since the return stack is still deep enough. -/
inductive Turn (depth : Option Nat) (m : Machine) : Machine → Prop where
  | intro {m' : Machine} : m.applyRequests.halted = false → m.applyRequests.paused = false →
      m.applyRequests.step = some (.ok (), m') →
      depth.any (m'.returns.length < ·) = false → Turn depth m m'.checkBreakpoint

/-- The ways in which the driving loop ends. -/
inductive Ends (depth : Option Nat) (m : Machine) : Outcome → Prop where
  | stopped : (m.applyRequests.halted || m.applyRequests.paused) = true →
      Ends depth m (.ok (), m.applyRequests)
  | failed {e : Fault} {m' : Machine} : m.applyRequests.halted = false →
      m.applyRequests.paused = false → m.applyRequests.step = some (.error e, m') →
      Ends depth m (.error e, m')
  | returned {m' : Machine} : m.applyRequests.halted = false → m.applyRequests.paused = false →
      m.applyRequests.step = some (.ok (), m') →
      depth.any (m'.returns.length < ·) = true →
      Ends depth m (.ok (), m'.checkBreakpoint)

/-- The places where the driving loop comes by when it starts from `m`. -/
abbrev Turns (depth : Option Nat) : Machine → Machine → Prop := Relation.ReflTransGen (Turn depth)

theorem drive_of_turn {depth : Option Nat} {m m' : Machine} (h : Turn depth m m') (fuel : Nat) :
    drive (fuel + 1) depth m = drive fuel depth m' := by
  obtain ⟨hh, hp, hs, hd⟩ := h
  rw [drive]
  simp [hh, hp, hs, hd]

theorem drive_of_ends {depth : Option Nat} {m : Machine} {o : Outcome} (h : Ends depth m o)
    (fuel : Nat) : drive (fuel + 1) depth m = some o := by
  rw [drive]
  cases h with
  | stopped hst => simp [hst]
  | failed hh hp hs => simp [hh, hp, hs]
  | returned hh hp hs hd => simp [hh, hp, hs, hd]

/-- The driving loop returns exactly if it comes to a place where it ends. -/
theorem drive_eq_some_iff {depth : Option Nat} {m : Machine} {o : Outcome} :
    (∃ fuel, drive fuel depth m = some o) ↔ ∃ h, Turns depth m h ∧ Ends depth h o := by
  constructor
  · rintro ⟨fuel, h⟩
    -- Each unit of fuel is one turn, or the place where the loop ends.
    induction fuel generalizing m with
    | zero => cases h
    | succ fuel ih =>
      rw [drive] at h
      dsimp only at h
      split at h
      · next hst =>
        cases h
        exact ⟨m, .refl, .stopped hst⟩
      · next hst =>
        obtain ⟨hh, hp⟩ : m.applyRequests.halted = false ∧ m.applyRequests.paused = false := by
          simpa using hst
        split at h
        · cases h
        · next e m' hs =>
          cases h
          exact ⟨m, .refl, .failed hh hp hs⟩
        · next m' hs =>
          split at h
          · next hd =>
            cases h
            exact ⟨m, .refl, .returned hh hp hs (by simpa using hd)⟩
          · next hd =>
            obtain ⟨l, hl, he⟩ := ih h
            exact ⟨l, .head ⟨hh, hp, hs, by simpa using hd⟩ hl, he⟩
  · rintro ⟨l, hl, he⟩
    -- From the end backwards: every turn before it asks for one more unit of fuel.
    induction hl using Relation.ReflTransGen.head_induction_on with
    | refl => exact ⟨1, drive_of_ends he 0⟩
    | head ht _ ih =>
      obtain ⟨fuel, hf⟩ := ih
      exact ⟨fuel + 1, by rw [drive_of_turn ht, hf]⟩

/-- How much fuel there is makes no difference to what the loop comes to. -/
theorem drive_unique {f g : Nat} {depth : Option Nat} {m : Machine} {o o' : Outcome}
    (h : drive f depth m = some o) (h' : drive g depth m = some o') : o = o' := by
  induction f generalizing g m with
  | zero => cases h
  | succ f ih =>
    cases g with
    | zero => cases h'
    | succ g =>
      rw [drive] at h h'
      dsimp only at h h'
      split at h
      · next hst =>
        rw [if_pos hst] at h'
        exact Option.some.inj (h.symm.trans h')
      · next hst =>
        rw [if_neg hst] at h'
        rcases hs : m.applyRequests.step with _ | ⟨_ | _, m'⟩
        · rw [hs] at h
          cases h
        · rw [hs] at h h'
          exact Option.some.inj (h.symm.trans h')
        · rw [hs] at h h'
          dsimp only at h h'
          split at h
          · next hd =>
            rw [if_pos hd] at h'
            exact Option.some.inj (h.symm.trans h')
          · next hd =>
            rw [if_neg hd] at h'
            exact ih h h'

theorem enterPaused_eq_ok {m p : Machine} (h : m.enterPaused = .ok p) :
    m.halted = true ∧ p = (m.reset.setHalted false).setPaused true ∨
      m.halted = false ∧ m.paused = true ∧ p = m := by
  unfold enterPaused at h
  split at h
  · next hh =>
    cases h
    exact .inl ⟨hh, rfl⟩
  · next hh =>
    split at h
    · next hp =>
      cases h
      exact .inr ⟨by simpa using hh, hp, rfl⟩
    · cases h

theorem halted_of_enterPaused {m p : Machine} (h : m.enterPaused = .ok p) : p.halted = false := by
  rcases enterPaused_eq_ok h with ⟨_, rfl⟩ | ⟨hh, _, rfl⟩
  · rfl
  · exact hh

theorem enterPaused_of_halted {m : Machine} (h : m.halted = true) :
    m.enterPaused = .ok ((m.reset.setHalted false).setPaused true) := by
  unfold enterPaused
  rw [if_pos h]

theorem enterPaused_of_paused {m : Machine} (hh : m.halted = false) (hp : m.paused = true) :
    m.enterPaused = .ok m := by
  unfold enterPaused
  rw [if_neg (by simp [hh]), if_pos hp]

/-- The ways in which a single step ends. -/
inductive SingleSteps (m : Machine) : Outcome → Prop where
  | refused {e : Fault} : m.applyRequests.enterPaused = .error e →
      SingleSteps m (.error e, m.applyRequests)
  | failed {p m' : Machine} {e : Fault} : m.applyRequests.enterPaused = .ok p →
      p.step = some (.error e, m') → SingleSteps m (.error e, m')
  | done {p m' : Machine} : m.applyRequests.enterPaused = .ok p → p.step = some (.ok (), m') →
      SingleSteps m (.ok (), m'.applyRequests)

theorem singleSteps_of_eq {m : Machine} {o : Outcome} (h : m.singleStep = some o) :
    SingleSteps m o := by
  unfold singleStep at h
  dsimp only at h
  split at h
  · next hp =>
    cases h
    exact .refused hp
  · next hp =>
    split at h
    · cases h
    · next hs =>
      cases h
      exact .failed hp hs
    · next hs =>
      cases h
      exact .done hp hs

/-- The ways in which stepping out of a function ends. -/
inductive StepsOut (fuel : Nat) (m : Machine) : Outcome → Prop where
  | refused {e : Fault} : m.applyRequests.enterPaused = .error e →
      StepsOut fuel m (.error e, m.applyRequests)
  | failed {p m' : Machine} {e : Fault} : m.applyRequests.enterPaused = .ok p →
      drive fuel (some p.returns.length) (p.setPaused false) = some (.error e, m') →
      StepsOut fuel m (.error e, m')
  | halted {p m' : Machine} : m.applyRequests.enterPaused = .ok p →
      drive fuel (some p.returns.length) (p.setPaused false) = some (.ok (), m') →
      m'.halted = true → StepsOut fuel m (.ok (), m')
  | done {p m' : Machine} : m.applyRequests.enterPaused = .ok p →
      drive fuel (some p.returns.length) (p.setPaused false) = some (.ok (), m') →
      m'.halted = false → StepsOut fuel m (.ok (), m'.setPaused true)

theorem stepsOut_of_eq {fuel : Nat} {m : Machine} {o : Outcome} (h : m.stepOut fuel = some o) :
    StepsOut fuel m o := by
  unfold stepOut at h
  dsimp only at h
  split at h
  · next hp =>
    cases h
    exact .refused hp
  · next hp =>
    split at h
    · cases h
    · next hd =>
      cases h
      exact .failed hp hd
    · next m' hd =>
      cases h
      rcases hh : m'.halted with _ | _
      · exact .done hp hd hh
      · exact .halted hp hd hh

theorem stepOut_of_drive {fuel : Nat} {m p : Machine} {o : Outcome}
    (hp : m.applyRequests.enterPaused = .ok p)
    (hd : drive fuel (some p.returns.length) (p.setPaused false) = some o) :
    ∃ o', m.stepOut fuel = some o' := by
  obtain ⟨e | _, l⟩ := o
  · exact ⟨(.error e, l), by simp only [stepOut, hp, hd]⟩
  · exact ⟨(.ok (), if l.halted then l else l.setPaused true), by simp only [stepOut, hp, hd]⟩

theorem announced_applyRequests (m : Machine) :
    m.observers.announced <:+ m.applyRequests.observers.announced := by
  have hstop : m.observers.announced <:+ m.obeyStop.observers.announced := by
    unfold obeyStop
    split
    · exact List.suffix_cons _ _
    · exact List.suffix_refl _
  have hpause : m.obeyStop.observers.announced <:+ m.obeyStop.obeyPause.observers.announced := by
    unfold obeyPause
    split
    · exact List.suffix_cons _ _
    · exact List.suffix_refl _
  exact hstop.trans hpause

theorem announced_step {m m' : Machine} {r : Except Fault Unit} (h : m.step = some (r, m')) :
    m.observers.announced <:+ m'.observers.announced := by
  obtain ⟨_, _, _, _, ho | ho⟩ := step_keeps h
  · exact ho ▸ List.suffix_refl _
  · rw [ho]
    exact List.suffix_cons _ _

/-- Looking at the breakpoints either changes nothing or pauses and tells the address. -/
theorem checkBreakpoint_cases (m : Machine) :
    m.checkBreakpoint = m ∨
      m.breakpoints.contains (m.counter.toNat + 1) = true ∧ m.halted = false ∧ m.paused = false ∧
        m.checkBreakpoint = (m.setPaused true).announce
          (.breakpointHit (m.counter.toNat + 1).toUInt64) := by
  unfold checkBreakpoint
  split
  · exact .inl rfl
  · next hrun =>
    dsimp only
    split
    · next hb =>
      simp only [Bool.or_eq_true, not_or, Bool.not_eq_true] at hrun
      exact .inr ⟨hb, hrun.1.1, hrun.1.2, rfl⟩
    · exact .inl rfl

theorem control_checkBreakpoint (m : Machine) : m.checkBreakpoint.control = m.control := by
  rcases checkBreakpoint_cases m with hc | ⟨_, _, _, hc⟩
  · rw [hc]
  · rw [hc]
    rfl

end Machine

end PixelMachine
