import PixelMachine.Proofs.History

/-! Between commands a machine is halted or paused, unless it was reset while it was not halted. -/
namespace PixelMachine

namespace Machine

/-- The machine is halted or paused, so that it does not go on by itself. -/
def Settled (m : Machine) : Prop := m.halted = true ∨ m.paused = true

theorem settled_build (d : Devices) (config : Config) : (build d config).Settled := .inl rfl

theorem settled_of_isNew {m : Machine} (h : m.IsNew) : m.Settled := by
  rcases h with ⟨d, rfl⟩ | ⟨d, config, hm⟩
  · exact settled_build d _
  · rw [eq_build_of_withConfig hm]
    exact settled_build d config

variable {m m' : Machine} {r : Except Fault Unit} {fuel : Nat}

theorem Settled.applyRequests (h : m.Settled) : m.applyRequests.Settled := by
  rcases h with hh | hp
  · left
    rw [applyRequests_halted, hh, Bool.true_or]
  · right
    rw [applyRequests_paused, hp, Bool.true_or]

/-- A step leaves the paused flag alone, and it may halt but not start the machine. -/
theorem Settled.step (h : m.Settled) (hs : m.step = some (r, m')) : m'.Settled := by
  rcases h with hh | hp
  · rw [Machine.step, if_pos hh] at hs
    cases hs
    exact .inl hh
  · obtain ⟨_, _, hpaused, _⟩ := step_keeps hs
    exact .inr (hpaused.trans hp)

/-- Only a machine that is neither halted nor paused cannot be stepped. -/
theorem enterPaused_eq_error {e : Fault} (h : m.enterPaused = .error e) :
    ¬ m.Settled ∧ e = .invalidControlState .stepRunning := by
  unfold enterPaused at h
  split at h
  · cases h
  · next hh =>
    split at h
    · cases h
    · next hp =>
      cases h
      refine ⟨?_, rfl⟩
      rintro (hhalted | hpaused)
      · exact hh hhalted
      · exact hp hpaused

theorem not_settled_of_refused {e : Fault} (h : m.applyRequests.enterPaused = .error e) :
    ¬ m.Settled ∧ e = .invalidControlState .stepRunning := by
  obtain ⟨hrunning, he⟩ := enterPaused_eq_error h
  exact ⟨fun hm => hrunning hm.applyRequests, he⟩

/-- A single step settles the machine unless it is refused. -/
theorem settled_of_singleStep (h : m.singleStep = some (r, m')) :
    m'.Settled ∨ r = .error (.invalidControlState .stepRunning) ∧ ¬ m.Settled := by
  cases singleSteps_of_eq h with
  | refused hp =>
    obtain ⟨hrunning, rfl⟩ := not_settled_of_refused hp
    exact .inr ⟨rfl, hrunning⟩
  | failed hp | done hp => exact .inl (halted_or_paused_of_singleStep hp h)

/-- So does stepping out of a function. -/
theorem settled_of_stepOut (h : m.stepOut fuel = some (r, m')) :
    m'.Settled ∨ r = .error (.invalidControlState .stepRunning) ∧ ¬ m.Settled := by
  cases stepsOut_of_eq h with
  | refused hp =>
    obtain ⟨hrunning, rfl⟩ := not_settled_of_refused hp
    exact .inr ⟨rfl, hrunning⟩
  | failed hp | halted hp | done hp => exact .inl (halted_or_paused_of_stepOut hp h)

/-- Commands that settle a machine whatever its flags were, with what their results have to be. -/
inductive Settles : Command → Except Fault Unit → Prop where
  | load (program : Program) (r : Except Fault Unit) : Settles (.load program) r
  | run (r : Except Fault Unit) : Settles .run r
  | pause (r : Except Fault Unit) : Settles .pause r
  | stop (r : Except Fault Unit) : Settles .stop r
  /-- It refuses none but a halted machine. -/
  | resume (r : Except Fault Unit) : Settles .resume r
  | stepOut {r : Except Fault Unit} : (∀ why, r ≠ .error (.invalidControlState why)) → Settles .stepOut r

theorem Settles.settled {c : Command} (hc : Settles c r) (h : m.execute fuel c = some (r, m')) :
    m'.Settled := by
  cases hc with
  | load program =>
    -- It stops the machine before it resets it, and a reset leaves the halted flag alone.
    cases h
    exact .inl rfl
  | run =>
    have hresume : (m.reset.setHalted false).resume fuel = some (r, m') := h
    exact halted_or_paused_of_resume hresume
  | pause =>
    cases h
    exact .inr rfl
  | stop =>
    cases h
    exact .inl rfl
  | resume => exact halted_or_paused_of_resume h
  | stepOut hvalid =>
    rcases settled_of_stepOut h with hm | ⟨hrefused, _⟩
    · exact hm
    · exact absurd hrefused (hvalid _)

/-- A machine that is halted or paused stays so under every command, except for a reset of one that is
only paused. -/
theorem Settled.execute {c : Command} (hm : m.Settled) (hc : c = .reset → m.halted = true)
    (h : m.execute fuel c = some (r, m')) : m'.Settled := by
  cases c with
  | load program => exact (Settles.load program r).settled h
  | run => exact (Settles.run r).settled h
  | resume => exact halted_or_paused_of_resume h
  | pause => exact (Settles.pause r).settled h
  | stop => exact (Settles.stop r).settled h
  | reset =>
    cases h
    exact .inl (hc rfl)
  | step => exact hm.step h
  | singleStep =>
    rcases settled_of_singleStep h with hm' | ⟨_, hrunning⟩
    · exact hm'
    · exact absurd hm hrunning
  | stepOut =>
    rcases settled_of_stepOut h with hm' | ⟨_, hrunning⟩
    · exact hm'
    · exact absurd hm hrunning
  | addBreakpoint | removeBreakpoint | clearBreakpoints | subscribe | hangUp | request =>
    cases h
    exact hm
  | setWidth width =>
    simp only [Machine.execute, setWidth] at h
    split at h <;> cases h <;> exact hm
  | setHeight height =>
    simp only [Machine.execute, setHeight] at h
    split at h <;> cases h <;> exact hm

/-- An error of the driving loop comes from an instruction, which halted the machine. -/
theorem halted_of_drive_error {depth : Option Nat} {e : Fault}
    (h : drive fuel depth m = some (.error e, m')) : m'.halted = true := by
  obtain ⟨l, _, hend⟩ := drive_eq_some_iff.mp ⟨fuel, h⟩
  cases hend with
  | failed _ _ hs => exact halted_of_step_error hs

/-- Whatever goes wrong while a machine executes instructions halts it. -/
theorem halted_of_error {c : Command} {e : Fault}
    (hc : c = .run ∨ c = .resume ∨ c = .singleStep ∨ c = .stepOut)
    (h : m.execute fuel c = some (.error e, m')) (he : ∀ why, e ≠ .invalidControlState why) :
    m'.halted = true := by
  rcases hc with rfl | rfl | rfl | rfl
  · exact halted_of_drive_error ((run_eq_drive fuel m).symm.trans h)
  · have hresume : m.resume fuel = some (.error e, m') := h
    rcases hh : m.halted with _ | _
    · rw [resume_of_running hh] at hresume
      exact halted_of_drive_error hresume
    · unfold resume at hresume
      rw [if_pos hh] at hresume
      cases hresume
      exact hh
  · cases singleSteps_of_eq h with
    | refused hp => exact absurd (not_settled_of_refused hp).2 (he _)
    | failed _ hs => exact halted_of_step_error hs
  · cases stepsOut_of_eq h with
    | refused hp => exact absurd (not_settled_of_refused hp).2 (he _)
    | failed _ hd => exact halted_of_drive_error hd

/-- The states that a new machine comes to between commands, as long as it is reset only while it is
halted. Others may plan their requests anew at any time. -/
inductive Tended : Machine → Prop where
  | start {m : Machine} : m.IsNew → Tended m
  | arrive {m : Machine} (arriving : List Requests) : Tended m →
      Tended { m with control := { m.control with arriving := arriving } }
  | command {m m' : Machine} {fuel : Nat} {c : Command} {r : Except Fault Unit} : Tended m →
      (c = .reset → m.halted = true) → m.execute fuel c = some (r, m') → Tended m'

theorem Tended.settled (h : Tended m) : m.Settled := by
  induction h with
  | start hnew => exact settled_of_isNew hnew
  | arrive _ _ ih => exact ih
  | command _ hreset he ih => exact ih.execute hreset he

/-- No machine is left running by accident. It is halted or paused at first and after every command
that returns; only a reset of a machine that is not halted leaves both flags clear. Some commands halt
or pause it from every state, and a command that executes instructions leaves it halted with every
error but that of a refusal. -/
theorem settled_unless_reset :
    (∀ m, IsNew m → m.Settled) ∧ (∀ m, Tended m → m.Settled) ∧
      ∀ (fuel : Nat) (m : Machine) (c : Command) (r : Except Fault Unit) (m' : Machine),
        m.execute fuel c = some (r, m') →
          (m.Settled → (m'.Settled ↔ ¬ (c = .reset ∧ m.halted = false))) ∧
          (Settles c r → m'.Settled) ∧
          (c = .run ∨ c = .resume ∨ c = .singleStep ∨ c = .stepOut → ∀ e, r = .error e →
            (∀ why, e ≠ .invalidControlState why) → m'.halted = true) := by
  refine ⟨fun _ => settled_of_isNew, fun _ => Tended.settled, ?_⟩
  intro fuel m c r m' h
  refine ⟨?_, fun hc => hc.settled h, ?_⟩
  · intro hm
    constructor
    · rintro hm' ⟨rfl, hh⟩
      cases h
      rcases hm' with hhalted | hpaused
      · exact absurd (hh.symm.trans hhalted) Bool.false_ne_true
      · cases hpaused
    · intro hnot
      apply hm.execute _ h
      rintro rfl
      rcases hh : m.halted with _ | _
      · exact absurd ⟨rfl, hh⟩ hnot
      · rfl
  · rintro hc e rfl he
    exact halted_of_error hc h he

theorem settled_after_fault :
    ∃ m running failed, Tended m ∧ m.Settled ∧ m.halted = false ∧
      m.execute 0 .reset = some (.ok (), running) ∧ ¬ running.Settled ∧
      m.execute 0 .singleStep = some (.error (.counterOutOfBounds 1 0), failed) ∧
      failed.halted = true := by
  obtain ⟨_, htended, hcommands⟩ := settled_unless_reset
  have hloaded : Tended ((new .headless).load ⟨#[⟨.nop, none⟩], .empty⟩) :=
    @Tended.command _ _ 0 (.load _) _ (.start (.inl ⟨_, rfl⟩)) nofun rfl
  -- The second single step finds no instruction.
  have hsteps : ∃ m failed,
      ((new .headless).load ⟨#[⟨.nop, none⟩], .empty⟩).execute 0 .singleStep = some (.ok (), m) ∧
        m.halted = false ∧
        m.execute 0 .singleStep = some (.error (.counterOutOfBounds 1 0), failed) :=
    ⟨_, _, rfl, rfl, rfl⟩
  obtain ⟨m, failed, hm, hh, hfailed⟩ := hsteps
  have hreach : Tended m := @Tended.command _ _ 0 .singleStep _ hloaded nofun hm
  have hsettled := htended m hreach
  have hreset : m.execute 0 .reset = some (.ok (), m.reset) := rfl
  refine ⟨m, m.reset, failed, hreach, hsettled, hh, hreset, ?_, hfailed, ?_⟩
  · intro hrunning
    exact ((hcommands _ _ _ _ _ hreset).1 hsettled).mp hrunning ⟨rfl, hh⟩
  · exact (hcommands _ _ _ _ _ hfailed).2.2 (.inr (.inr (.inl rfl))) _ rfl nofun

end Machine

end PixelMachine
