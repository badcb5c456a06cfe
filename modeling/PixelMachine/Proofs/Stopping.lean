import PixelMachine.Proofs.Reachable

/-! When a machine that was driven until it halted is left paused as well: exactly when a stop is
carried out at the place where a breakpoint was hit. -/
namespace PixelMachine

/-- The last that was announced is that a breakpoint was hit. -/
def Event.HitLast (announced : List Event) : Prop :=
  ∃ address older, announced = .breakpointHit address :: .pausedChanged true :: older

namespace Machine

/-- The last that was announced is a halt right after a breakpoint was hit. -/
def StoppedAtBreakpoint (m : Machine) : Prop :=
  ∃ older, m.observers.announced = .haltedChanged true :: older ∧ Event.HitLast older

/-- How a machine stands between two instructions of the driving loop: it runs, it has just hit a
breakpoint, or its last instruction halted it. -/
inductive Stands (m : Machine) : Prop where
  | running : m.halted = false → m.paused = false → ¬ Event.HitLast m.observers.announced → Stands m
  | hit : m.halted = false → m.paused = true → Event.HitLast m.observers.announced → Stands m
  | halted {older : List Event} : m.halted = true → m.paused = false →
      m.observers.announced = .haltedChanged true :: older → ¬ Event.HitLast older → Stands m

/-- What an instruction does to the flags, and what is heard of it. -/
theorem step_flags {m m' : Machine} {r : Except Fault Unit} (hh : m.halted = false)
    (h : m.step = some (r, m')) :
    m'.paused = m.paused ∧
      (m'.halted = false ∧ m'.observers = m.observers ∨
        m'.halted = true ∧ m'.observers = m.observers.announce (.haltedChanged true)) := by
  cases step_eq_some_iff.mp h with
  | halted hh' =>
    rw [hh] at hh'
    cases hh'
  | misplaced | failed => exact ⟨rfl, .inr ⟨rfl, rfl⟩⟩
  | done _ _ _ hm =>
    obtain ⟨_, _, hpaused, _, _, ⟨hhalted, hheard⟩ | ⟨_, hhalted, hheard⟩⟩ := perform_keeps hm
    · exact ⟨hpaused, .inl ⟨hhalted.trans hh, hheard⟩⟩
    · exact ⟨hpaused, .inr ⟨hhalted, hheard⟩⟩

/-- Where a look at the requests leaves the machine running, nothing was heard of it. -/
theorem applyRequests_of_running {m : Machine} (hh : m.applyRequests.halted = false)
    (hp : m.applyRequests.paused = false) :
    m.halted = false ∧ m.paused = false ∧ m.applyRequests.observers = m.observers := by
  rcases hs : m.control.sync.pending.stop with _ | _
  · rcases applyRequests_of_no_stop hs with ha | ⟨ha, _⟩
    · rw [ha] at hh hp ⊢
      exact ⟨hh, hp, rfl⟩
    · rw [ha] at hp
      cases hp
  · rw [applyRequests_of_stop hs] at hh
    cases hh

theorem Stands.not_hitLast {m : Machine} (hm : Stands m) (hh : m.halted = false)
    (hp : m.paused = false) : ¬ Event.HitLast m.observers.announced := by
  cases hm with
  | running _ _ hnot => exact hnot
  | hit _ hpaused _ =>
    rw [hp] at hpaused
    cases hpaused
  | halted hhalted _ _ _ =>
    rw [hh] at hhalted
    cases hhalted

theorem Stands.step {b l : Machine} {r : Except Fault Unit} (hb : Stands b)
    (hh : b.applyRequests.halted = false) (hp : b.applyRequests.paused = false)
    (hs : b.applyRequests.step = some (r, l)) : Stands l := by
  obtain ⟨hbh, hbp, hheard⟩ := applyRequests_of_running hh hp
  have hnot := hb.not_hitLast hbh hbp
  rw [← hheard] at hnot
  obtain ⟨hlp, ⟨hlh, hlo⟩ | ⟨hlh, hlo⟩⟩ := step_flags hh hs
  · refine .running hlh (hlp.trans hp) ?_
    rw [hlo]
    exact hnot
  · refine .halted hlh (hlp.trans hp) ?_ hnot
    rw [hlo]
    rfl

theorem Stands.checkBreakpoint {l : Machine} (hl : Stands l) : Stands l.checkBreakpoint := by
  rcases checkBreakpoint_cases l with hc | ⟨_, hh, _, hc⟩
  · rw [hc]
    exact hl
  · rw [hc]
    exact .hit hh rfl ⟨_, _, rfl⟩

theorem Stands.turns {depth : Option Nat} {m b : Machine} (hm : Stands m) (ht : Turns depth m b) :
    Stands b := by
  induction ht with
  | refl => exact hm
  | tail _ ht ih =>
    obtain ⟨hh, hp, hs, _⟩ := ht
    exact (ih.step hh hp hs).checkBreakpoint

theorem Stands.paused_iff {m : Machine} (hm : Stands m) (hh : m.halted = true) :
    m.paused = true ↔ m.StoppedAtBreakpoint := by
  cases hm with
  | running hrunning | hit hrunning =>
    rw [hh] at hrunning
    cases hrunning
  | @halted before _ hp hheard hnot =>
    constructor
    · intro hpaused
      rw [hp] at hpaused
      cases hpaused
    · rintro ⟨older, holder, hhit⟩
      rw [hheard, List.cons.injEq] at holder
      rw [← holder.2] at hhit
      exact absurd hhit hnot

/-- A stop that is carried out between two instructions. -/
theorem Stands.stopped_iff {b : Machine} (hb : Stands b) (hh : b.applyRequests.halted = true) :
    b.applyRequests.paused = true ↔ b.applyRequests.StoppedAtBreakpoint := by
  rcases hs : b.control.sync.pending.stop with _ | _
  · -- Without a stop the machine was halted before.
    have hhalted : b.halted = true := by
      rw [applyRequests_halted, hs, Bool.or_false] at hh
      exact hh
    rcases applyRequests_of_no_stop hs with ha | ⟨_, hrunning⟩
    · rw [ha]
      exact hb.paused_iff hhalted
    · rw [hhalted] at hrunning
      cases hrunning
  · rw [applyRequests_of_stop hs]
    change b.paused = true ↔ ∃ older, .haltedChanged true :: b.observers.announced =
      .haltedChanged true :: older ∧ Event.HitLast older
    have hlast : (∃ older, Event.haltedChanged true :: b.observers.announced =
        .haltedChanged true :: older ∧ Event.HitLast older) ↔ Event.HitLast b.observers.announced := by
      simp
    rw [hlast]
    cases hb with
    | running _ hp hnot => simp [hp, hnot]
    | hit _ hp hhit => simp [hp, hhit]
    | halted _ hp hheard _ =>
      rw [hheard]
      simp [hp, Event.HitLast]

theorem drive_paused_iff {fuel : Nat} {depth : Option Nat} {m m' : Machine} {r : Except Fault Unit}
    (hm : Stands m) (hd : drive fuel depth m = some (r, m')) (hh : m'.halted = true) :
    m'.paused = true ↔ m'.StoppedAtBreakpoint := by
  obtain ⟨b, hb, he⟩ := drive_eq_some_iff.mp ⟨fuel, hd⟩
  have hstands := hm.turns hb
  cases he with
  | stopped _ => exact hstands.stopped_iff hh
  | failed hrun hp hs => exact (hstands.step hrun hp hs).paused_iff hh
  | returned hrun hp hs _ => exact (hstands.step hrun hp hs).checkBreakpoint.paused_iff hh

/-- A machine that has just been made to run. -/
theorem stands_setPaused {m : Machine} (hh : m.halted = false) : Stands (m.setPaused false) := by
  refine .running hh rfl ?_
  rintro ⟨address, older, h⟩
  cases h

/-- When a machine that was driven until it halted is paused as well: exactly when a stop was carried
out right after a breakpoint was hit. In all other cases it is not. -/
theorem halted_and_paused_iff {fuel : Nat} {m m' : Machine} {c : Command} {r : Except Fault Unit}
    (hc : c = .run ∨ c = .stepOut ∨ c = .resume ∧ m.halted = false)
    (h : m.execute fuel c = some (r, m')) (hh : m'.halted = true) :
    m'.paused = true ↔ m'.StoppedAtBreakpoint := by
  rcases hc with rfl | rfl | ⟨rfl, hrunning⟩
  · have hdrive : drive fuel none (m.reset.setHalted false).resumed = some (r, m') :=
      (resume_of_running rfl fuel).symm.trans h
    exact drive_paused_iff (stands_setPaused rfl) hdrive hh
  · cases stepsOut_of_eq h with
    | refused he =>
      -- Only a running machine cannot be stepped.
      rw [enterPaused_of_halted hh] at he
      cases he
    | failed hp hd | halted hp hd _ =>
      exact drive_paused_iff (stands_setPaused (halted_of_enterPaused hp)) hd hh
    | done _ _ hrun =>
      cases hrun.symm.trans hh
  · have hdrive : drive fuel none m.resumed = some (r, m') :=
      (resume_of_running hrunning fuel).symm.trans h
    have hstart : Stands m.resumed := stands_setPaused hrunning
    exact drive_paused_iff hstart hdrive hh

/-- A machine that is asked to stop by the text it prints, right before a breakpoint. -/
def stoppedPrinting : Machine :=
  { build .headless {} with
    program := ⟨#[⟨.push, some (.number 1.0)⟩, ⟨.print, none⟩, ⟨.nop, none⟩, ⟨.halt, none⟩], .empty⟩
    log := { triggers := [("1\n", { stop := true })] }
    breakpoints := IndexSet.empty.insert 3 }

theorem stoppedPrinting_halted_and_paused :
    ∃ m', stoppedPrinting.execute 4 .run = some (.ok (), m') ∧ m'.halted = true ∧
      m'.paused = true :=
  ⟨_, rfl, rfl, rfl⟩

theorem stoppedPrinting_stopped_at_breakpoint :
    ∃ m', stoppedPrinting.execute 4 .run = some (.ok (), m') ∧ m'.halted = true ∧
      m'.StoppedAtBreakpoint := by
  have hrun : ∃ m', stoppedPrinting.execute 4 .run = some (.ok (), m') ∧ m'.halted = true ∧
      m'.paused = true := ⟨_, rfl, rfl, rfl⟩
  obtain ⟨m', h, hh, hp⟩ := hrun
  exact ⟨m', h, hh, (halted_and_paused_iff (.inl rfl) h hh).mp hp⟩

end Machine

end PixelMachine
