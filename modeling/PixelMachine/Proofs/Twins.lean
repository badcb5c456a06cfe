import PixelMachine.Proofs.Following
import PixelMachine.Proofs.Pausing
import PixelMachine.Proofs.Replay

/-! Two machines that differ only in their breakpoints, in who listens and in their luck. While nobody
asks for anything they compute the same: the one with breakpoints pauses on the way and is resumed. -/
namespace PixelMachine

/-- Looking for requests plans none. -/
theorem Control.seesAny_arriving_subset (c : Control) : c.seesAny.2.arriving ⊆ c.arriving := by
  have hsync := c.sync_arriving_subset
  unfold seesAny seesPause seesStop
  rcases c.sync.pending.pause with _ | _
  · exact List.Subset.trans c.sync.sync_arriving_subset hsync
  · exact hsync

namespace Machine

theorem arriving_awaitKeyWithin {fuel : Nat} {m m' : Machine} (h : awaitKeyWithin fuel m = some m') :
    m'.control.arriving ⊆ m.control.arriving := by
  induction fuel generalizing m with
  | zero => cases h
  | succ fuel ih =>
    have hseen : m.polled.control.seesAny.2.arriving ⊆ m.control.arriving :=
      m.polled.control.seesAny_arriving_subset
    rw [awaitKeyWithin_succ] at h
    split at h
    · cases h
      exact List.Subset.refl _
    · split at h
      · cases h
        exact List.Subset.refl _
      · split at h
        · cases h
          exact hseen
        · exact List.Subset.trans (ih h) hseen

theorem arriving_say (m : Machine) (texts : List String) :
    (m.say texts).control.arriving = m.control.arriving := by
  induction texts generalizing m with
  | nil => rfl
  | cons t texts ih =>
    exact ih { m with log := m.log.append t, control := m.control.request (m.log.requestsOf t) }

/-- A step plans no requests. -/
theorem arriving_step {m m' : Machine} {r : Except Fault Unit} (h : m.step = some (r, m')) :
    m'.control.arriving ⊆ m.control.arriving := by
  cases step_eq_some_iff.mp h with
  | halted | misplaced | failed => exact List.Subset.refl _
  | @done index i effect stack b _ _ _ hm =>
    change b.control.arriving ⊆ (m.begun index i stack).control.arriving
    cases effect with
    | next | jump | call | ret | halt | store | paint | roll =>
      cases hm
      exact List.Subset.refl _
    | print texts =>
      cases hm
      rw [← arriving_say (m.begun index i stack) texts]
      exact List.Subset.refl _
    | awaitKey => exact arriving_awaitKeyWithin hm

/-- Nobody has asked for anything, and nobody ever will. -/
structure Silent (m : Machine) : Prop where
  quiet : m.Meets (· = {})
  unplanned : m.control.arriving = []

theorem Silent.control_eq {m : Machine} (h : m.Silent) : m.control = {} := by
  obtain ⟨hpending, _⟩ := h.quiet.control
  have harriving := h.unplanned
  rcases hc : m.control with ⟨pending, arriving⟩
  simp only [hc] at hpending harriving
  rw [hpending, harriving]

theorem Silent.step {m m' : Machine} {r : Except Fault Unit} (h : m.Silent)
    (hs : m.step = some (r, m')) : m'.Silent where
  quiet := h.quiet.step Requests.closed_empty hs
  unplanned := by
    have hsubset := arriving_step hs
    rw [h.unplanned] at hsubset
    exact List.subset_nil.mp hsubset

/-- Where nobody asks for anything there is nothing to carry out. -/
theorem applyRequests_of_empty {m : Machine} (h : m.control = {}) : m.applyRequests = m := by
  cases m
  cases h
  rfl

theorem resumed_of_empty {m : Machine} (h : m.control = {}) : m.resumed = m.setPaused false := by
  cases m
  cases h
  rfl

/-- The machine with other breakpoints, other observers and another random source. -/
def twin (m : Machine) (breakpoints : IndexSet) (heard : Observers) (luck : Generator) : Machine :=
  { m with breakpoints := breakpoints, observers := heard, random := luck }

section Twin

variable (breakpoints : IndexSet) (heard : Observers) (luck : Generator)

/-- Only `irnd` looks at the random source when it is planned. -/
theorem plan_twin (m : Machine) (index : Nat) {i : Instruction}
    (hl : luck = m.random ∨ i.opcode ≠ .irnd) :
    plan (m.twin breakpoints heard luck) index i = plan m index i := by
  rcases hl with rfl | hop
  · exact plan_congr rfl rfl rfl rfl rfl rfl index i
  · obtain ⟨op, operand⟩ := i
    cases op with
    | irnd => exact absurd rfl hop
    | push => cases operand <;> rfl
    | _ => rfl

/-- The random source after an effect. -/
def rolled : Effect → Generator → Generator
  | .roll random, _ => random
  | _, luck => luck

theorem aside_twin : Aside (·.twin breakpoints heard luck) where
  flags _ := ⟨rfl, rfl⟩
  input _ := ⟨rfl, rfl⟩
  keyboard _ _ := rfl
  control _ _ := rfl
  takes _ _ := rfl

theorem perform_twin (m : Machine) (effect : Effect) :
    (m.twin breakpoints heard luck).perform effect = (m.perform effect).map
      (·.twin breakpoints ((news effect).foldl Observers.announce heard) (rolled effect luck)) := by
  cases effect with
  | next | jump | call | ret | halt | store | paint | roll => rfl
  | print texts =>
    simp only [perform, say_eq, Option.map_some]
    rfl
  | awaitKey => exact (aside_twin breakpoints heard luck).awaitKeyWithin _ m

theorem random_perform {m m' : Machine} {effect : Effect} (h : m.perform effect = some m') :
    m'.random = rolled effect m.random := by
  cases effect with
  | next | jump | call | ret | halt | store | paint | roll =>
    cases h
    rfl
  | print texts =>
    cases h
    rw [say_eq]
    rfl
  | awaitKey =>
    cases awaited_of_awaitKeyWithin h with
    | key | interrupted => rfl

/-- A twin makes the same step, unless a different luck shows in it. -/
theorem step_twin {m m' : Machine} {r : Except Fault Unit} (h : m.step = some (r, m'))
    (hl : luck = m.random ∨ ¬ m.IsAt .irnd) :
    ∃ heard' luck', (m.twin breakpoints heard luck).step =
        some (r, m'.twin breakpoints heard' luck') ∧ (luck = m.random → luck' = m'.random) := by
  have hlook {index : Nat} {i : Instruction} (hc : m.current = .ok (index, i)) :
      luck = m.random ∨ i.opcode ≠ .irnd :=
    hl.imp id fun hnot hop => hnot ((isAt_iff hc).mpr hop)
  cases step_eq_some_iff.mp h with
  | halted hh => exact ⟨heard, luck, step_eq_some_iff.mpr (.halted hh), id⟩
  | misplaced hh hc => exact ⟨_, luck, step_eq_some_iff.mpr (.misplaced hh hc), id⟩
  | @failed index i e stack hh hc hp =>
    rw [← plan_twin breakpoints heard luck m index (hlook hc)] at hp
    exact ⟨_, luck, step_eq_some_iff.mpr (.failed hh hc hp), id⟩
  | @done index i effect stack b hh hc hp hm =>
    rw [← plan_twin breakpoints heard luck m index (hlook hc)] at hp
    have hperform := perform_twin breakpoints heard luck (m.begun index i stack) effect
    rw [hm, Option.map_some] at hperform
    have hdone : Steps (m.twin breakpoints heard luck)
        (.ok (), Machine.measured (b.twin breakpoints _ (rolled effect luck))) :=
      .done hh hc hp hperform
    refine ⟨_, _, step_eq_some_iff.mpr hdone, ?_⟩
    rintro rfl
    exact (random_perform hm).symm

theorem started_twin (m : Machine) :
    ∃ heard', (m.twin breakpoints heard luck).started = m.started.twin breakpoints heard' luck :=
  ⟨_, rfl⟩

/-- Of a pause nothing is left once it is over, but that it was announced. -/
theorem setPaused_of_break {m : Machine} (h : m.paused = false) (e : Event) :
    ∃ heard', (((m.twin breakpoints heard luck).setPaused true).announce e).setPaused false =
      m.twin breakpoints heard' luck := by
  cases m
  cases h
  exact ⟨_, rfl⟩

end Twin

/-- More fuel makes no difference to a loop that returns. -/
theorem drive_of_le {f g : Nat} {depth : Option Nat} {m : Machine} {o : Outcome}
    (h : drive f depth m = some o) (hle : f ≤ g) : drive g depth m = some o := by
  induction f generalizing g m with
  | zero => cases h
  | succ f ih =>
    obtain ⟨g, rfl⟩ : ∃ k, g = k + 1 := ⟨g - 1, by omega⟩
    rcases drive_cases h with hends | ⟨l, hturn, hrest⟩
    · exact drive_of_ends hends g
    · rw [drive_of_turn hturn]
      exact ih hrest (by omega)

/-- Driving the machine, from where it stands, executes no `irnd`. -/
def NeverRolls (m : Machine) : Prop :=
  ∀ b, Turns none m b → b.applyRequests.halted = false → b.applyRequests.paused = false →
    ¬ b.applyRequests.IsAt .irnd

/-- Nothing outside can make the machine pause. -/
structure Alone (m : Machine) : Prop where
  silent : m.Silent
  free : m.breakpoints = .empty
  running : m.paused = false

theorem Alone.step {m m' : Machine} {r : Except Fault Unit} (h : m.Alone)
    (hs : m.step = some (r, m')) : m'.Alone := by
  obtain ⟨_, _, hpaused, hbreak, _⟩ := step_keeps hs
  exact ⟨h.silent.step hs, hbreak.trans h.free, hpaused.trans h.running⟩

theorem Alone.applyRequests {m : Machine} (h : m.Alone) : m.applyRequests = m :=
  applyRequests_of_empty h.silent.control_eq

/-- Its twins are not asked for anything either. -/
theorem Alone.applyRequests_twin {m : Machine} (h : m.Alone) (breakpoints : IndexSet)
    (heard : Observers) (luck : Generator) :
    (m.twin breakpoints heard luck).applyRequests = m.twin breakpoints heard luck :=
  applyRequests_of_empty h.silent.control_eq

/-- A turn of such a machine is a step and nothing else. -/
theorem Alone.step_of_turn {m m' : Machine} (h : m.Alone) (ht : Turn none m m') :
    m.halted = false ∧ m.step = some (.ok (), m') := by
  obtain ⟨hh, _, hs, _⟩ := ht
  rw [h.applyRequests] at hh hs
  rw [checkBreakpoint_of_free (h.step hs).free]
  exact ⟨hh, hs⟩

theorem NeverRolls.not_isAt {m : Machine} (h : m.NeverRolls) (halone : m.Alone)
    (hh : m.halted = false) : ¬ m.IsAt .irnd := by
  have hhere := h m .refl
  rw [halone.applyRequests] at hhere
  exact hhere hh halone.running

/-- What comes of a machine that is driven and then resumed at each pause: the machines at the pauses,
and how it ends. The fuel is for each part of the way. -/
inductive ResumedTo (fuel : Nat) : Machine → List Machine → Outcome → Prop where
  | ended {m l : Machine} {r : Except Fault Unit} : drive fuel none m = some (r, l) →
      l.halted = true → ResumedTo fuel m [] (r, l)
  | paused {m p : Machine} {pauses : List Machine} {o : Outcome} :
      drive fuel none m = some (.ok (), p) → p.paused = true → p.halted = false →
      ResumedTo fuel p.resumed pauses o → ResumedTo fuel m (p :: pauses) o

theorem ResumedTo.halted {fuel : Nat} {m : Machine} {pauses : List Machine} {o : Outcome}
    (h : ResumedTo fuel m pauses o) : o.2.halted = true := by
  induction h with
  | ended _ hh => exact hh
  | paused _ _ _ _ ih => exact ih

theorem ResumedTo.of_le {f g : Nat} {m : Machine} {pauses : List Machine} {o : Outcome}
    (h : ResumedTo f m pauses o) (hle : f ≤ g) : ResumedTo g m pauses o := by
  induction h with
  | ended hd hh => exact .ended (drive_of_le hd hle) hh
  | paused hd hp hh _ ih => exact .paused (drive_of_le hd hle) hp hh ih

theorem ResumedTo.of_turn {fuel : Nat} {m m' : Machine} {pauses : List Machine} {o : Outcome}
    (ht : Turn none m m') (h : ResumedTo fuel m' pauses o) : ResumedTo (fuel + 1) m pauses o := by
  -- The turn is part of the first stretch; the others have more fuel than they need.
  cases h with
  | ended hd hh => exact .ended ((drive_of_turn ht fuel).trans hd) hh
  | paused hd hp hh hrest =>
    exact .paused ((drive_of_turn ht fuel).trans hd) hp hh (hrest.of_le (Nat.le_succ fuel))

/-- A pause that is made in a turn is over as soon as the machine is resumed. -/
theorem ResumedTo.of_pause {fuel : Nat} {m p : Machine} {pauses : List Machine} {o : Outcome}
    (ht : Turn none m p) (hcontrol : p.control = {}) (hp : p.paused = true) (hh : p.halted = false)
    (hfuel : 0 < fuel) (hrest : ResumedTo fuel (p.setPaused false) pauses o) :
    ResumedTo (fuel + 1) m (p :: pauses) o := by
  obtain ⟨k, rfl⟩ : ∃ k, fuel = k + 1 := ⟨fuel - 1, by omega⟩
  have hends : Ends none p (.ok (), p.applyRequests) := by
    refine .stopped ?_
    rw [applyRequests_of_empty hcontrol, hp, Bool.or_true]
  have hdrive : drive (k + 1 + 1) none m = some (.ok (), p.applyRequests) :=
    (drive_of_turn ht (k + 1)).trans (drive_of_ends hends k)
  rw [applyRequests_of_empty hcontrol] at hdrive
  rw [← resumed_of_empty hcontrol] at hrest
  exact .paused hdrive hp hh (hrest.of_le (Nat.le_succ _))

/-- Where a machine that is alone ends, its twin ends. -/
theorem ends_twin {m : Machine} {o : Outcome} (he : Ends none m o) (hm : m.Alone)
    (breakpoints : IndexSet) (heard : Observers) (luck : Generator)
    (hl : luck = m.random ∨ m.NeverRolls) :
    o.2.halted = true ∧ ∃ heard' luck', Ends none (m.twin breakpoints heard luck)
      (o.1, o.2.twin breakpoints heard' luck') := by
  have happlied := hm.applyRequests
  have htwin := hm.applyRequests_twin breakpoints heard luck
  cases he with
  | stopped hst =>
    rw [happlied, hm.running, Bool.or_false] at hst
    rw [happlied]
    have hends := @Ends.stopped none (m.twin breakpoints heard luck)
    rw [htwin] at hends
    exact ⟨hst, heard, luck, hends (Bool.or_eq_true_iff.mpr (.inl hst))⟩
  | failed hh hp hs =>
    rw [happlied] at hh hp hs
    obtain ⟨heard', luck', hstep, _⟩ := step_twin breakpoints heard luck hs
      (hl.imp id fun hnever => hnever.not_isAt hm hh)
    rw [← htwin] at hstep
    have hends : Ends none (m.twin breakpoints heard luck) _ :=
      .failed (by rw [htwin]; exact hh) (by rw [htwin]; exact hp) hstep
    exact ⟨halted_of_step_error hs, heard', luck', hends⟩
  | returned _ _ _ hd => cases hd

/-- Where a machine that is alone takes a turn, its twin takes one; then its breakpoints may show. -/
theorem turn_twin {m c : Machine} (ht : Turn none m c) (hm : m.Alone) (breakpoints : IndexSet)
    (heard : Observers) (luck : Generator) (hl : luck = m.random ∨ m.NeverRolls) :
    ∃ heard' luck', (luck' = c.random ∨ c.NeverRolls) ∧
      Turn none (m.twin breakpoints heard luck) (c.twin breakpoints heard' luck').checkBreakpoint := by
  obtain ⟨hh, hs⟩ := hm.step_of_turn ht
  obtain ⟨heard', luck', hstep, hsame⟩ := step_twin breakpoints heard luck hs
    (hl.imp id fun hnever => hnever.not_isAt hm hh)
  have htwin := hm.applyRequests_twin breakpoints heard luck
  rw [← htwin] at hstep
  have hturn : Turn none (m.twin breakpoints heard luck) _ :=
    .intro (by rw [htwin]; exact hh) (by rw [htwin]; exact hm.running) hstep rfl
  exact ⟨heard', luck', hl.imp hsame fun hnever b hb => hnever b (.head ht hb), hturn⟩

/-- A machine that is alone runs to its end in one go. A twin that is resumed at each of its pauses
comes to the same end, with whatever breakpoints, and pauses less often than the first takes turns. -/
theorem resumedTo_twin {fuel : Nat} {m : Machine} {o : Outcome} (hd : drive fuel none m = some o)
    (hm : m.Alone) (breakpoints : IndexSet) (heard : Observers) (luck : Generator)
    (hl : luck = m.random ∨ m.NeverRolls) :
    ∃ pauses heard' luck', pauses.length < fuel ∧
      ResumedTo fuel (m.twin breakpoints heard luck) pauses
        (o.1, o.2.twin breakpoints heard' luck') := by
  -- Each turn of the first machine is a turn of its twin, which may pause after it.
  induction fuel generalizing m heard luck with
  | zero => cases hd
  | succ fuel ih =>
    rcases drive_cases hd with hends | ⟨c, hturn, hrest⟩
    · obtain ⟨hh, heard', luck', hends'⟩ := ends_twin hends hm breakpoints heard luck hl
      exact ⟨[], heard', luck', Nat.succ_pos fuel, .ended (drive_of_ends hends' fuel) hh⟩
    · have hc : c.Alone := hm.step (hm.step_of_turn hturn).2
      obtain ⟨heard', luck', hl', hnext⟩ := turn_twin hturn hm breakpoints heard luck hl
      rcases checkBreakpoint_cases (c.twin breakpoints heard' luck') with hcheck | ⟨_, hh, _, hcheck⟩
      · rw [hcheck] at hnext
        obtain ⟨pauses, heard'', luck'', hlength, hgoes⟩ := ih hrest hc heard' luck' hl'
        exact ⟨pauses, heard'', luck'', by omega, hgoes.of_turn hnext⟩
      · -- The breakpoint made the twin pause; resumed, it is a twin again.
        have hresumed := setPaused_of_break breakpoints heard' luck' hc.running
          (.breakpointHit ((c.twin breakpoints heard' luck').counter.toNat + 1).toUInt64)
        rw [← hcheck] at hresumed
        obtain ⟨later, hresumed⟩ := hresumed
        obtain ⟨pauses, heard'', luck'', hlength, hgoes⟩ := ih hrest hc later luck' hl'
        rw [← hresumed] at hgoes
        have hcontrol : (c.twin breakpoints heard' luck').checkBreakpoint.control = {} :=
          (control_checkBreakpoint _).trans hc.silent.control_eq
        have hflags : (c.twin breakpoints heard' luck').checkBreakpoint.paused = true ∧
            (c.twin breakpoints heard' luck').checkBreakpoint.halted = false := by
          rw [hcheck]
          exact ⟨rfl, hh⟩
        refine ⟨_, heard'', luck'', ?_, .of_pause hnext hcontrol hflags.1 hflags.2 (by omega) hgoes⟩
        exact Nat.succ_lt_succ hlength

end Machine

end PixelMachine
