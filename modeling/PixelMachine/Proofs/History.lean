import PixelMachine.Proofs.Pausing

/-! What was done to a machine: the steps that it took and the resets between them, in the order in
which they happened. A property of a machine and its history that neither steps nor resets break holds
along every sequence of commands. -/
namespace PixelMachine

/-- What happens to the work of a machine: it starts over, or it is stepped. A step has no outcome if
it waits for a key for ever. -/
inductive Deed where
  | reset
  | step (m : Machine) (outcome : Option Machine.Outcome)

namespace Machine

/-- The steps of the driving loop, as far as the fuel goes. -/
def driven : Nat → Option Nat → Machine → List Deed
  | 0, _, _ => []
  | fuel + 1, depth, m =>
    if m.applyRequests.halted || m.applyRequests.paused then []
    else
      .step m.applyRequests m.applyRequests.step ::
        match m.applyRequests.step with
        | some (.ok (), m') =>
          if depth.any (m'.returns.length < ·) then [] else driven fuel depth m'.checkBreakpoint
        | _ => []

/-- The step of a machine. -/
def stepped (m : Machine) : List Deed := [.step m m.step]

/-- What is done to a machine that is about to be stepped: it starts over if it was halted. -/
def entered (m : Machine) : List Deed := if m.halted then [.reset] else []

/-- What a command does. One that does not return is followed as far as the fuel goes. -/
def deeds (fuel : Nat) (m : Machine) : Command → List Deed
  | .load _ | .reset => [.reset]
  | .run => .reset :: driven fuel none m.started
  | .resume => if m.halted then [] else driven fuel none m.resumed
  | .step => m.stepped
  | .singleStep =>
    match m.applyRequests.enterPaused with
    | .error _ => []
    | .ok p => m.applyRequests.entered ++ p.stepped
  | .stepOut =>
    match m.applyRequests.enterPaused with
    | .error _ => []
    | .ok p => m.applyRequests.entered ++ driven fuel (some p.returns.length) (p.setPaused false)
  | _ => []

/-- How a command that drives the machine begins: with what it does first, the depth that it watches
and the machine that it drives. -/
inductive Begins (m : Machine) : Command → List Deed → Option Nat → Machine → Prop where
  | run : Begins m .run [.reset] none m.started
  | resume : m.halted = false → Begins m .resume [] none m.resumed
  | stepOut {p : Machine} : m.applyRequests.enterPaused = .ok p →
      Begins m .stepOut m.applyRequests.entered (some p.returns.length) (p.setPaused false)

theorem deeds_of_begins {m s : Machine} {c : Command} {first : List Deed} {depth : Option Nat}
    (h : Begins m c first depth s) (fuel : Nat) : m.deeds fuel c = first ++ driven fuel depth s := by
  cases h with
  | run => rfl
  | resume hh => simp [deeds, hh]
  | stepOut hp => simp only [deeds, hp]

/-- Where the loop of such a command leaves the machine, the command does, but for the paused flag and
what is heard of it. -/
theorem execute_of_begins {m s m' : Machine} {c : Command} {first : List Deed} {depth : Option Nat}
    {fuel : Nat} {r : Except Fault Unit} (h : Begins m c first depth s)
    (he : m.execute fuel c = some (r, m')) :
    ∃ l, drive fuel depth s = some (r, l) ∧ (m' = l ∨ c = .stepOut ∧ m' = l.setPaused true) := by
  cases h with
  | run => exact ⟨m', (run_eq_drive fuel m).symm.trans he, .inl rfl⟩
  | resume hh => exact ⟨m', (resume_of_running hh fuel).symm.trans he, .inl rfl⟩
  | stepOut hp =>
    cases stepsOut_of_eq he with
    | refused hp' => cases hp.symm.trans hp'
    | failed hp' hd | halted hp' hd _ =>
      cases hp.symm.trans hp'
      exact ⟨m', hd, .inl rfl⟩
    | done hp' hd _ =>
      cases hp.symm.trans hp'
      exact ⟨_, hd, .inr ⟨rfl, rfl⟩⟩

/-- A command that would drive the machine and does not begin is refused, and does nothing. -/
theorem begins_or_refused (fuel : Nat) (m : Machine) {c : Command}
    (hc : c = .run ∨ c = .resume ∨ c = .stepOut) :
    (∃ first depth s, Begins m c first depth s) ∨
      m.deeds fuel c = [] ∧ ∃ e, m.execute fuel c = some (.error e, m) ∨
        m.execute fuel c = some (.error e, m.applyRequests) := by
  rcases hc with rfl | rfl | rfl
  · exact .inl ⟨_, _, _, .run⟩
  · rcases hh : m.halted with _ | _
    · exact .inl ⟨_, _, _, .resume hh⟩
    · refine .inr ⟨by simp [deeds, hh], .invalidControlState .resumeHalted, .inl ?_⟩
      simp [execute, resume, hh]
  · rcases hp : m.applyRequests.enterPaused with e | p
    · refine .inr ⟨by simp [deeds, hp], e, .inr ?_⟩
      simp [execute, stepOut, hp]
    · exact .inl ⟨_, _, _, .stepOut hp⟩

/-- Each step of the driving loop is taken at a boundary that the loop comes by, the first one where
it starts. -/
theorem driven_eq_append {fuel : Nat} {depth : Option Nat} {s b : Machine} {o : Option Outcome}
    {older newer : List Deed} (h : driven fuel depth s = older ++ .step b o :: newer) :
    ∃ l, (older = [] ∧ l = s ∨ Relation.TransGen (Turn depth) s l) ∧ b = l.applyRequests ∧
      b.halted = false ∧ b.paused = false ∧ o = b.step := by
  induction fuel generalizing s older with
  | zero =>
    have hempty : [] = older ++ .step b o :: newer := h
    simp at hempty
  | succ fuel ih =>
    rw [driven] at h
    split at h
    · simp at h
    · next hflags =>
      obtain ⟨hh, hp⟩ : s.applyRequests.halted = false ∧ s.applyRequests.paused = false := by
        simpa using hflags
      rcases List.cons_eq_append_iff.mp h with ⟨rfl, hfirst⟩ | ⟨older', rfl, hlater⟩
      · -- The step at the start.
        simp only [List.cons.injEq, Deed.step.injEq] at hfirst
        obtain ⟨⟨rfl, rfl⟩, _⟩ := hfirst
        exact ⟨s, .inl ⟨rfl, rfl⟩, rfl, hh, hp, rfl⟩
      · -- A later one, which the loop comes to by a turn.
        split at hlater
        · next m' hs =>
          split at hlater
          · simp at hlater
          · next hd =>
            have hturn : Turn depth s m'.checkBreakpoint := .intro hh hp hs (by simpa using hd)
            obtain ⟨l, hl, hb⟩ := ih hlater
            refine ⟨l, .inr ?_, hb⟩
            rcases hl with ⟨_, rfl⟩ | hl
            · exact .single hturn
            · exact .head hturn hl
        · simp at hlater

/-- What a command does before it drives the machine takes no step. -/
theorem Begins.no_step {m s : Machine} {c : Command} {first : List Deed} {depth : Option Nat}
    (h : Begins m c first depth s) (b : Machine) (o : Option Outcome) : .step b o ∉ first := by
  cases h with
  | run => simp
  | resume => simp
  | stepOut =>
    unfold entered
    split
    · simp
    · simp

/-- Each step of a command that drives the machine is taken at a boundary of its loop, and only the
first one where the loop starts. -/
theorem Begins.boundary {m s b : Machine} {c : Command} {first older newer : List Deed}
    {depth : Option Nat} {fuel : Nat} {o : Option Outcome} (h : Begins m c first depth s)
    (hd : m.deeds fuel c = older ++ .step b o :: newer) :
    ∃ l, ((∀ b' o', .step b' o' ∉ older) ∧ l = s ∨ Relation.TransGen (Turn depth) s l) ∧
      b = l.applyRequests ∧ b.halted = false ∧ b.paused = false ∧ o = b.step := by
  rw [deeds_of_begins h] at hd
  have hsplit : ∃ before, older = first ++ before ∧
      driven fuel depth s = before ++ .step b o :: newer := by
    rcases List.append_eq_append_iff.mp hd with ⟨before, hbefore, hdriven⟩ | ⟨rest, hrest, hdriven⟩
    · exact ⟨before, hbefore, hdriven⟩
    · rcases List.cons_eq_append_iff.mp hdriven with ⟨rfl, hnext⟩ | ⟨rest', rfl, _⟩
      · exact ⟨[], by simpa using hrest.symm, by simpa using hnext⟩
      · -- Then the step would be among what is done first.
        have hfirst : .step b o ∈ first := by simp [hrest]
        exact absurd hfirst (h.no_step b o)
  obtain ⟨before, rfl, hdriven⟩ := hsplit
  obtain ⟨l, hl, hb⟩ := driven_eq_append hdriven
  refine ⟨l, ?_, hb⟩
  rcases hl with ⟨rfl, rfl⟩ | hl
  · rw [List.append_nil]
    exact .inl ⟨h.no_step, rfl⟩
  · exact .inr hl

/-- A machine that was just built. -/
def IsNew (m : Machine) : Prop := (∃ d, m = new d) ∨ ∃ d config, withConfig d config = .ok m

/-- What leads from a machine to another: commands that return, and commands up to a step within
them. Others may plan their requests anew at any time. -/
inductive Leads (s : Machine) : List Deed → Machine → Prop where
  | refl : Leads s [] s
  | arrive {ds : List Deed} {m : Machine} (arriving : List Requests) : Leads s ds m →
      Leads s ds { m with control := { m.control with arriving := arriving } }
  | command {ds : List Deed} {m m' : Machine} {fuel : Nat} {c : Command} {r : Except Fault Unit} :
      Leads s ds m → m.execute fuel c = some (r, m') → Leads s (ds ++ m.deeds fuel c) m'
  | within {ds older newer : List Deed} {m b : Machine} {fuel : Nat} {c : Command} {o : Option Outcome} :
      Leads s ds m → m.deeds fuel c = older ++ .step b o :: newer → Leads s (ds ++ older) b

/-- A screen that a change of its size may leave: a side is what it was or fits the surface. -/
structure Resized (s s' : Screen) : Prop where
  surface : s'.surface = s.surface
  width : s'.width = s.width ∨ 1 ≤ s'.width ∧ s'.width ≤ s.surface.width
  height : s'.height = s.height ∨ 1 ≤ s'.height ∧ s'.height ≤ s.surface.height

theorem fits_of_checkScreenSize {side : Dimension} {requested limit : Nat} {u : Unit}
    (h : checkScreenSize side requested limit = .ok u) : 1 ≤ requested ∧ requested ≤ limit := by
  unfold checkScreenSize at h
  split at h
  · cases h
  · omega

theorem fits_of_checkResize {m : Machine} {side : Dimension} {requested limit : Nat} {u : Unit}
    (h : m.checkResize side requested limit = .ok u) : 1 ≤ requested ∧ requested ≤ limit := by
  unfold checkResize at h
  split at h
  · exact fits_of_checkScreenSize h
  · cases h

/-- A property of a machine and its history that nothing done to the machine breaks. Of run control
it may see only that the machine is halted. -/
structure Told (Inv : Machine → List Deed → Prop) : Prop where
  same : ∀ {m m' ds}, Inv m ds → m'.work = m.work → (m.halted = true → m'.halted = true) → Inv m' ds
  load : ∀ {m ds} program, Inv m ds → Inv (m.load program) (ds ++ [.reset])
  restart : ∀ {m ds}, Inv m ds → Inv (m.reset.setHalted false) (ds ++ [.reset])
  resize : ∀ {m ds screen}, Resized m.screen screen → Inv m ds → Inv { m with screen := screen } ds
  step : ∀ {m o ds}, Inv m ds → m.step = some o → Inv o.2 (ds ++ [.step m (some o)])

/-- Along what is done to a machine with the history `ds` a property holds: at the end, and where a
step is taken. -/
structure Along (Inv : Machine → List Deed → Prop) (ds : List Deed) (new : List Deed)
    (result : Option Outcome) : Prop where
  ended : ∀ o, result = some o → Inv o.2 (ds ++ new)
  within : ∀ older b o newer, new = older ++ .step b o :: newer → Inv b (ds ++ older)

namespace Along

variable {Inv : Machine → List Deed → Prop} {ds new : List Deed} {result : Option Outcome}

theorem nil (h : ∀ o, result = some o → Inv o.2 ds) : Along Inv ds [] result where
  ended := by
    intro o ho
    rw [List.append_nil]
    exact h o ho
  within := by
    intro older b o newer hnew
    simp at hnew

theorem reset (h : Along Inv (ds ++ [.reset]) new result) : Along Inv ds (.reset :: new) result where
  ended := by
    intro o ho
    rw [List.append_cons]
    exact h.ended o ho
  within := by
    intro older b o newer hnew
    rcases List.cons_eq_append_iff.mp hnew with ⟨_, hfirst⟩ | ⟨older, rfl, hlater⟩
    · simp at hfirst
    · rw [List.append_cons]
      exact h.within older b o newer hlater

theorem step {b : Machine} {o : Option Outcome} (hb : Inv b ds)
    (h : Along Inv (ds ++ [.step b o]) new result) : Along Inv ds (.step b o :: new) result where
  ended := by
    intro o' ho
    rw [List.append_cons]
    exact h.ended o' ho
  within := by
    intro older b' o' newer hnew
    rcases List.cons_eq_append_iff.mp hnew with ⟨rfl, hfirst⟩ | ⟨older, rfl, hlater⟩
    · simp only [List.cons.injEq, Deed.step.injEq] at hfirst
      obtain ⟨⟨rfl, _⟩, _⟩ := hfirst
      rw [List.append_nil]
      exact hb
    · rw [List.append_cons]
      exact h.within older b' o' newer hlater

theorem entered {m : Machine} (h : Along Inv (ds ++ m.entered) new result) :
    Along Inv ds (m.entered ++ new) result := by
  unfold Machine.entered at h ⊢
  rcases hh : m.halted with _ | _
  · rw [hh, if_neg (by simp), List.append_nil] at h
    exact h
  · rw [hh, if_pos rfl] at h
    exact h.reset

theorem mono {result' : Option Outcome} (h : Along Inv ds new result)
    (hr : ∀ o', result' = some o' →
      ∃ o, result = some o ∧ (Inv o.2 (ds ++ new) → Inv o'.2 (ds ++ new))) :
    Along Inv ds new result' where
  ended := by
    intro o' ho'
    obtain ⟨o, ho, hinv⟩ := hr o' ho'
    exact hinv (h.ended o ho)
  within := h.within

end Along

namespace Told

variable {Inv : Machine → List Deed → Prop} {ds : List Deed} {m p : Machine}

theorem applyRequests (hk : Told Inv) (h : Inv m ds) : Inv m.applyRequests ds := by
  apply hk.same h (work_applyRequests m)
  intro hh
  rw [applyRequests_halted, hh, Bool.true_or]

theorem checkBreakpoint (hk : Told Inv) (h : Inv m ds) : Inv m.checkBreakpoint ds := by
  apply hk.same h (work_checkBreakpoint m)
  intro hh
  rcases checkBreakpoint_cases m with hc | ⟨_, hrunning, _⟩
  · rw [hc, hh]
  · rw [hh] at hrunning
    cases hrunning

theorem setPaused (hk : Told Inv) (h : Inv m ds) (b : Bool) : Inv (m.setPaused b) ds :=
  hk.same h rfl id

theorem drive (hk : Told Inv) (fuel : Nat) (depth : Option Nat) (h : Inv m ds) :
    Along Inv ds (driven fuel depth m) (drive fuel depth m) := by
  -- One turn of the loop for each unit of fuel; what it does is added to the history.
  induction fuel generalizing m ds with
  | zero =>
    refine .nil fun o ho => ?_
    cases ho
  | succ fuel ih =>
    have happly := hk.applyRequests h
    rw [driven, Machine.drive]
    dsimp only
    split
    · refine .nil fun o ho => ?_
      cases ho
      exact happly
    · rcases hs : m.applyRequests.step with _ | ⟨e | _, m'⟩
      · refine .step happly (.nil fun o ho => ?_)
        cases ho
      · refine .step happly (.nil fun o ho => ?_)
        cases ho
        exact hk.step happly hs
      · have hchecked := hk.checkBreakpoint (hk.step happly hs)
        simp only [returns_checkBreakpoint]
        split
        · refine .step happly (.nil fun o ho => ?_)
          cases ho
          exact hchecked
        · exact .step happly (ih hchecked)

theorem stepped (hk : Told Inv) (h : Inv m ds) : Along Inv ds m.stepped m.step := by
  refine .step h (.nil fun o ho => ?_)
  rw [ho]
  exact hk.step h ho

theorem enterPaused (hk : Told Inv) (hp : m.enterPaused = .ok p) (h : Inv m ds) :
    Inv p (ds ++ m.entered) := by
  unfold entered
  rcases enterPaused_eq_ok hp with ⟨hh, rfl⟩ | ⟨hh, _, rfl⟩
  · rw [if_pos hh]
    exact hk.setPaused (hk.restart h) true
  · rw [if_neg (by simp [hh]), List.append_nil]
    exact h

/-- What every command does keeps such a property. -/
theorem deeds (hk : Told Inv) (fuel : Nat) (c : Command) (h : Inv m ds) :
    Along Inv ds (m.deeds fuel c) (m.execute fuel c) := by
  have happly := hk.applyRequests h
  -- A command that is over at once and takes no step.
  have still {m' : Machine} {r : Except Fault Unit} (hm : Inv m' ds) :
      Along Inv ds [] (some (r, m')) := by
    refine .nil fun o ho => ?_
    cases ho
    exact hm
  cases c with
  | load program =>
    refine .reset (.nil fun o ho => ?_)
    cases ho
    exact hk.load program h
  | reset =>
    refine .reset (.nil fun o ho => ?_)
    cases ho
    -- A reset leaves the halted flag as it is, and a property that a running machine has is no less
    -- true of a halted one.
    have hwork : m.reset.work = (m.reset.setHalted false).work := rfl
    exact hk.same (hk.restart h) hwork nofun
  | run =>
    change Along Inv ds (.reset :: driven fuel none m.started) (m.run fuel)
    rw [run_eq_drive]
    exact .reset (hk.drive fuel none (hk.same (hk.restart h) rfl id))
  | resume =>
    change Along Inv ds (if m.halted then [] else driven fuel none m.resumed) (m.resume fuel)
    rcases hh : m.halted with _ | _
    · rw [resume_of_running hh]
      exact hk.drive fuel none (hk.same h rfl id)
    · unfold resume
      rw [if_pos hh]
      exact still h
  | step => exact hk.stepped h
  | singleStep =>
    rcases hp : m.applyRequests.enterPaused with e | p
    · simp only [Machine.deeds, Machine.execute, singleStep, hp]
      exact still happly
    · simp only [Machine.deeds, hp]
      apply Along.entered
      apply (hk.stepped (hk.enterPaused hp happly)).mono
      intro o ho
      cases singleSteps_of_eq ho with
      | refused hp' => cases hp.symm.trans hp'
      | failed hp' hs =>
        cases hp.symm.trans hp'
        exact ⟨_, hs, fun h => h⟩
      | done hp' hs =>
        cases hp.symm.trans hp'
        exact ⟨_, hs, hk.applyRequests⟩
  | stepOut =>
    rcases hp : m.applyRequests.enterPaused with e | p
    · simp only [Machine.deeds, Machine.execute, stepOut, hp]
      exact still happly
    · simp only [Machine.deeds, hp]
      apply Along.entered
      have hdriven := hk.setPaused (hk.enterPaused hp happly) false
      apply (hk.drive fuel _ hdriven).mono
      rintro ⟨r, m'⟩ ho
      obtain ⟨l, hd, rfl | ⟨_, rfl⟩⟩ := execute_of_begins (.stepOut hp) ho
      · exact ⟨_, hd, fun h => h⟩
      · exact ⟨_, hd, fun h => hk.setPaused h true⟩
  | pause | addBreakpoint | removeBreakpoint | clearBreakpoints | subscribe | hangUp | request =>
    exact still (hk.same h rfl id)
  | stop => exact still (hk.same h rfl fun _ => rfl)
  | setWidth width =>
    simp only [Machine.deeds, Machine.execute, setWidth]
    split
    · next hfits => exact still (hk.resize ⟨rfl, .inr (fits_of_checkResize hfits), .inl rfl⟩ h)
    · exact still h
  | setHeight height =>
    simp only [Machine.deeds, Machine.execute, setHeight]
    split
    · next hfits => exact still (hk.resize ⟨rfl, .inl rfl, .inr (fits_of_checkResize hfits)⟩ h)
    · exact still h

end Told

/-- A property of the start holds wherever it leads. -/
theorem Leads.told {Inv : Machine → List Deed → Prop} (hk : Told Inv) {s m : Machine} {ds : List Deed}
    (h : Leads s ds m) (hs : Inv s []) : Inv m ds := by
  induction h with
  | refl => exact hs
  | arrive _ _ ih => exact hk.same ih rfl id
  | @command ds m m' fuel c r _ he ih => exact (hk.deeds fuel c ih).ended _ he
  | @within ds older newer m b fuel c o _ he ih => exact (hk.deeds fuel c ih).within older b o newer he

end Machine

end PixelMachine
