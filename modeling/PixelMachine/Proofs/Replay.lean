import PixelMachine.Proofs.History
import PixelMachine.Proofs.Notices

/-! Events replay the state. A machine changes its flags only by announcing it and does not care who
listens, so an observer that hears all announcements knows the flags. -/
namespace PixelMachine

/-- The halted and the paused flag after an event. -/
def Event.replay (flags : Bool × Bool) : Event → Bool × Bool
  | .haltedChanged halted => (halted, flags.2)
  | .pausedChanged paused => (flags.1, paused)
  | .breakpointHit _ => flags

namespace Machine

/-- The halted and the paused flag. -/
def flags (m : Machine) : Bool × Bool := (m.halted, m.paused)

/-- The machine with other observers. -/
def heardBy (m : Machine) (o : Observers) : Machine := { m with observers := o }

/-- A change of the machine announces these events, to whoever listens, and they tell the flags. -/
structure Tells (f : Machine → Machine) (m : Machine) (es : List Event) : Prop where
  flags : es.foldl Event.replay m.flags = (f m).flags
  heard : ∀ o, f (m.heardBy o) = (f m).heardBy (es.foldl Observers.announce o)

/-- The same for a command that may not return. -/
structure Announces (f : Machine → Option Outcome) (m : Machine) (r : Outcome) (es : List Event) :
    Prop where
  flags : es.foldl Event.replay m.flags = r.2.flags
  heard : ∀ o, f (m.heardBy o) = some (r.1, r.2.heardBy (es.foldl Observers.announce o))

/-- Whatever a command does to the flags it announces, and it never looks at the observers. -/
def Candid (f : Machine → Option Outcome) : Prop := ∀ m r, f m = some r → ∃ es, Announces f m r es

theorem Tells.comp {f g : Machine → Machine} {m : Machine} {es es' : List Event} (h : Tells f m es)
    (h' : Tells g (f m) es') : Tells (fun x => g (f x)) m (es ++ es') where
  flags := by
    rw [List.foldl_append, h.flags, h'.flags]
  heard := by
    intro o
    rw [List.foldl_append, h.heard, h'.heard]

theorem Tells.before {f : Machine → Machine} {g : Machine → Option Outcome} {m : Machine}
    {es es' : List Event} {r : Outcome} (h : Tells f m es) (h' : Announces g (f m) r es') :
    Announces (fun x => g (f x)) m r (es ++ es') where
  flags := by
    rw [List.foldl_append, h.flags, h'.flags]
  heard := by
    intro o
    rw [List.foldl_append, h.heard, h'.heard]

/-- A machine that announces what it does before it is given a command goes on doing so. -/
theorem Candid.after {f : Machine → Machine} {g : Machine → Option Outcome} (hg : Candid g)
    (hf : ∀ m, ∃ es, Tells f m es) : Candid fun m => g (f m) := by
  intro m r hr
  obtain ⟨es, hes⟩ := hf m
  obtain ⟨es', hes'⟩ := hg (f m) r hr
  exact ⟨es ++ es', hes.before hes'⟩

theorem Tells.candid {f : Machine → Machine} (h : ∀ m, ∃ es, Tells f m es) :
    Candid fun m => some (.ok (), f m) := by
  intro m r hr
  obtain ⟨es, hes⟩ := h m
  cases hr
  exact ⟨es, hes.flags, fun o => by rw [hes.heard]⟩

theorem tells_setHalted (m : Machine) (b : Bool) : Tells (·.setHalted b) m [.haltedChanged b] :=
  ⟨rfl, fun _ => rfl⟩

theorem tells_setPaused (m : Machine) (b : Bool) : Tells (·.setPaused b) m [.pausedChanged b] :=
  ⟨rfl, fun _ => rfl⟩

theorem tells_reset (m : Machine) : Tells reset m [.pausedChanged false] := ⟨rfl, fun _ => rfl⟩

theorem tells_load (m : Machine) (program : Program) :
    Tells (·.load program) m [.haltedChanged true, .pausedChanged false] := ⟨rfl, fun _ => rfl⟩

theorem tells_obeyStop (m : Machine) : ∃ es, Tells obeyStop m es := by
  unfold obeyStop
  rcases hs : m.control.takeStop.1 with _ | _
  · refine ⟨[], by simp [hs, flags], fun o => ?_⟩
    simp [hs, heardBy]
  · refine ⟨[.haltedChanged true], by simp [hs, flags, setHalted, Event.replay], fun o => ?_⟩
    simp [hs, heardBy, setHalted]

theorem tells_obeyPause (m : Machine) : ∃ es, Tells obeyPause m es := by
  unfold obeyPause
  rcases hp : m.control.takePause.1 && !m.halted with _ | _
  · refine ⟨[], by simp [hp, flags], fun o => ?_⟩
    simp [hp, heardBy]
  · refine ⟨[.pausedChanged true], by simp [hp, flags, setPaused, Event.replay], fun o => ?_⟩
    simp [hp, heardBy, setPaused]

theorem tells_applyRequests (m : Machine) : ∃ es, Tells applyRequests m es := by
  obtain ⟨es, hstop⟩ := tells_obeyStop m
  obtain ⟨es', hpause⟩ := tells_obeyPause m.obeyStop
  exact ⟨es ++ es', hstop.comp hpause⟩

theorem tells_checkBreakpoint (m : Machine) : ∃ es, Tells checkBreakpoint m es := by
  by_cases hstays : (m.halted || m.paused || m.counter < 0) = true
  · have hsame (x : Machine) (hx : (x.halted || x.paused || x.counter < 0) = true) :
        x.checkBreakpoint = x := if_pos hx
    refine ⟨[], ?_, fun o => ?_⟩
    · rw [hsame m hstays]
      rfl
    · rw [hsame m hstays, hsame (m.heardBy o) hstays]
      rfl
  · rcases hb : m.breakpoints.contains (m.counter.toNat + 1) with _ | _
    · have hsame (x : Machine) (hx : ¬ (x.halted || x.paused || x.counter < 0) = true)
          (hxb : ¬ x.breakpoints.contains (x.counter.toNat + 1) = true) : x.checkBreakpoint = x :=
        (if_neg hx).trans (if_neg hxb)
      have hnot : ¬ m.breakpoints.contains (m.counter.toNat + 1) = true := by simp [hb]
      refine ⟨[], ?_, fun o => ?_⟩
      · rw [hsame m hstays hnot]
        rfl
      · rw [hsame m hstays hnot, hsame (m.heardBy o) hstays hnot]
        rfl
    · have hhit (x : Machine) (hx : ¬ (x.halted || x.paused || x.counter < 0) = true)
          (hxb : x.breakpoints.contains (x.counter.toNat + 1) = true) : x.checkBreakpoint =
            (x.setPaused true).announce (.breakpointHit (x.counter.toNat + 1).toUInt64) :=
        (if_neg hx).trans (if_pos hxb)
      refine ⟨[.pausedChanged true, .breakpointHit (m.counter.toNat + 1).toUInt64], ?_, fun o => ?_⟩
      · rw [hhit m hstays hb]
        rfl
      · rw [hhit m hstays hb, hhit (m.heardBy o) hstays hb]
        rfl

/-- What an effect announces. -/
def news : Effect → List Event
  | .halt => [.haltedChanged true]
  | _ => []

theorem aside_heardBy (o : Observers) : Aside (·.heardBy o) where
  flags _ := ⟨rfl, rfl⟩
  input _ := ⟨rfl, rfl⟩
  keyboard _ _ := rfl
  control _ _ := rfl
  takes _ _ := rfl

theorem perform_heardBy (m : Machine) (effect : Effect) (o : Observers) :
    (m.heardBy o).perform effect =
      (m.perform effect).map (·.heardBy ((news effect).foldl Observers.announce o)) := by
  cases effect with
  | next | jump | call | ret | halt | store | paint | roll => rfl
  | print texts =>
    simp only [perform, say_eq, Option.map_some]
    rfl
  | awaitKey => exact (aside_heardBy o).awaitKeyWithin _ m

theorem flags_perform {m m' : Machine} {effect : Effect} (h : m.perform effect = some m') :
    (news effect).foldl Event.replay m.flags = m'.flags := by
  cases effect with
  | next | jump | call | ret | halt | store | paint | roll =>
    cases h
    rfl
  | print texts =>
    cases h
    rw [say_eq]
    rfl
  | awaitKey =>
    cases awaited_of_awaitKeyWithin h with
    | key | interrupted => rfl

theorem candid_step : Candid step := by
  intro m r h
  cases step_eq_some_iff.mp h with
  | halted hh => exact ⟨[], rfl, fun o => step_eq_some_iff.mpr (.halted hh)⟩
  | misplaced hh hc =>
    exact ⟨[.haltedChanged true], rfl, fun o => step_eq_some_iff.mpr (.misplaced hh hc)⟩
  | @failed index i e stack hh hc hp =>
    have hplan (o : Observers) : plan (m.heardBy o) index i m.stack = .error (e, stack) :=
      (congrFun (plan_congr rfl rfl rfl rfl rfl rfl index i) _).trans hp
    exact ⟨[.haltedChanged true], rfl, fun o => step_eq_some_iff.mpr (.failed hh hc (hplan o))⟩
  | @done index i effect stack m' hh hc hp hm =>
    have hplan (o : Observers) : plan (m.heardBy o) index i m.stack = .ok (effect, stack) :=
      (congrFun (plan_congr rfl rfl rfl rfl rfl rfl index i) _).trans hp
    have hflags : (news effect).foldl Event.replay (m.begun index i stack).flags = m'.flags :=
      flags_perform hm
    refine ⟨news effect, hflags, fun o => ?_⟩
    have hperform : ((m.heardBy o).begun index i stack).perform effect =
        some (m'.heardBy ((news effect).foldl Observers.announce o)) := by
      have hmap := perform_heardBy (m.begun index i stack) effect o
      rw [hm, Option.map_some] at hmap
      exact hmap
    have hdone : Steps (m.heardBy o) (.ok (), (Machine.measured (m'.heardBy _))) :=
      .done hh hc (hplan o) hperform
    exact step_eq_some_iff.mpr hdone

theorem halted_applyRequests_heardBy (m : Machine) (o : Observers) :
    (m.heardBy o).applyRequests.halted = m.applyRequests.halted := by
  obtain ⟨es, hes⟩ := tells_applyRequests m
  rw [hes.heard]
  rfl

theorem paused_applyRequests_heardBy (m : Machine) (o : Observers) :
    (m.heardBy o).applyRequests.paused = m.applyRequests.paused := by
  obtain ⟨es, hes⟩ := tells_applyRequests m
  rw [hes.heard]
  rfl

theorem candid_appliedStep : Candid fun m => m.applyRequests.step :=
  candid_step.after tells_applyRequests

/-- A turn of the driving loop announces what it does. -/
theorem candid_turn {depth : Option Nat} {m l : Machine} (h : Turn depth m l) :
    ∃ es : List Event, es.foldl Event.replay m.flags = l.flags ∧
      ∀ o, Turn depth (m.heardBy o) (l.heardBy (es.foldl Observers.announce o)) := by
  obtain ⟨hh, hp, hs, hd⟩ := h
  obtain ⟨es, hstep⟩ := candid_appliedStep m _ hs
  obtain ⟨checked, hcheck⟩ := tells_checkBreakpoint _
  refine ⟨es ++ checked, ?_, fun o => ?_⟩
  · rw [List.foldl_append, hstep.flags, hcheck.flags]
  · rw [List.foldl_append, ← hcheck.heard]
    rw [← halted_applyRequests_heardBy m o] at hh
    rw [← paused_applyRequests_heardBy m o] at hp
    exact .intro hh hp (hstep.heard o) hd

/-- So does its end. -/
theorem candid_ends {depth : Option Nat} {m : Machine} {r : Outcome} (h : Ends depth m r) :
    ∃ es : List Event, es.foldl Event.replay m.flags = r.2.flags ∧
      ∀ o, Ends depth (m.heardBy o) (r.1, r.2.heardBy (es.foldl Observers.announce o)) := by
  cases h with
  | stopped hst =>
    obtain ⟨es, hes⟩ := tells_applyRequests m
    refine ⟨es, hes.flags, fun o => ?_⟩
    rw [← halted_applyRequests_heardBy m o, ← paused_applyRequests_heardBy m o] at hst
    rw [← hes.heard]
    exact .stopped hst
  | failed hh hp hs =>
    obtain ⟨es, hstep⟩ := candid_appliedStep m _ hs
    refine ⟨es, hstep.flags, fun o => ?_⟩
    rw [← halted_applyRequests_heardBy m o] at hh
    rw [← paused_applyRequests_heardBy m o] at hp
    exact .failed hh hp (hstep.heard o)
  | returned hh hp hs hd =>
    obtain ⟨es, hstep⟩ := candid_appliedStep m _ hs
    obtain ⟨checked, hcheck⟩ := tells_checkBreakpoint _
    refine ⟨es ++ checked, ?_, fun o => ?_⟩
    · rw [List.foldl_append, hstep.flags, hcheck.flags]
    · rw [List.foldl_append, ← hcheck.heard]
      rw [← halted_applyRequests_heardBy m o] at hh
      rw [← paused_applyRequests_heardBy m o] at hp
      exact .returned hh hp (hstep.heard o) hd

/-- The driving loop ends at once, or takes a turn. -/
theorem drive_cases {fuel : Nat} {depth : Option Nat} {m : Machine} {r : Outcome}
    (h : drive (fuel + 1) depth m = some r) :
    Ends depth m r ∨ ∃ l, Turn depth m l ∧ drive fuel depth l = some r := by
  obtain ⟨l, hl, he⟩ := drive_eq_some_iff.mp ⟨_, h⟩
  rcases hl.cases_head with rfl | ⟨l, ht, hl⟩
  · exact .inl he
  · rw [drive_of_turn ht] at h
    exact .inr ⟨l, ht, h⟩

/-- The driving loop announces what its turns do. -/
theorem candid_drive (fuel : Nat) (depth : Option Nat) : Candid (drive fuel depth) := by
  induction fuel with
  | zero =>
    intro m r h
    cases h
  | succ fuel ih =>
    intro m r h
    rcases drive_cases h with hends | ⟨l, hturn, hrest⟩
    · obtain ⟨es, hflags, hends⟩ := candid_ends hends
      exact ⟨es, hflags, fun o => drive_of_ends (hends o) fuel⟩
    · obtain ⟨es, hflags, hturn⟩ := candid_turn hturn
      obtain ⟨es', hrest⟩ := ih l r hrest
      refine ⟨es ++ es', ?_, fun o => ?_⟩
      · rw [List.foldl_append, hflags, hrest.flags]
      · rw [drive_of_turn (hturn o), List.foldl_append]
        exact hrest.heard _

theorem candid_resume (fuel : Nat) : Candid (resume fuel) := by
  intro m r h
  rcases hh : m.halted with _ | _
  · have hrunning (o : Observers) : (m.heardBy o).resume fuel = drive fuel none (m.heardBy o).resumed :=
      resume_of_running (m := m.heardBy o) hh fuel
    have htells : Tells resumed m [.pausedChanged false] := ⟨rfl, fun _ => rfl⟩
    rw [resume_of_running hh] at h
    obtain ⟨es, hes⟩ := candid_drive fuel none _ r h
    have hdrive := htells.before hes
    exact ⟨_, hdrive.flags, fun o => (hrunning o).trans (hdrive.heard o)⟩
  · have hrefused (x : Machine) (hx : x.halted = true) :
        x.resume fuel = some (.error (.invalidControlState .resumeHalted), x) := if_pos hx
    rw [hrefused m hh] at h
    cases h
    exact ⟨[], rfl, fun o => hrefused (m.heardBy o) hh⟩

theorem candid_run (fuel : Nat) : Candid (run fuel) :=
  (candid_resume fuel).after fun m => ⟨_, (tells_reset m).comp (tells_setHalted m.reset false)⟩

/-- A machine that has to start over to be stepped announces it. -/
theorem enterPaused_heardBy (m : Machine) : ∃ es : List Event,
    (∀ p, m.enterPaused = .ok p → es.foldl Event.replay m.flags = p.flags) ∧
      ∀ o, (m.heardBy o).enterPaused =
        m.enterPaused.map (·.heardBy (es.foldl Observers.announce o)) := by
  rcases hh : m.halted with _ | _
  · refine ⟨[], ?_, fun o => ?_⟩
    · intro p hp
      rcases enterPaused_eq_ok hp with ⟨hh', _⟩ | ⟨_, _, rfl⟩
      · cases hh.symm.trans hh'
      · rfl
    · have hsame (x : Machine) (hx : x.halted = false) : x.enterPaused =
          if x.paused then .ok x else .error (.invalidControlState .stepRunning) :=
        if_neg (by simp [hx])
      rw [hsame m hh, hsame (m.heardBy o) hh]
      change (if m.paused then _ else _) = _
      split
      · rfl
      · rfl
  · have htells := ((tells_reset m).comp (tells_setHalted _ false)).comp (tells_setPaused _ true)
    refine ⟨[.pausedChanged false, .haltedChanged false, .pausedChanged true], ?_, fun o => ?_⟩
    · intro p hp
      cases (enterPaused_of_halted hh).symm.trans hp
      exact htells.flags
    · rw [enterPaused_of_halted hh, enterPaused_of_halted (m := m.heardBy o) hh]
      exact congrArg Except.ok (htells.heard o)

/-- A command for a paused machine, or for a halted one that starts over. -/
theorem candid_entered {f : Machine → Option Outcome} (hf : Candid f) :
    Candid fun m =>
      match m.enterPaused with
      | .error e => some (.error e, m)
      | .ok p => f p := by
  intro m r h
  obtain ⟨es, hflags, hheard⟩ := enterPaused_heardBy m
  rcases hp : m.enterPaused with e | p
  · simp only [hp] at h
    cases h
    refine ⟨[], rfl, fun o => ?_⟩
    simp only [hheard, hp, Except.map]
    rfl
  · simp only [hp] at h
    obtain ⟨es', hes'⟩ := hf p r h
    refine ⟨es ++ es', ?_, fun o => ?_⟩
    · rw [List.foldl_append, hflags p hp, hes'.flags]
    · simp only [hheard, hp, Except.map, List.foldl_append]
      exact hes'.heard _

/-- A command and what is done once it succeeded. -/
theorem candid_then {f : Machine → Option Outcome} {g : Machine → Machine} (hf : Candid f)
    (hg : ∀ m, ∃ es, Tells g m es) :
    Candid fun m =>
      match f m with
      | none => none
      | some (.error e, l) => some (.error e, l)
      | some (.ok (), l) => some (.ok (), g l) := by
  intro m r h
  rcases hm : f m with _ | ⟨e | _, l⟩
  · simp only [hm] at h
    cases h
  · simp only [hm] at h
    cases h
    obtain ⟨es, hes⟩ := hf m _ hm
    refine ⟨es, hes.flags, fun o => ?_⟩
    simp only [hes.heard]
  · simp only [hm] at h
    cases h
    obtain ⟨es, hes⟩ := hf m _ hm
    obtain ⟨es', hes'⟩ := hg l
    refine ⟨es ++ es', ?_, fun o => ?_⟩
    · rw [List.foldl_append, hes.flags, hes'.flags]
    · simp only [hes.heard, hes'.heard, List.foldl_append]

theorem candid_singleStep : Candid singleStep :=
  (candid_entered (candid_then candid_step tells_applyRequests)).after tells_applyRequests

theorem candid_stepOut (fuel : Nat) : Candid (stepOut fuel) := by
  have hpause (m : Machine) : ∃ es, Tells (fun l => if l.halted then l else l.setPaused true) m es := by
    rcases hh : m.halted with _ | _
    · refine ⟨[.pausedChanged true], by simp [hh, flags, setPaused, Event.replay], fun o => ?_⟩
      simp [hh, heardBy, setPaused]
    · exact ⟨[], by simp [hh], fun o => by simp [hh, heardBy]⟩
  have hdrive : Candid fun p => drive fuel (some p.returns.length) (p.setPaused false) := by
    intro p r h
    obtain ⟨es, hes⟩ := candid_drive fuel _ _ r h
    have hall := (tells_setPaused p false).before hes
    exact ⟨_, hall.flags, hall.heard⟩
  exact (candid_entered (candid_then hdrive hpause)).after tells_applyRequests

/-- A command that announces nothing and leaves the observers alone. -/
theorem candid_quiet {f : Machine → Outcome} (hflags : ∀ m, (f m).2.flags = m.flags)
    (hheard : ∀ m o, f (m.heardBy o) = ((f m).1, (f m).2.heardBy o)) :
    Candid fun m => some (f m) := by
  intro m r h
  cases h
  exact ⟨[], (hflags m).symm, fun o => congrArg some (hheard m o)⟩

/-- A resize looks at nothing that has to do with observers. -/
theorem candid_resize (side : Dimension) (requested : Nat) (limit : Machine → Nat)
    (hlimit : ∀ m o, limit (heardBy m o) = limit m) (screen : Screen → Screen) :
    Candid fun m => some (match m.checkResize side requested (limit m) with
      | .ok () => (.ok (), { m with screen := screen m.screen })
      | .error e => (.error e, m)) := by
  apply candid_quiet
  · intro m
    split
    · rfl
    · rfl
  · intro m o
    have hcheck : (m.heardBy o).checkResize side requested (limit (m.heardBy o)) =
        m.checkResize side requested (limit m) := by
      rw [hlimit]
      rfl
    rw [hcheck]
    split
    · rfl
    · rfl

end Machine

/-- The command is about an observer. -/
def Command.OfObserver (c : Command) : Prop :=
  (∃ channel closing, c = .subscribe channel closing) ∨ ∃ id, c = .hangUp id

namespace Machine

open Notice

/-- No command changes a flag without announcing it, and only those about observers look at them. -/
theorem candid_execute (fuel : Nat) {c : Command} (hc : ¬ c.OfObserver) :
    Candid fun m => execute fuel m c := by
  cases c with
  | load program => exact Tells.candid fun m => ⟨_, tells_load m program⟩
  | reset => exact Tells.candid fun m => ⟨_, tells_reset m⟩
  | run => exact candid_run fuel
  | resume => exact candid_resume fuel
  | pause => exact Tells.candid fun m => ⟨_, tells_setPaused m true⟩
  | stop => exact Tells.candid fun m => ⟨_, tells_setHalted m true⟩
  | step => exact candid_step
  | singleStep => exact candid_singleStep
  | stepOut => exact candid_stepOut fuel
  | addBreakpoint | removeBreakpoint | clearBreakpoints | request =>
    exact candid_quiet (fun _ => rfl) fun _ _ => rfl
  | subscribe channel closing => exact absurd (.inl ⟨channel, closing, rfl⟩) hc
  | hangUp id => exact absurd (.inr ⟨id, rfl⟩) hc
  | setWidth width =>
    exact candid_resize .width width (·.screen.surface.width) (fun _ _ => rfl)
      ({ · with width := width })
  | setHeight height =>
    exact candid_resize .height height (·.screen.surface.height) (fun _ _ => rfl)
      ({ · with height := height })

/-- What the machine `m'` has announced and `m` had not yet, the oldest first. -/
def newsTo (m m' : Machine) : List Event :=
  (m'.observers.announced.take (m'.observers.announced.length - m.observers.announced.length)).reverse

/-- What the observers of `m` go through when a command leads from it to `m'`. -/
def notices (m : Machine) (c : Command) (m' : Machine) : List Notice :=
  match c with
  | .subscribe channel _ => [.subscribed channel]
  | .hangUp id => [.hungUp id]
  | _ => m.observers.notices (m.newsTo m')

/-- What the observers go through while commands are given to a machine. Others may plan their
requests anew at any time. -/
inductive Undergoes (s : Machine) : List Notice → Machine → Prop where
  | refl : Undergoes s [] s
  | arrive {ns : List Notice} {m : Machine} (arriving : List Requests) : Undergoes s ns m →
      Undergoes s ns { m with control := { m.control with arriving := arriving } }
  | command {ns : List Notice} {m m' : Machine} {fuel : Nat} {c : Command} {r : Except Fault Unit} :
      Undergoes s ns m → m.execute fuel c = some (r, m') → Undergoes s (ns ++ m.notices c m') m'

theorem announced_foldl (es : List Event) (o : Observers) :
    (es.foldl Observers.announce o).announced = es.reverse ++ o.announced := by
  induction es generalizing o with
  | nil => rfl
  | cons e es ih =>
    rw [List.foldl_cons, ih, List.reverse_cons, List.append_assoc]
    rfl

/-- Where events are announced one after the other, they are the news. -/
theorem newsTo_of_observers {m m' : Machine} {es : List Event}
    (h : m'.observers = es.foldl Observers.announce m.observers) : m.newsTo m' = es := by
  have hannounced : m'.observers.announced = es.reverse ++ m.observers.announced := by
    rw [h, announced_foldl]
  unfold newsTo
  rw [hannounced, List.length_append, Nat.add_sub_cancel, List.take_left, List.reverse_reverse]

/-- The events of a command tell the flags, and its observers heard them one after the other. -/
theorem Announces.observers {f : Machine → Option Outcome} {m : Machine} {r : Outcome} {es : List Event}
    (h : Announces f m r es) (hr : f m = some r) :
    r.2.observers = es.foldl Observers.announce m.observers := by
  have hsame : some r = some (r.1, r.2.heardBy (es.foldl Observers.announce m.observers)) :=
    hr.symm.trans (h.heard m.observers)
  exact congrArg (fun r : Outcome => r.2.observers) (Option.some.inj hsame)

theorem notices_of_not_ofObserver {c : Command} (hc : ¬ c.OfObserver) (m m' : Machine) :
    m.notices c m' = m.observers.notices (m.newsTo m') := by
  cases c with
  | subscribe channel closing => exact absurd (.inl ⟨channel, closing, rfl⟩) hc
  | hangUp id => exact absurd (.inr ⟨id, rfl⟩) hc
  | load | reset | run | resume | pause | stop | step | singleStep | stepOut | addBreakpoint
  | removeBreakpoint | clearBreakpoints | request | setWidth | setHeight => rfl

/-- What a command does to the observers: whoever went through something before, goes through what it
announces. Its events tell the flags, and nothing else is announced. -/
theorem underwent_execute {m m' : Machine} {fuel : Nat} {c : Command} {r : Except Fault Unit}
    {ns : List Notice} (he : m.execute fuel c = some (r, m')) (h : m.observers.Underwent ns) :
    m'.observers.Underwent (ns ++ m.notices c m') := by
  by_cases hc : c.OfObserver
  · rcases hc with ⟨channel, closing, rfl⟩ | ⟨id, rfl⟩
    · cases he
      exact h.subscribe channel closing
    · cases he
      exact h.hangUp fun k => by rw [closes, beq_iff_eq, eq_comm]
  · obtain ⟨es, hes⟩ := candid_execute fuel hc m _ he
    have hobservers : m'.observers = es.foldl Observers.announce m.observers := hes.observers he
    rw [notices_of_not_ofObserver hc, newsTo_of_observers hobservers, hobservers]
    exact h.foldl_announce es

/-- A steady observer does not close unless it is told to hang up. -/
theorem steady_execute {m m' : Machine} {fuel id : Nat} {c : Command} {r : Except Fault Unit}
    (he : m.execute fuel c = some (r, m')) (h : m.observers.Steady id)
    (hup : .hungUp id ∉ m.notices c m') :
    StaysOpen id (m.notices c m') ∧ m'.observers.Steady id := by
  by_cases hc : c.OfObserver
  · rcases hc with ⟨channel, closing, rfl⟩ | ⟨k, rfl⟩
    · cases he
      refine ⟨?_, h.subscribe channel closing⟩
      intro n hn
      rw [List.mem_singleton.mp hn]
      rfl
    · cases he
      refine ⟨?_, h.hangUp k⟩
      have hother : id ≠ k := fun hsame => hup (hsame ▸ List.mem_singleton_self _)
      intro n hn
      rw [List.mem_singleton.mp hn]
      simpa [closes] using hother.symm
  · obtain ⟨es, hes⟩ := candid_execute fuel hc m _ he
    have hobservers : m'.observers = es.foldl Observers.announce m.observers := hes.observers he
    rw [notices_of_not_ofObserver hc, newsTo_of_observers hobservers, hobservers]
    exact h.foldl_announce es

/-- The events of a command are all that it announces, and they tell the flags. -/
theorem replay_execute {m m' : Machine} {fuel : Nat} {c : Command} {r : Except Fault Unit}
    (he : m.execute fuel c = some (r, m')) :
    m'.observers.announced = (events (m.notices c m')).reverse ++ m.observers.announced ∧
      (events (m.notices c m')).foldl Event.replay m.flags = m'.flags := by
  by_cases hc : c.OfObserver
  · rcases hc with ⟨channel, closing, rfl⟩ | ⟨id, rfl⟩
    · cases he
      exact ⟨rfl, rfl⟩
    · cases he
      exact ⟨rfl, rfl⟩
  · obtain ⟨es, hes⟩ := candid_execute fuel hc m _ he
    have hobservers : m'.observers = es.foldl Observers.announce m.observers := hes.observers he
    rw [notices_of_not_ofObserver hc, newsTo_of_observers hobservers, Observers.events_notices]
    refine ⟨?_, hes.flags⟩
    rw [hobservers, announced_foldl]

namespace Undergoes

variable {s m m' : Machine} {ns after : List Notice}

theorem trans (h : Undergoes s ns m) (h' : Undergoes m after m') : Undergoes s (ns ++ after) m' := by
  induction h' with
  | refl =>
    rw [List.append_nil]
    exact h
  | arrive arriving _ ih => exact ih.arrive arriving
  | command _ he ih =>
    rw [← List.append_assoc]
    exact ih.command he

/-- The observers of a machine that had none at the start went through what the machine did. -/
theorem underwent (h : Undergoes s ns m) (hs : s.observers = {}) : m.observers.Underwent ns := by
  induction h with
  | refl =>
    rw [hs]
    exact Observers.underwent_nil
  | arrive _ _ ih => exact ih
  | command _ he ih => exact underwent_execute he ih

/-- A steady observer stays open until it is told to hang up. -/
theorem steady {id : Nat} (h : Undergoes s ns m) (hs : s.observers.Steady id)
    (hup : .hungUp id ∉ ns) : StaysOpen id ns ∧ m.observers.Steady id := by
  induction h with
  | refl => exact ⟨nofun, hs⟩
  | arrive _ _ ih => exact ih hup
  | command _ he ih =>
    rw [List.mem_append, not_or] at hup
    obtain ⟨hopen, hsteady⟩ := ih hup.1
    obtain ⟨hopen', hsteady'⟩ := steady_execute he hsteady hup.2
    refine ⟨?_, hsteady'⟩
    intro n hn
    rcases List.mem_append.mp hn with hn | hn
    · exact hopen n hn
    · exact hopen' n hn

/-- All that was announced since. -/
theorem announced (h : Undergoes s ns m) :
    m.observers.announced = (events ns).reverse ++ s.observers.announced := by
  induction h with
  | refl => rfl
  | arrive _ _ ih => exact ih
  | command _ he ih =>
    rw [(replay_execute he).1, ih, events_append, List.reverse_append, List.append_assoc]

/-- Whoever knows the flags at the start and what was announced since knows the flags. -/
theorem flags (h : Undergoes s ns m) : (events ns).foldl Event.replay s.flags = m.flags := by
  induction h with
  | refl => rfl
  | arrive _ _ ih => exact ih
  | command _ he ih => rw [events_append, List.foldl_append, ih, (replay_execute he).2]

end Undergoes

theorem IsNew.observers {s : Machine} (h : s.IsNew) : s.observers = {} := by
  rcases h with ⟨d, rfl⟩ | ⟨d, config, hc⟩
  · rfl
  · rw [eq_build_of_withConfig hc]
    rfl

/-- What an observer knows at `m'` that subscribed at `m`, after the notices `before` and before the
notices `after`, and whom else the machine told what. -/
structure Informed (m m' : Machine) (channel : Bool) (closing : List Bool) (before after : List Notice) :
    Prop where
  /-- The events among the notices are those that the machine announced. -/
  announced : m'.observers.announced.reverse = m.observers.announced.reverse ++ events after
  /-- They tell the flags. -/
  flags : (events after).foldl Event.replay m.flags = m'.flags
  /-- The observer hears them in order, once each, until it closes. -/
  heard : m'.observers.heard m.observers.nextId = audible channel m.observers.nextId after
  /-- It closes only if it says so or is told to hang up. -/
  steady : true ∉ closing → .hungUp m.observers.nextId ∉ after → StaysOpen m.observers.nextId after
  /-- While it is open it hears all and knows the flags, and it is not removed. -/
  replayed : StaysOpen m.observers.nextId after →
    m'.observers.heard m.observers.nextId = events after ∧
      (m'.observers.heard m.observers.nextId).foldl Event.replay m.flags = m'.flags ∧
      m.observers.nextId ∈ m'.observers.registered
  /-- One event after the other is told to all who hear it, in the order of their subscriptions. -/
  calls : Calls (before ++ .subscribed channel :: after) m'.observers.calls
  ascending : m'.observers.registered.Pairwise (· < ·)
  /-- Who closed is removed by the next announcement, and nobody else is. -/
  registered : ∀ id, id ∈ m'.observers.registered ↔
    Registered (before ++ .subscribed channel :: after) id

/-- Events replay the state: from its subscription on, an observer is told exactly what is announced,
and can work out the flags; whoever closes is removed and nobody else is affected. -/
theorem informed_of_undergoes {s m m' : Machine} {before after : List Notice} {channel : Bool}
    {closing : List Bool} (hs : s.IsNew) (h : Undergoes s before m)
    (h' : Undergoes (m.subscribe channel closing).2 after m') :
    Informed m m' channel closing before after := by
  have hsubscribe : m.execute 0 (.subscribe channel closing) =
      some (.ok (), (m.subscribe channel closing).2) := rfl
  have hsubscribed : Undergoes s (before ++ [.subscribed channel]) (m.subscribe channel closing).2 :=
    h.command hsubscribe
  have hbefore : m.observers.Underwent before := h.underwent hs.observers
  have hall : m'.observers.Underwent (before ++ .subscribed channel :: after) := by
    rw [List.append_cons]
    exact (hsubscribed.trans h').underwent hs.observers
  have hheard : m'.observers.heard m.observers.nextId = audible channel m.observers.nextId after := by
    rw [hbefore.nextId]
    exact hall.calls.heardIn_subscriber
  refine ⟨?_, h'.flags, hheard, ?_, ?_, hall.calls, hall.ascending, hall.registered⟩
  · rw [h'.announced, List.reverse_append, List.reverse_reverse]
    rfl
  · intro hclosing hup
    exact (h'.steady (hbefore.steady channel hclosing) hup).1
  · intro hopen
    have hfull : m'.observers.heard m.observers.nextId = events after := hheard.trans hopen.audible
    refine ⟨hfull, ?_, ?_⟩
    · rw [hfull]
      exact h'.flags
    · rw [hbefore.nextId] at hopen ⊢
      refine (hall.registered _).mpr ⟨length_subscribers_lt, ?_⟩
      exact fun hdismissed => closed_iff.mp hdismissed.closed hopen

/-- A machine with two observers: a channel, and one that closes by itself, as the fourth event finds. -/
def attended : Machine :=
  (((new .headless).subscribe).2.subscribe false [false, false, false, true]).2

/-- A third observer subscribes, the first hangs up, and in the run that follows the second closes: the
third hears all four events and is the one that is left. -/
theorem informed_during_run : ∃ m : Machine, (new .headless).IsNew ∧
    Undergoes (new .headless) [.subscribed true, .subscribed false] attended ∧
    Undergoes (attended.subscribe false).2
      [.hungUp 0, .announced (.pausedChanged false), .announced (.haltedChanged false),
        .announced (.pausedChanged false), .closed 1, .announced (.haltedChanged true)] m ∧
    Informed attended m false [] [.subscribed true, .subscribed false]
      [.hungUp 0, .announced (.pausedChanged false), .announced (.haltedChanged false),
        .announced (.pausedChanged false), .closed 1, .announced (.haltedChanged true)] ∧
    m.observers.heard 2 = [.pausedChanged false, .haltedChanged false, .pausedChanged false,
      .haltedChanged true] ∧
    m.observers.heard 1 = m.observers.heard 2 ∧ m.observers.heard 0 = [] ∧
    m.observers.registered = [2] := by
  have hnew : (new .headless).IsNew := .inl ⟨_, rfl⟩
  have hfirst : (new .headless).execute 0 (.subscribe true []) = some (.ok (), _) := rfl
  have hsecond : execute 0 _ (.subscribe false [false, false, false, true]) =
      some (.ok (), attended) := rfl
  have hattended : Undergoes (new .headless) [.subscribed true, .subscribed false] attended :=
    (Undergoes.refl.command hfirst).command hsecond
  have hhangUp : (attended.subscribe false).2.execute 0 (.hangUp 0) =
      some (.ok (), (attended.subscribe false).2.hangUp 0) := rfl
  have hrun : (((attended.subscribe false).2.hangUp 0).execute 2 .run).map (·.2.observers) = some
      { list := [{ id := 2, channel := false }]
        delivered := [(2, .haltedChanged true), (1, .haltedChanged true), (2, .pausedChanged false),
          (1, .pausedChanged false), (2, .haltedChanged false), (1, .haltedChanged false),
          (2, .pausedChanged false), (1, .pausedChanged false)]
        announced := [.haltedChanged true, .pausedChanged false, .haltedChanged false,
          .pausedChanged false]
        nextId := 3 } := by decide +kernel
  obtain ⟨⟨r, m⟩, hm, hobservers⟩ := Option.map_eq_some_iff.mp hrun
  dsimp only at hobservers
  have hnews : ((attended.subscribe false).2.hangUp 0).newsTo m = [.pausedChanged false,
      .haltedChanged false, .pausedChanged false, .haltedChanged true] := by
    rw [newsTo, hobservers]
    decide +kernel
  have hnotices : ((attended.subscribe false).2.hangUp 0).observers.notices [.pausedChanged false,
      .haltedChanged false, .pausedChanged false, .haltedChanged true] =
      [.announced (.pausedChanged false), .announced (.haltedChanged false),
        .announced (.pausedChanged false), .closed 1, .announced (.haltedChanged true)] := by
    decide +kernel
  have hleft : Undergoes (attended.subscribe false).2 [.hungUp 0]
      ((attended.subscribe false).2.hangUp 0) := Undergoes.refl.command hhangUp
  have hundergoes := hleft.command hm
  rw [notices_of_not_ofObserver (by simp [Command.OfObserver]), hnews, hnotices] at hundergoes
  have hinformed := informed_of_undergoes hnew hattended hundergoes
  have hopen := hinformed.steady nofun (by decide)
  have hheard := (hinformed.replayed hopen).1
  refine ⟨m, hnew, hattended, hundergoes, hinformed, hheard, ?_⟩
  simp [Observers.heard, Observers.calls, Observers.registered, hobservers, heardIn]

end Machine

end PixelMachine
