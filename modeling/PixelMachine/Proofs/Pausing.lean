import PixelMachine.Proofs.Following
import PixelMachine.Proofs.Reachable

/-! Pausing never changes what a program computes. Whatever way a machine takes through pauses,
breakpoints and single steps until it halts, one undisturbed run comes to the same end. -/
namespace PixelMachine

namespace Machine

/-- The undisturbed run from `s` comes by the outcome of a command that was given to another machine. -/
inductive Matches (s : Machine) : Outcome → Prop where
  | going {a b : Machine} : Turns none s a → Follows a b → Matches s (.ok (), b)
  | failed {a a' b : Machine} {e : Fault} : Turns none s a → Ends none a (.error e, a') →
      Follows a' b → b.halted = true → Matches s (.error e, b)

theorem matches_turns {depth : Option Nat} {s a b b' : Machine} (hs : Turns none s a)
    (h : Follows a b) (ht : Turns depth b b') : ∃ a', Turns none s a' ∧ Follows a' b' := by
  induction ht with
  | refl => exact ⟨a, hs, h⟩
  | tail _ ht ih =>
    obtain ⟨a', ha, hf⟩ := ih
    obtain ⟨hh, _, hstep, _⟩ := ht
    obtain ⟨a'', ha', hf'⟩ := hf.applyRequests.moves hh hstep
    exact ⟨a'', ha.trans ha', hf'.checkBreakpoint⟩

/-- However long the second machine is driven, the undisturbed run keeps up. -/
theorem matches_drive {fuel : Nat} {depth : Option Nat} {s a b b' : Machine}
    {r : Except Fault Unit} (hs : Turns none s a) (h : Follows a b)
    (hd : drive fuel depth b = some (r, b')) : Matches s (r, b') := by
  obtain ⟨l, hl, he⟩ := drive_eq_some_iff.mp ⟨fuel, hd⟩
  obtain ⟨c, hc, hf⟩ := matches_turns hs h hl
  cases he with
  | stopped _ => exact .going hc hf.applyRequests
  | failed hh _ hstep =>
    obtain ⟨c', hc', hf'⟩ := hf.applyRequests.fails hh hstep
    exact .failed hc hc' hf' (halted_of_step_error hstep)
  | returned hh _ hstep _ =>
    obtain ⟨c', hc', hf'⟩ := hf.applyRequests.moves hh hstep
    exact .going (hc.trans hc') hf'.checkBreakpoint

theorem Follows.resumed {a b : Machine} (h : Follows a b) : Follows a b.resumed := by
  have hcontrol := h.unstopped.control.takePause Requests.closed_stop_eq_false
  exact h.right rfl rfl ⟨hcontrol, h.unstopped.keyboard, h.unstopped.log⟩

theorem matches_singleStep {s a m p m' : Machine} {r : Except Fault Unit} (hs : Turns none s a)
    (h : Follows a p) (hp : m.applyRequests.enterPaused = .ok p) (hh : p.halted = false)
    (hstep : m.singleStep = some (r, m')) : Matches s (r, m') := by
  cases singleSteps_of_eq hstep with
  | refused hp' => cases hp.symm.trans hp'
  | failed hp' hfail =>
    cases hp.symm.trans hp'
    obtain ⟨a', ha, hf⟩ := h.fails hh hfail
    exact .failed hs ha hf (halted_of_step_error hfail)
  | done hp' hok =>
    cases hp.symm.trans hp'
    obtain ⟨a', ha, hf⟩ := h.moves hh hok
    exact .going (hs.trans ha) hf.applyRequests

theorem matches_stepOut {fuel : Nat} {s a m p m' : Machine} {r : Except Fault Unit}
    (hs : Turns none s a) (h : Follows a p) (hp : m.applyRequests.enterPaused = .ok p)
    (hout : m.stepOut fuel = some (r, m')) : Matches s (r, m') := by
  cases stepsOut_of_eq hout with
  | refused hp' => cases hp.symm.trans hp'
  | failed hp' hd | halted hp' hd _ =>
    cases hp.symm.trans hp'
    exact matches_drive hs (h.setPaused false) hd
  | done hp' hd _ =>
    cases hp.symm.trans hp'
    cases matches_drive hs (h.setPaused false) hd with
    | going ha hf => exact .going ha (hf.setPaused true)

/-- A command that returns leaves the machine halted or paused. -/
theorem halted_or_paused_of_resume {fuel : Nat} {m m' : Machine} {r : Except Fault Unit}
    (h : m.resume fuel = some (r, m')) : m'.halted = true ∨ m'.paused = true := by
  unfold resume at h
  split at h
  · next hh =>
    cases h
    exact .inl hh
  · obtain ⟨l, _, he⟩ := drive_eq_some_iff.mp ⟨fuel, h⟩
    cases he with
    | stopped hst => simpa using hst
    | failed _ _ hs => exact .inl (halted_of_step_error hs)
    | returned _ _ _ hd => cases hd

theorem paused_of_enterPaused {m p : Machine} (h : m.enterPaused = .ok p) : p.paused = true := by
  rcases enterPaused_eq_ok h with ⟨_, rfl⟩ | ⟨_, hp, rfl⟩
  · rfl
  · exact hp

theorem halted_or_paused_of_singleStep {m p m' : Machine} {r : Except Fault Unit}
    (hp : m.applyRequests.enterPaused = .ok p) (h : m.singleStep = some (r, m')) :
    m'.halted = true ∨ m'.paused = true := by
  cases singleSteps_of_eq h with
  | refused hp' => cases hp.symm.trans hp'
  | failed _ hfail => exact .inl (halted_of_step_error hfail)
  | done hp' hok =>
    obtain ⟨_, _, hkept, _⟩ := step_keeps hok
    rw [applyRequests_paused, hkept, paused_of_enterPaused hp', Bool.true_or]
    exact .inr rfl

theorem halted_or_paused_of_stepOut {fuel : Nat} {m p m' : Machine} {r : Except Fault Unit}
    (hp : m.applyRequests.enterPaused = .ok p) (h : m.stepOut fuel = some (r, m')) :
    m'.halted = true ∨ m'.paused = true := by
  cases stepsOut_of_eq h with
  | refused hp' => cases hp.symm.trans hp'
  | failed _ hd =>
    obtain ⟨l, _, he⟩ := drive_eq_some_iff.mp ⟨fuel, hd⟩
    cases he with
    | failed _ _ hs => exact .inl (halted_of_step_error hs)
  | halted _ _ hh => exact .inl hh
  | done => exact .inr rfl

/-- The outcomes that a machine comes to when it is started and then given commands to go on for as
long as it is not halted. Between commands the breakpoints may change, and so may the requests, but
nobody asks for a stop. -/
inductive Session (m : Machine) : Outcome → Prop where
  | run {fuel : Nat} {o : Outcome} : m.run fuel = some o → Session m o
  | start {fuel : Nat} {c : Command} {o : Outcome} : m.halted = true →
      c = .singleStep ∨ c = .stepOut → m.execute fuel c = some o → Session m o
  | next {fuel : Nat} {c : Command} {r : Except Fault Unit} {b : Machine} {o : Outcome} :
      Session m (r, b) → b.halted = false → c = .resume ∨ c = .singleStep ∨ c = .stepOut →
      b.execute fuel c = some o → Session m o
  | breakpoints {r : Except Fault Unit} {b : Machine} (breakpoints : IndexSet) :
      Session m (r, b) → Session m (r, { b with breakpoints := breakpoints })
  | requests {r : Except Fault Unit} {b : Machine} {control : Control} :
      Session m (r, b) → control.Meets (fun r => r.stop = false) →
      Session m (r, { b with control := control })

end Machine

/-- Two machines that compute the same when they start over: what a reset leaves alone is the same,
but for what texts trigger. -/
structure Work.StartsAlike (v w : Work) : Prop where
  program : v.program = w.program
  config : v.config = w.config
  screen : v.screen = w.screen
  random : v.random = w.random
  text : v.log.text = w.log.text
  kept : v.log.kept = w.log.kept
  keys : v.keyboard.keys = w.keyboard.keys

namespace Machine

/-- The machine whose driving is the run. -/
def started (m : Machine) : Machine := (m.reset.setHalted false).resumed

theorem run_eq_drive (fuel : Nat) (m : Machine) : m.run fuel = drive fuel none m.started :=
  resume_of_running rfl fuel

theorem follows_started {a b b' : Machine} (h : a.work.StartsAlike b.work)
    (hfree : a.breakpoints = .empty) (hquiet : a.Expects (· = {})) (hw : b'.work = b.reset.work)
    (hh : b'.halted = false) (hb : b'.Meets (fun r => r.stop = false)) : Follows a.started b' := by
  have hreset := meets_reset Requests.closed_empty hquiet
  have hcontrol := hreset.control.takePause Requests.closed_empty
  refine ⟨?_, .inl ?_, hh.symm, ⟨hcontrol, hreset.keyboard, hreset.log⟩, hfree, rfl, hb⟩
  · rw [hw]
    exact ⟨h.program, h.config, h.screen, h.random, rfl, rfl, rfl, rfl, h.text, h.kept⟩
  · rw [hw]
    exact ⟨h.keys, 0, .refl _⟩

theorem Matches.right {s b b' : Machine} {r : Except Fault Unit} (h : Matches s (r, b))
    (hw : b'.work = b.work) (hh : b'.halted = b.halted)
    (hb : b.Meets (fun r => r.stop = false) → b'.Meets (fun r => r.stop = false)) :
    Matches s (r, b') := by
  cases h with
  | going ha hf => exact .going ha (hf.right hw hh (hb hf.unstopped))
  | failed ha he hf hhalted =>
    exact .failed ha he (hf.right hw hh (hb hf.unstopped)) (hh.trans hhalted)

/-- Whatever happens in a session of the second machine, the run of the first comes by. -/
theorem Session.matches_run {m₁ m₂ : Machine} {o : Outcome} (hs : Session m₂ o)
    (h : m₁.work.StartsAlike m₂.work) (hfree : m₁.breakpoints = .empty)
    (hquiet : m₁.Expects (· = {})) (hunstopped : m₂.Expects (fun r => r.stop = false)) :
    Matches m₁.started o ∧ (o.2.halted = true ∨ o.2.paused = true) := by
  have hP := Requests.closed_stop_eq_false
  -- Along the session the run keeps up, and between commands a machine is halted or paused.
  induction hs with
  | run hrun =>
    have hreset := meets_reset hP hunstopped
    have hstart : Follows m₁.started m₂.started :=
      follows_started h hfree hquiet rfl rfl ⟨hreset.control.takePause hP, hreset.keyboard, hreset.log⟩
    refine ⟨matches_drive .refl hstart ((run_eq_drive _ m₂).symm.trans hrun), ?_⟩
    exact halted_or_paused_of_resume hrun
  | start hhalted hcommand hexecute =>
    -- What was requested before is looked at, but the reset forgets it.
    have hreset := meets_reset hP hunstopped.applyRequests
    have happly : m₂.applyRequests.halted = true := by
      rw [applyRequests_halted, hhalted, Bool.true_or]
    have hp := enterPaused_of_halted happly
    have hstart : Follows m₁.started ((m₂.applyRequests.reset.setHalted false).setPaused true) := by
      rw [← work_applyRequests m₂] at h
      exact follows_started h hfree hquiet rfl rfl ((hreset.setHalted false).setPaused true)
    rcases hcommand with rfl | rfl
    · exact ⟨matches_singleStep .refl hstart hp rfl hexecute,
        halted_or_paused_of_singleStep hp hexecute⟩
    · exact ⟨matches_stepOut .refl hstart hp hexecute, halted_or_paused_of_stepOut hp hexecute⟩
  | @next fuel c r b o _ hrunning hcommand hexecute ih =>
    obtain ⟨hmatch, hsettled⟩ := ih
    have hpaused : b.paused = true := by
      rcases hsettled with hh | hp
      · rw [hrunning] at hh
        cases hh
      · exact hp
    cases hmatch with
    | failed _ _ _ hh =>
      rw [hrunning] at hh
      cases hh
    | going ha hf =>
      have happly := hf.applyRequests
      have hrun : b.applyRequests.halted = false := by
        rw [← happly.halted, hf.halted, hrunning]
      have hpause : b.applyRequests.paused = true := by
        rw [applyRequests_paused, hpaused, Bool.true_or]
      have hp := enterPaused_of_paused hrun hpause
      rcases hcommand with rfl | rfl | rfl
      · exact ⟨matches_drive ha hf.resumed ((resume_of_running hrunning fuel).symm.trans hexecute),
          halted_or_paused_of_resume hexecute⟩
      · exact ⟨matches_singleStep ha happly hp hrun hexecute,
          halted_or_paused_of_singleStep hp hexecute⟩
      · exact ⟨matches_stepOut ha happly hp hexecute, halted_or_paused_of_stepOut hp hexecute⟩
  | breakpoints _ _ ih =>
    exact ⟨ih.1.right rfl rfl fun hb => ⟨hb.control, hb.keyboard, hb.log⟩, ih.2⟩
  | requests _ hcontrol ih =>
    exact ⟨ih.1.right rfl rfl fun hb => ⟨hcontrol, hb.keyboard, hb.log⟩, ih.2⟩

/-- Pausing never changes what a program computes. If one machine is started and driven through any
pauses, breakpoints and single steps until it halts, then the undisturbed run of another one that
starts alike comes to an end with the same result, in the same state and after the same keys. It may
only have made fewer attempts to read a key. -/
theorem pausing_changes_nothing {m₁ m₂ b : Machine} {r : Except Fault Unit}
    (h : m₁.work.StartsAlike m₂.work) (hfree : m₁.breakpoints = .empty)
    (hquiet : m₁.Expects (· = {})) (hunstopped : m₂.Expects (fun r => r.stop = false))
    (hs : Session m₂ (r, b)) (hb : b.halted = true) :
    ∃ fuel a, m₁.run fuel = some (r, a) ∧ a.halted = true ∧ a.work.Alike b.work ∧
      a.work.Level b.work := by
  -- A halted machine does not wait for a key, so nothing is left to catch up.
  have hend {a : Machine} (hf : Follows a b) : a.halted = true ∧ a.work.Level b.work := by
    have hh : a.halted = true := hf.halted.trans hb
    rcases hf.apart with hlevel | ⟨hrunning, _⟩
    · exact ⟨hh, hlevel⟩
    · rw [hh] at hrunning
      cases hrunning
  cases (hs.matches_run h hfree hquiet hunstopped).1 with
  | @going a _ ha hf =>
    obtain ⟨hh, hlevel⟩ := hend hf.looked
    obtain ⟨fuel, hfuel⟩ := drive_eq_some_iff.mpr ⟨a, ha, .stopped (by simp [hh])⟩
    exact ⟨fuel, a.applyRequests, (run_eq_drive fuel m₁).trans hfuel, hh, hf.looked.alike, hlevel⟩
  | @failed a a' _ e ha he hf =>
    obtain ⟨hh, hlevel⟩ := hend hf
    obtain ⟨fuel, hfuel⟩ := drive_eq_some_iff.mpr ⟨a, ha, he⟩
    exact ⟨fuel, a', (run_eq_drive fuel m₁).trans hfuel, hh, hf.alike, hlevel⟩

/-- A machine whose program reads a key and halts. -/
def reading (script : List Poll) : Machine :=
  { build .headless {} with
    program := ⟨#[⟨.getchar, none⟩, ⟨.halt, none⟩], .empty⟩
    keyboard := { script := script } }

/-- Such a machine that is asked to pause while it waits for the key, and that has a breakpoint at its
last instruction. -/
def disturbedReading : Machine :=
  ((reading [{ requests := { pause := true } }, { key := some .enter }]).addBreakpoint 2).2

theorem disturbed_reading_changes_nothing :
    ∃ b fuel a, Session disturbedReading (.ok (), b) ∧ b.halted = true ∧ b.trace.instructions = 3 ∧
      (reading [{}, { key := some .enter }]).run fuel = some (.ok (), a) ∧ a.work.Alike b.work ∧
      a.work.Level b.work := by
  -- The pause interrupts the first attempt to read, and the breakpoint stops before the last step.
  have hcommands : ∃ b₁, disturbedReading.run 2 = some (.ok (), b₁) ∧ b₁.halted = false ∧
      ∃ b₂, b₁.resume 2 = some (.ok (), b₂) ∧ b₂.halted = false ∧
        ∃ b₃, b₂.singleStep = some (.ok (), b₃) ∧ b₃.halted = true ∧ b₃.trace.instructions = 3 :=
    ⟨_, rfl, rfl, _, rfl, rfl, _, rfl, rfl, rfl⟩
  obtain ⟨b₁, hrun, hgoing₁, b₂, hresume, hgoing₂, b₃, hstep, hhalted, hcount⟩ := hcommands
  have hresumed := @Session.next disturbedReading 2 .resume _ b₁ _ (.run hrun) hgoing₁ (.inl rfl) hresume
  have hsession := @Session.next _ 0 .singleStep _ b₂ _ hresumed hgoing₂ (.inr (.inl rfl)) hstep
  have hquiet : (reading [{}, { key := some .enter }]).Expects (· = {}) :=
    ⟨nofun, ⟨by simp [reading], rfl⟩, nofun⟩
  have hunstopped : disturbedReading.Expects (fun r => r.stop = false) :=
    ⟨nofun, ⟨by simp [disturbedReading, reading, addBreakpoint], rfl⟩, nofun⟩
  have hstart : (reading [{}, { key := some .enter }]).work.StartsAlike disturbedReading.work :=
    ⟨rfl, rfl, rfl, rfl, rfl, rfl, rfl⟩
  obtain ⟨fuel, a, hend, _, halike, hlevel⟩ :=
    pausing_changes_nothing hstart rfl hquiet hunstopped hsession hhalted
  exact ⟨b₃, fuel, a, hsession, hhalted, hcount, hend, halike, hlevel⟩

end Machine

end PixelMachine
