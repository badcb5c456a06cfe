import PixelMachine.Proofs.Asking
import PixelMachine.Proofs.Pausing

/-! No request is lost. Others may ask for a pause or a stop at any moment; wherever the driving loop
is then, it starts one more instruction at most before it carries the request out or returns with the
request still waiting. -/
namespace PixelMachine

/-- The commands that neither start over nor look whether a stop is asked for. -/
def Command.Idle : Command → Prop
  | .load _ | .reset | .run | .resume | .singleStep | .stepOut => False
  | _ => True

namespace Machine

open Control

/-- The states that the driving loop passes while it is at the boundary `b` and executes the
instruction there, between its looks at the requests. -/
inductive Passes (b : Machine) : Machine → Prop where
  | boundary : Passes b b
  | stopTaken : Passes b b.obeyStop
  | pauseTaken : Passes b b.applyRequests
  | begun {index : Nat} {i : Instruction} : b.applyRequests.halted = false →
      b.applyRequests.paused = false → b.applyRequests.current = .ok (index, i) →
      Passes b (b.applyRequests.begun index i b.applyRequests.stack)
  | waiting {index : Nat} {i : Instruction} {x : Machine} : b.applyRequests.halted = false →
      b.applyRequests.paused = false → b.applyRequests.current = .ok (index, i) →
      i.opcode = .getchar → Waits (b.applyRequests.begun index i b.applyRequests.stack) x → Passes b x
  | done {r : Except Fault Unit} {x : Machine} : b.applyRequests.halted = false →
      b.applyRequests.paused = false → b.applyRequests.step = some (r, x) → Passes b x

/-- A request is carried out, or it still waits. -/
def Heeds (m : Machine) (w : Wish) : Prop :=
  m.halted = true ∨ w = .pause ∧ m.paused = true ∨ m.control.Asks w

/-- What is asked for at a boundary is carried out there, and a stop comes first. -/
theorem settled_of_asks {b : Machine} {w : Wish} (h : b.control.Asks w) :
    b.applyRequests.halted = true ∨ w = .pause ∧ b.applyRequests.paused = true := by
  cases w with
  | stop =>
    have hstop : b.control.sync.pending.stop = true := h
    left
    rw [applyRequests_halted, hstop, Bool.or_true]
  | pause =>
    have hpause : b.control.sync.sync.pending.pause = true := keeps_sync b.control .pause h
    rcases hh : b.applyRequests.halted with _ | _
    · right
      rw [applyRequests_paused, hpause, hh]
      simp
    · exact .inl rfl

/-- How the driving loop answers a request at a boundary: it ends there, or it executes the instruction
and the request still waits. No more than `limit` instructions have been started then. -/
inductive Answers (b : Machine) (w : Wish) (limit : Nat) : Prop where
  | ends : (b.applyRequests.halted || b.applyRequests.paused) = true → b.applyRequests.Heeds w →
      b.applyRequests.trace.instructions ≤ limit → Answers b w limit
  | executes {r : Except Fault Unit} {m' : Machine} : b.applyRequests.halted = false →
      b.applyRequests.paused = false → b.applyRequests.step = some (r, m') → m'.control.Asks w →
      m'.trace.instructions ≤ limit → Answers b w limit

theorem answers_of_settled {b : Machine} {w : Wish} {limit : Nat}
    (h : b.applyRequests.halted = true ∨ w = .pause ∧ b.applyRequests.paused = true)
    (hl : b.trace.instructions ≤ limit) : Answers b w limit := by
  rw [← trace_applyRequests] at hl
  rcases h with hh | ⟨hw, hp⟩
  · exact .ends (by simp [hh]) (.inl hh) hl
  · exact .ends (by simp [hp]) (.inr (.inl ⟨hw, hp⟩)) hl

/-- A request that comes too late for the boundary is answered after one instruction. -/
theorem answers_of_late {b : Machine} {w : Wish} (h : b.applyRequests.control.Asks w) :
    Answers b w (b.trace.instructions + 1) := by
  have htrace := trace_applyRequests b
  by_cases hst : (b.applyRequests.halted || b.applyRequests.paused) = true
  · exact .ends hst (.inr (.inr h)) (by rw [htrace]; omega)
  · obtain ⟨hh, hp⟩ : b.applyRequests.halted = false ∧ b.applyRequests.paused = false := by
      simpa using hst
    obtain ⟨r, m', hs, hask⟩ := step_of_asks hh hp h
    have hcount := instructions_step hs
    rw [htrace] at hcount
    exact .executes hh hp hs hask hcount

theorem Answers.mono {b : Machine} {w : Wish} {limit limit' : Nat} (h : Answers b w limit)
    (hl : limit ≤ limit') : Answers b w limit' := by
  cases h with
  | ends hst hheeds hcount => exact .ends hst hheeds (by omega)
  | executes hh hp hs hask hcount => exact .executes hh hp hs hask (by omega)

/-- Wherever the loop is when the request is made, it starts one more instruction at most. -/
theorem Passes.answers {b x : Machine} {w : Wish} (hx : Passes b x) (h : x.control.Asks w) :
    Answers b w (x.trace.instructions + 1) := by
  have htrace := trace_applyRequests b
  cases hx with
  | boundary => exact answers_of_settled (settled_of_asks h) (Nat.le_succ _)
  | stopTaken =>
    have hcount : b.obeyStop.trace = b.trace := congrArg Work.trace (work_obeyStop b)
    rw [hcount]
    cases w with
    | stop =>
      -- The stop was made after the look for it, and taking a pause leaves it.
      apply answers_of_late
      rw [applyRequests_eq, obeyPause_control]
      exact asks_stop_takePause h
    | pause =>
      have hpause : b.obeyStop.control.sync.pending.pause = true := h
      refine answers_of_settled ?_ (Nat.le_succ _)
      rw [applyRequests_eq, obeyPause_halted, obeyPause_paused, hpause]
      rcases b.obeyStop.halted with _ | _
      · simp
      · simp
  | pauseTaken =>
    rw [htrace]
    exact answers_of_late h
  | @begun index i hh hp hc =>
    have hlate : b.applyRequests.control.Asks w := h
    refine (answers_of_late hlate).mono ?_
    change _ ≤ b.applyRequests.trace.instructions + 1 + 1
    rw [htrace]
    omega
  | waiting hh hp hc hop hw =>
    obtain ⟨m', hs, hask⟩ := step_of_waits hh hp hc hop hw h
    have hcount := instructions_step hs
    rw [hw.trace_eq]
    exact .executes hh hp hs hask (Nat.le_succ_of_le hcount)
  | done hh hp hs => exact .executes hh hp hs h (Nat.le_succ _)

/-- The driving loop comes to an end once something is asked for. -/
theorem exists_end_of_asks {depth : Option Nat} {m b x : Machine} {w : Wish}
    (hb : Turns depth m b) (hx : Passes b x) (h : x.control.Asks w) :
    ∃ l r m', Turns depth m l ∧ Ends depth l (r, m') ∧ m'.Heeds w ∧
      m'.trace.instructions ≤ x.trace.instructions + 1 := by
  cases hx.answers h with
  | ends hst hheeds hcount => exact ⟨b, _, _, hb, .stopped hst, hheeds, hcount⟩
  | @executes r m' hh hp hs hask hcount =>
    rw [← trace_checkBreakpoint] at hcount
    rw [← control_checkBreakpoint] at hask
    cases r with
    | error e =>
      rw [trace_checkBreakpoint] at hcount
      exact ⟨b, _, _, hb, .failed hh hp hs, .inl (halted_of_step_error hs), hcount⟩
    | ok _ =>
      rcases hd : depth.any (m'.returns.length < ·) with _ | _
      · -- The loop goes on to the next boundary, where it sees the request.
        have hturn : Turn depth b m'.checkBreakpoint := .intro hh hp hs hd
        have hsettled := settled_of_asks hask
        have hheeds : m'.checkBreakpoint.applyRequests.Heeds w := by
          rcases hsettled with hhalted | hpaused
          · exact .inl hhalted
          · exact .inr (.inl hpaused)
        have hst : (m'.checkBreakpoint.applyRequests.halted ||
            m'.checkBreakpoint.applyRequests.paused) = true := by
          rcases hsettled with hhalted | ⟨_, hpaused⟩
          · rw [hhalted, Bool.true_or]
          · rw [hpaused, Bool.or_true]
        rw [← trace_applyRequests] at hcount
        exact ⟨_, _, _, hb.tail hturn, .stopped hst, hheeds, hcount⟩
      · exact ⟨b, _, _, hb, .returned hh hp hs hd, .inr (.inr hask), hcount⟩

theorem drive_of_asks {depth : Option Nat} {m b x : Machine} {w : Wish} (hb : Turns depth m b)
    (hx : Passes b x) (h : x.control.Asks w) :
    (∃ fuel o, drive fuel depth m = some o) ∧ ∀ fuel r m', drive fuel depth m = some (r, m') →
      m'.Heeds w ∧ m'.trace.instructions ≤ x.trace.instructions + 1 := by
  obtain ⟨l, r, m', hl, he, hheeds, hcount⟩ := exists_end_of_asks hb hx h
  obtain ⟨fuel, hd⟩ := drive_eq_some_iff.mpr ⟨l, hl, he⟩
  refine ⟨⟨fuel, _, hd⟩, ?_⟩
  intro fuel' r' m'' hd'
  cases drive_unique hd hd'
  exact ⟨hheeds, hcount⟩

theorem Heeds.setPaused {m : Machine} {w : Wish} (h : m.Heeds w) : (m.setPaused true).Heeds w := by
  rcases h with hh | ⟨hw, _⟩ | hask
  · exact .inl hh
  · exact .inr (.inl ⟨hw, rfl⟩)
  · exact .inr (.inr hask)

/-- The states of a command that drives the machine, between its looks at the requests, from the
driving loop on. -/
inductive Driving (m : Machine) : Command → Machine → Prop where
  | run {b x : Machine} : Turns none m.started b → Passes b x → Driving m .run x
  | resume {b x : Machine} : m.halted = false → Turns none m.resumed b → Passes b x →
      Driving m .resume x
  | stepOut {p b x : Machine} : m.applyRequests.enterPaused = .ok p →
      Turns (some p.returns.length) (p.setPaused false) b → Passes b x → Driving m .stepOut x

/-- The same from the reset of a run on, and from the checks on that the other commands begin with. -/
inductive During (m : Machine) : Command → Machine → Prop where
  | starting : During m .run (m.reset.setHalted false)
  | resuming : m.halted = false → During m .resume m
  | driving {c : Command} {x : Machine} : Driving m c x → During m c x

/-- The command returns, and the machine that it leaves satisfies a condition. -/
def Returns (m : Machine) (c : Command) (Q : Machine → Prop) : Prop :=
  (∃ fuel o, m.execute fuel c = some o) ∧ ∀ fuel r m', m.execute fuel c = some (r, m') → Q m'

/-- A request that is made in the driving loop lets one more instruction start at most, and when the
command returns it has been carried out or still waits. -/
theorem Driving.returns {m x : Machine} {c : Command} {w : Wish} (hx : Driving m c x)
    (h : x.control.Asks w) :
    Returns m c fun m' => m'.Heeds w ∧ m'.trace.instructions ≤ x.trace.instructions + 1 := by
  cases hx with
  | run hb hx =>
    obtain ⟨⟨fuel, o, hd⟩, hall⟩ := drive_of_asks hb hx h
    refine ⟨⟨fuel, o, (run_eq_drive fuel m).trans hd⟩, ?_⟩
    intro fuel r m' he
    exact hall fuel r m' ((run_eq_drive fuel m).symm.trans he)
  | resume hrunning hb hx =>
    obtain ⟨⟨fuel, o, hd⟩, hall⟩ := drive_of_asks hb hx h
    refine ⟨⟨fuel, o, (resume_of_running hrunning fuel).trans hd⟩, ?_⟩
    intro fuel r m' he
    exact hall fuel r m' ((resume_of_running hrunning fuel).symm.trans he)
  | stepOut hp hb hx =>
    obtain ⟨⟨fuel, o, hd⟩, hall⟩ := drive_of_asks hb hx h
    obtain ⟨o', ho'⟩ := stepOut_of_drive hp hd
    refine ⟨⟨fuel, o', ho'⟩, ?_⟩
    intro fuel r m' he
    cases stepsOut_of_eq he with
    | refused hp' => cases hp.symm.trans hp'
    | failed hp' hd | halted hp' hd _ =>
      cases hp.symm.trans hp'
      exact hall fuel _ _ hd
    | done hp' hd _ =>
      cases hp.symm.trans hp'
      obtain ⟨hheeds, hcount⟩ := hall fuel _ _ hd
      exact ⟨hheeds.setPaused, hcount⟩

/-- A stop may be asked for earlier, since a pause is all that is forgotten when the driving begins. -/
theorem During.exists_driving {m x : Machine} {c : Command} (hx : During m c x)
    (h : x.control.Asks .stop) :
    ∃ y, Driving m c y ∧ y.control.Asks .stop ∧ y.trace.instructions = x.trace.instructions := by
  cases hx with
  | starting => exact ⟨m.started, .run .refl .boundary, asks_stop_takePause h, rfl⟩
  | resuming hrunning => exact ⟨m.resumed, .resume hrunning .refl .boundary, asks_stop_takePause h, rfl⟩
  | driving hd => exact ⟨x, hd, h, rfl⟩

/-- A command that drives the machine leaves it halted or paused. -/
theorem Driving.halted_or_paused {fuel : Nat} {m x m' : Machine} {c : Command}
    {r : Except Fault Unit} (hx : Driving m c x) (h : m.execute fuel c = some (r, m')) :
    m'.halted = true ∨ m'.paused = true := by
  cases hx with
  | run =>
    have hresume : (m.reset.setHalted false).resume fuel = some (r, m') := h
    exact halted_or_paused_of_resume hresume
  | resume => exact halted_or_paused_of_resume h
  | stepOut hp => exact halted_or_paused_of_stepOut hp h

/-- What a machine comes to while it is given such commands only. -/
inductive Lapse (m : Machine) : Machine → Prop where
  | refl : Lapse m m
  | command {fuel : Nat} {b b' : Machine} {c : Command} {r : Except Fault Unit} : Lapse m b → c.Idle →
      b.execute fuel c = some (r, b') → Lapse m b'

theorem keeps_execute {fuel : Nat} {m m' : Machine} {c : Command} {r : Except Fault Unit}
    (hc : c.Idle) (h : m.execute fuel c = some (r, m')) : m.control.Keeps m'.control := by
  cases c with
  | load | reset | run | resume | singleStep | stepOut => cases hc
  | step => exact keeps_step h
  | request q =>
    cases h
    exact keeps_request _ q
  | pause | stop | addBreakpoint | removeBreakpoint | clearBreakpoints | subscribe | hangUp =>
    cases h
    exact .refl _
  | setWidth width =>
    simp only [Machine.execute, setWidth] at h
    split at h
    · cases h
      exact .refl _
    · cases h
      exact .refl _
  | setHeight height =>
    simp only [Machine.execute, setHeight] at h
    split at h
    · cases h
      exact .refl _
    · cases h
      exact .refl _

theorem Lapse.keeps {m b : Machine} (h : Lapse m b) : m.control.Keeps b.control := by
  induction h with
  | refl => exact .refl _
  | command _ hc he ih => exact ih.trans (keeps_execute hc he)

/-- A stop that waits halts a machine that is resumed, before its first instruction. -/
theorem resume_of_asks_stop {m : Machine} (hh : m.halted = false) (h : m.control.Asks .stop)
    (fuel : Nat) :
    ∃ m', m.resume (fuel + 1) = some (.ok (), m') ∧ m'.halted = true ∧ m'.work = m.work := by
  have hstop : m.resumed.applyRequests.halted = true := by
    have hask : m.resumed.control.sync.pending.stop = true := asks_stop_takePause h
    rw [applyRequests_halted, hask, Bool.or_true]
  have hends : Ends none m.resumed (.ok (), m.resumed.applyRequests) := .stopped (by simp [hstop])
  refine ⟨m.resumed.applyRequests, ?_, hstop, work_applyRequests _⟩
  rw [resume_of_running hh, drive_of_ends hends]

/-- The machine as it would be if `stop` had just been called, in place of the stop that waits. -/
def stopCalled (m : Machine) : Machine := { m with control := m.control.withoutStop }.stop

theorem applyRequests_stopCalled {m : Machine} (h : m.control.Asks .stop) :
    m.stopCalled.applyRequests = m.applyRequests := by
  have htaken : m.stopCalled.control.takeStop = (false, m.control.takeStop.2) :=
    takeStop_withoutStop m.control
  have hnone : m.stopCalled.control.sync.pending.stop = false := congrArg Prod.fst htaken
  rcases applyRequests_of_no_stop hnone with ha | ⟨_, hrunning⟩
  · rw [ha, htaken, applyRequests_of_stop h]
    rfl
  · cases hrunning

/-- No request is lost, whatever others ask for between any two looks of the machine at the requests. -/
theorem no_request_is_lost :
    -- A stop that is asked for after a run has been reset, or after the checks of another command.
    (∀ m c x, During m c x → x.control.Asks .stop → Returns m c fun m' =>
      m'.trace.instructions ≤ x.trace.instructions + 1 ∧
        (m'.halted = true ∨ m'.control.Asks .stop)) ∧
    -- A stop that still waits when the next command is given.
    (∀ m b, m.control.Asks .stop → Lapse m b →
      (b.halted = false → ∀ fuel, ∃ b', b.resume (fuel + 1) = some (.ok (), b') ∧
        b'.halted = true ∧ b'.work = b.work) ∧
      b.singleStep = b.stopCalled.singleStep ∧
      ∀ fuel, b.stepOut fuel = b.stopCalled.stepOut fuel) ∧
    -- A pause that is asked for while a command drives the machine.
    (∀ m c x, Driving m c x → x.control.Asks .pause → Returns m c fun m' =>
      m'.trace.instructions ≤ x.trace.instructions + 1 ∧
        (m'.halted = true ∨ m'.paused = true)) ∧
    -- Both at once between two instructions: the stop is carried out, the pause only taken away.
    ∀ b : Machine, b.control.Asks .stop → b.control.Asks .pause →
      b.applyRequests = { b with control := b.control.takeStop.2.takePause.2 }.setHalted true := by
  refine ⟨?_, ?_, ?_, ?_⟩
  · intro m c x hx h
    obtain ⟨y, hy, hask, hcount⟩ := hx.exists_driving h
    obtain ⟨hreturns, hall⟩ := hy.returns hask
    refine ⟨hreturns, fun fuel r m' he => ?_⟩
    obtain ⟨hheeds, hstarted⟩ := hall fuel r m' he
    rw [hcount] at hstarted
    refine ⟨hstarted, ?_⟩
    rcases hheeds with hh | ⟨hw, _⟩ | hask
    · exact .inl hh
    · cases hw
    · exact .inr hask
  · intro m b h hb
    have hask := hb.keeps .stop h
    have hsame := applyRequests_stopCalled hask
    refine ⟨fun hh fuel => resume_of_asks_stop hh hask fuel, ?_, fun fuel => ?_⟩
    · simp only [singleStep, hsame]
    · simp only [stepOut, hsame]
  · intro m c x hx h
    obtain ⟨hreturns, hall⟩ := hx.returns h
    refine ⟨hreturns, fun fuel r m' he => ?_⟩
    exact ⟨(hall fuel r m' he).2, hx.halted_or_paused he⟩
  · intro b hstop _
    exact applyRequests_of_stop hstop

/-- A machine in a function that is asked for a pause and a stop when it has looked for both and begins
to return. -/
def lateAsked : Machine :=
  { build .headless {} with
    program := ⟨#[⟨.ret, none⟩, ⟨.nop, none⟩, ⟨.halt, none⟩], .empty⟩
    returns := [1]
    halted := false
    paused := true
    control := { arriving := [{}, {}, {}, {}, { pause := true, stop := true }] } }

theorem lateAsked_is_heeded :
    ∃ x m' m'', Driving lateAsked .stepOut x ∧ x.control.Asks .stop ∧ x.control.Asks .pause ∧
      lateAsked.execute 1 .stepOut = some (.ok (), m') ∧ m'.counter = 1 ∧ m'.halted = false ∧
      m'.trace.instructions ≤ x.trace.instructions + 1 ∧ m'.paused = true ∧ m'.control.Asks .stop ∧
      m'.applyRequests = { m' with control := m'.control.takeStop.2.takePause.2 }.setHalted true ∧
      m'.resume 1 = some (.ok (), m'') ∧ m''.halted = true ∧ m''.work = m'.work := by
  obtain ⟨hstop, hnext, hpause, hboth⟩ := no_request_is_lost
  have hdriving : Driving lateAsked .stepOut (lateAsked.applyRequests.setPaused false).applyRequests :=
    .stepOut rfl .refl .pauseTaken
  have hreturns : ∃ m', lateAsked.execute 1 .stepOut = some (.ok (), m') ∧ m'.counter = 1 ∧
      m'.halted = false ∧ m'.control.Asks .pause := ⟨_, rfl, rfl, rfl, rfl⟩
  obtain ⟨m', hm', hcounter, hrunning, hasks⟩ := hreturns
  obtain ⟨hcount, hheeded⟩ := (hstop _ _ _ (.driving hdriving) rfl).2 1 _ _ hm'
  -- The function returned before the machine looked again, so that the stop still waits.
  have hwaits : m'.control.Asks .stop := hheeded.resolve_left (by simp [hrunning])
  obtain ⟨_, hsettled⟩ := (hpause _ _ _ hdriving rfl).2 1 _ _ hm'
  have hpaused : m'.paused = true := hsettled.resolve_left (by simp [hrunning])
  obtain ⟨m'', hresumed, hhalted, hwork⟩ := (hnext m' m' hwaits .refl).1 hrunning 0
  exact ⟨_, m', m'', hdriving, rfl, rfl, hm', hcounter, hrunning, hcount, hpaused, hwaits,
    hboth m' hwaits hasks, hresumed, hhalted, hwork⟩

end Machine

end PixelMachine
