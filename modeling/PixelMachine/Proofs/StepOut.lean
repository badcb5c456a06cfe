import PixelMachine.Proofs.Requests

/-! Stepping out of a function comes back to its caller, whatever the function calls on the way. -/
namespace PixelMachine

namespace Machine

/-- The boundaries between instructions that a call of `stepOut` on a paused machine comes to. -/
def StepOutBoundary (m h : Machine) : Prop :=
  Turns (some m.returns.length) (m.applyRequests.setPaused false) h

/-- No request is made during a call of `stepOut`: none lands when it first looks at the requests,
and none waits or lands at the boundaries between its instructions. -/
def StepOutUndisturbed (m : Machine) : Prop :=
  m.control.sync.sync.pending = m.control.pending ∧
    ∀ h, m.StepOutBoundary h → h.control.sync.sync.pending = {}

/-- How a boundary of the call relates to its start: the return stack of the start lies below, and if
the machine is paused a breakpoint was hit since. -/
structure Below (m h : Machine) : Prop where
  returns : m.returns <:+ h.returns
  heard : ∃ news, h.observers.announced = news ++ m.observers.announced ∧
    (h.paused = true → ∃ address, .breakpointHit address ∈ news)

theorem below_start (m : Machine) : Below m (m.applyRequests.setPaused false) where
  returns := (returns_applyRequests m).symm ▸ List.suffix_refl m.returns
  heard := by
    obtain ⟨news, hnews⟩ := announced_applyRequests m
    refine ⟨.pausedChanged false :: news, ?_, ?_⟩
    · change _ :: m.applyRequests.observers.announced = _
      rw [← hnews]
      rfl
    · intro hp
      cases hp

/-- A step that leaves the return stack deep enough leaves what lay below in place. -/
theorem suffix_of_step {m m' : Machine} {returns : List Nat} (h : m.step = some (.ok (), m'))
    (hs : returns <:+ m.returns) (hd : returns.length ≤ m'.returns.length) :
    returns <:+ m'.returns := by
  obtain ⟨index, i, _, ⟨_, _, hr⟩ | ⟨_, hr⟩ | ⟨_, hr, _⟩⟩ := step_returns h
  · rwa [hr]
  · rw [hr]
    exact hs.trans (List.suffix_cons _ _)
  · rw [hr] at hs
    rcases List.suffix_cons_iff.mp hs with heq | hs
    · -- The step popped the entry on top of those given, so it is not deep enough.
      have hlength := congrArg List.length heq
      simp only [List.length_cons] at hlength
      omega
    · exact hs

theorem Below.turn {m h h' : Machine} (hb : Below m h)
    (ht : Turn (some m.returns.length) h h') : Below m h' := by
  cases ht with
  | @intro l hh hp hs hd =>
    have hdepth : m.returns.length ≤ l.returns.length := by simpa using hd
    obtain ⟨_, _, hpaused, _⟩ := step_keeps hs
    obtain ⟨news, hnews, _⟩ := hb.heard
    obtain ⟨more, hmore⟩ := (announced_applyRequests h).trans (announced_step hs)
    have hbelow : m.returns <:+ h.applyRequests.returns := by
      rw [returns_applyRequests]
      exact hb.returns
    refine ⟨?_, ?_⟩
    · rw [returns_checkBreakpoint]
      exact suffix_of_step hs hbelow hdepth
    · -- The machine was not paused when the turn began, so only a breakpoint can have paused it.
      rcases checkBreakpoint_cases l with hc | ⟨_, _, _, hc⟩
      · refine ⟨more ++ news, ?_, ?_⟩
        · rw [hc, ← hmore, hnews, List.append_assoc]
        · intro hpause
          rw [hc, hpaused, hp] at hpause
          cases hpause
      · refine ⟨.breakpointHit (l.counter.toNat + 1).toUInt64 :: .pausedChanged true ::
          (more ++ news), ?_, ?_⟩
        · rw [hc]
          change _ :: _ :: l.observers.announced = _
          rw [← hmore, hnews]
          simp only [List.cons_append, List.append_assoc]
        · intro _
          exact ⟨_, List.mem_cons_self⟩

/-- What holds at every boundary of the call. -/
theorem below_of_boundary {m h : Machine} (hb : m.StepOutBoundary h) : Below m h := by
  induction hb with
  | refl => exact below_start m
  | tail _ ht ih => exact ih.turn ht

/-- The loop leaves by its depth only right after a `ret` that pops the entry on top of the return
stack of the start. -/
theorem returned_of_depth {m h l : Machine} (hb : Below m h)
    (hs : h.applyRequests.step = some (.ok (), l)) (hd : l.returns.length < m.returns.length) :
    m.returns = l.counter.toNat :: l.returns ∧ 0 ≤ l.counter ∧
      ∃ index i, h.applyRequests.current = .ok (index, i) ∧ i.opcode = .ret := by
  obtain ⟨index, i, hc, hr⟩ := step_returns hs
  have hlength := hb.returns.length_le
  rw [returns_applyRequests] at hr
  rcases hr with ⟨_, _, hr⟩ | ⟨_, hr⟩ | ⟨hop, hr, hpos⟩
  · rw [hr] at hd
    omega
  · rw [hr, List.length_cons] at hd
    omega
  · have hbelow := hb.returns
    rw [hr] at hbelow
    rcases List.suffix_cons_iff.mp hbelow with heq | hbelow
    · exact ⟨heq, hpos, index, i, hc, hop⟩
    · have := hbelow.length_le
      omega

/-- A request that is seen at the first look is still there at the second one. -/
theorem sync_stop {c : Control} (h : c.sync.pending.stop = true) : c.sync.sync.pending.stop = true := by
  rcases hs : c.sync with ⟨pending, _ | ⟨r, rest⟩⟩
  · rw [hs] at h
    exact h
  · rw [hs] at h
    simp only [Control.sync, Requests.or, Bool.or_eq_true]
    exact .inl h

/-- A loop that no request disturbs and no breakpoint pauses ends halted, or by its depth. -/
theorem halted_or_returned {m h l m' : Machine} {r : Except Fault Unit} {news : List Event}
    (hb : Below m h) (hquiet : h.control.sync.sync.pending = {})
    (he : Ends (some m.returns.length) h (r, l))
    (hl : l.observers.announced <:+ m'.observers.announced)
    (hnews : m'.observers.announced = news ++ m.observers.announced)
    (hhit : ∀ address, .breakpointHit address ∉ news) :
    l.halted = true ∨ r = .ok () ∧ ∃ k, l = k.checkBreakpoint ∧
      h.applyRequests.step = some (.ok (), k) ∧ k.returns.length < m.returns.length := by
  cases he with
  | stopped hst =>
    rcases hh : h.applyRequests.halted with _ | _
    · -- Without requests the pause comes from a breakpoint, which would have been heard.
      exfalso
      have hp : h.paused = true := by
        rw [hh, applyRequests_paused, hquiet] at hst
        simpa using hst
      obtain ⟨before, hbefore, hhits⟩ := hb.heard
      obtain ⟨address, haddress⟩ := hhits hp
      obtain ⟨more, hmore⟩ := (announced_applyRequests h).trans hl
      rw [hnews, hbefore, ← List.append_assoc] at hmore
      have hsplit := List.append_cancel_right hmore
      apply hhit address
      rw [← hsplit]
      exact List.mem_append_right _ haddress
    · exact .inl rfl
  | failed _ _ hs => exact .inl (halted_of_step_error hs)
  | returned _ _ hs hd => exact .inr ⟨rfl, _, rfl, hs, by simpa using hd⟩

/-- How a call of `stepOut` on a paused machine ends: as its loop does, and paused unless halted. -/
theorem stepOut_ends {m m' : Machine} {fuel : Nat} {r : Except Fault Unit} (hp : m.paused = true)
    (hh : m.applyRequests.halted = false) (h : m.stepOut fuel = some (r, m')) :
    ∃ b l, m.StepOutBoundary b ∧ Ends (some m.returns.length) b (r, l) ∧
      (m' = l ∧ (l.halted = true ∨ r ≠ .ok ()) ∨ l.halted = false ∧ m' = l.setPaused true) := by
  have hpaused : m.applyRequests.paused = true := by
    rw [applyRequests_paused, hp, Bool.true_or]
  have henter := enterPaused_of_paused hh hpaused
  have hloop {r : Except Fault Unit} {p l : Machine} (hp : m.applyRequests.enterPaused = .ok p)
      (hd : drive fuel (some p.returns.length) (p.setPaused false) = some (r, l)) :
      ∃ b, m.StepOutBoundary b ∧ Ends (some m.returns.length) b (r, l) := by
    rw [henter] at hp
    cases hp
    rw [returns_applyRequests] at hd
    exact drive_eq_some_iff.mp ⟨fuel, hd⟩
  cases stepsOut_of_eq h with
  | refused he =>
    rw [henter] at he
    cases he
  | failed hp hd =>
    obtain ⟨b, hb, he⟩ := hloop hp hd
    exact ⟨b, _, hb, he, .inl ⟨rfl, .inr nofun⟩⟩
  | halted hp hd hl =>
    obtain ⟨b, hb, he⟩ := hloop hp hd
    exact ⟨b, _, hb, he, .inl ⟨rfl, .inl hl⟩⟩
  | done hp hd hl =>
    obtain ⟨b, hb, he⟩ := hloop hp hd
    exact ⟨b, _, hb, he, .inr ⟨hl, rfl⟩⟩

/-- Where no request can come, none is made. -/
theorem stepOutUndisturbed_of_meets {m : Machine} (h : m.Meets (· = {})) :
    m.StepOutUndisturbed := by
  have hP := Requests.closed_empty
  refine ⟨?_, ?_⟩
  · rw [((h.control.sync hP).sync hP).pending, h.control.pending]
  · intro b hb
    have hstart := (h.applyRequests hP).setPaused false
    exact (((hstart.turns hP hb).control.sync hP).sync hP).pending

/-- Stepping out of a function on a paused machine. When no request is made and no breakpoint hit,
the call comes back to the caller exactly: it pauses at the return address right after the `ret` that
takes it from the return stack, and until then all that lay on that stack stayed where it was. With
nothing to return to, it ends only with the machine halted. -/
theorem stepOut_returns_to_caller {m m' : Machine} {fuel : Nat} {r : Except Fault Unit}
    {news : List Event} (hpaused : m.paused = true) (hhalted : m.halted = false)
    (hstop : m.control.pending.stop = false) (hquiet : m.StepOutUndisturbed)
    (h : m.stepOut fuel = some (r, m'))
    (hnews : m'.observers.announced = news ++ m.observers.announced)
    (hhit : ∀ address, .breakpointHit address ∉ news) :
    (m.returns = [] → m'.halted = true) ∧
      ∀ target rest, m.returns = target :: rest → r = .ok () → m'.halted = false →
        m'.paused = true ∧ m'.counter = target ∧ m'.returns = rest ∧
          (∀ b, m.StepOutBoundary b → target :: rest <:+ b.returns) ∧
          ∃ last l index i, m.StepOutBoundary last ∧
            last.applyRequests.current = .ok (index, i) ∧ i.opcode = .ret ∧
            last.applyRequests.step = some (.ok (), l) ∧ m'.work = l.work := by
  have hstart : m.applyRequests.halted = false := by
    rw [applyRequests_halted, hhalted, Bool.false_or]
    rcases hs : m.control.sync.pending.stop with _ | _
    · rfl
    · have hlate := sync_stop hs
      rw [hquiet.1, hstop] at hlate
      cases hlate
  obtain ⟨b, l, hb, he, hend⟩ := stepOut_ends hpaused hstart h
  have hbelow := below_of_boundary hb
  have hlm : l.observers.announced <:+ m'.observers.announced := by
    rcases hend with ⟨rfl, _⟩ | ⟨_, rfl⟩
    · exact List.suffix_refl _
    · exact List.suffix_cons _ _
  have hcases := halted_or_returned hbelow (hquiet.2 b hb) he hlm hnews hhit
  refine ⟨?_, ?_⟩
  · -- No return stack is shallower than the empty one.
    intro hempty
    rcases hcases with hl | ⟨_, k, _, _, hk⟩
    · rcases hend with ⟨rfl, _⟩ | ⟨hrun, _⟩
      · exact hl
      · rw [hl] at hrun
        cases hrun
    · rw [hempty] at hk
      cases hk
  · rintro target rest hreturns rfl hrunning
    rcases hcases with hl | ⟨_, k, rfl, hk, hdepth⟩
    · rcases hend with ⟨rfl, _⟩ | ⟨hrun, _⟩
      · rw [hl] at hrunning
        cases hrunning
      · rw [hl] at hrun
        cases hrun
    · obtain ⟨htop, hpos, index, i, hc, hop⟩ := returned_of_depth hbelow hk hdepth
      rcases hend with ⟨rfl, hl | hne⟩ | ⟨_, rfl⟩
      · rw [hl] at hrunning
        cases hrunning
      · exact absurd rfl hne
      · have hwork : (k.checkBreakpoint.setPaused true).work = k.work := by simp
        have hcounter := congrArg Work.counter hwork
        rw [hreturns, List.cons.injEq] at htop
        refine ⟨rfl, ?_, ?_, ?_, b, k, index, i, hb, hc, hop, hk, hwork⟩
        · change (k.checkBreakpoint.setPaused true).counter = k.counter at hcounter
          omega
        · exact (congrArg Work.returns hwork).trans htop.2.symm
        · intro c hboundary
          rw [← hreturns]
          exact (below_of_boundary hboundary).returns

/-- A machine that is paused within a function. -/
def withinFunction : Machine :=
  { build .headless {} with
    program := ⟨#[⟨.nop, none⟩, ⟨.ret, none⟩, ⟨.halt, none⟩], .empty⟩
    returns := [2, 7]
    halted := false
    paused := true }

theorem stepOut_withinFunction_returns_to_caller :
    ∃ m' news, withinFunction.stepOut 2 = some (.ok (), m') ∧
      m'.observers.announced = news ++ withinFunction.observers.announced ∧
      (∀ address, .breakpointHit address ∉ news) ∧ m'.halted = false ∧
      m'.paused = true ∧ m'.counter = 2 ∧ m'.returns = [7] := by
  have hquiet : withinFunction.StepOutUndisturbed :=
    stepOutUndisturbed_of_meets ⟨⟨rfl, nofun⟩, ⟨nofun, rfl⟩, nofun⟩
  have hrun : ∃ m', withinFunction.stepOut 2 = some (.ok (), m') ∧
      m'.observers.announced = [.pausedChanged true, .pausedChanged false] ∧ m'.halted = false :=
    ⟨_, rfl, rfl, rfl⟩
  obtain ⟨m', h, hnews, hhalted⟩ := hrun
  have hhit (address : UInt64) :
      .breakpointHit address ∉ [Event.pausedChanged true, .pausedChanged false] := by simp
  obtain ⟨hpaused, hcounter, hreturns, _⟩ :=
    (stepOut_returns_to_caller rfl rfl rfl hquiet h hnews hhit).2 2 [7] rfl rfl hhalted
  exact ⟨m', _, h, hnews, hhit, hhalted, hpaused, hcounter, hreturns⟩

end Machine

end PixelMachine
