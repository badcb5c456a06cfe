import PixelMachine.Proofs.History
import PixelMachine.Proofs.Stopping

/-! Breakpoints are exact: a call that drives a machine executes no instruction with a breakpoint but
its first, and its observers are told of a breakpoint once, right before it leaves the machine there. -/
namespace PixelMachine

namespace Machine

/-- The next instruction, counted from one, has a breakpoint. -/
def AtBreakpoint (m : Machine) : Prop :=
  0 ≤ m.counter ∧ m.breakpoints.contains (m.counter.toNat + 1) = true

/-- No breakpoint is among these events. -/
def QuietNews (news : List Event) : Prop := ∀ address, .breakpointHit address ∉ news

/-- Since `s` the observers were told of no breakpoint. -/
def Unhit (s m : Machine) : Prop :=
  ∃ news, m.observers = news.foldl Observers.announce s.observers ∧ QuietNews news

/-- Since `s` the observers were told of a single breakpoint, that of the next instruction, right after
they were told of a pause. -/
structure Hit (s m : Machine) : Prop where
  breakpoint : m.AtBreakpoint
  told : ∃ earlier later, ∃ address : UInt64,
    m.observers = (earlier ++ .pausedChanged true :: .breakpointHit address :: later).foldl
      Observers.announce s.observers ∧
    QuietNews earlier ∧ QuietNews later ∧
    address = (m.counter.toNat + 1).toUInt64 ∧
    (FitsInt64 m.counter → (address.toNat : Int) = m.counter + 1)

theorem QuietNews.append {news more : List Event} (h : QuietNews news) (hm : QuietNews more) :
    QuietNews (news ++ more) := by
  intro address haddress
  rcases List.mem_append.mp haddress with hmem | hmem
  · exact h address hmem
  · exact hm address hmem

variable {s m m' l : Machine}

theorem unhit_of_observers (h : m'.observers = m.observers) : Unhit m m' := ⟨[], h, nofun⟩

/-- What is announced is no hit. -/
theorem unhit_of_announce {e : Event} (h : m'.observers = m.observers.announce e)
    (he : ∀ address, e ≠ .breakpointHit address) : Unhit m m' := by
  refine ⟨[e], h, ?_⟩
  intro address haddress
  exact he address (List.mem_singleton.mp haddress).symm

theorem Unhit.trans (h : Unhit s m) (h' : Unhit m m') : Unhit s m' := by
  obtain ⟨news, hnews, hquiet⟩ := h
  obtain ⟨more, hmore, hquiet'⟩ := h'
  exact ⟨news ++ more, by rw [hmore, hnews, List.foldl_append], hquiet.append hquiet'⟩

theorem unhit_setHalted (m : Machine) (b : Bool) : Unhit m (m.setHalted b) := unhit_of_announce rfl nofun

theorem unhit_setPaused (m : Machine) (b : Bool) : Unhit m (m.setPaused b) := unhit_of_announce rfl nofun

theorem unhit_reset (m : Machine) : Unhit m m.reset := unhit_of_announce rfl nofun

theorem unhit_applyRequests (m : Machine) : Unhit m m.applyRequests := by
  rcases hs : m.control.sync.pending.stop with _ | _
  · rcases applyRequests_of_no_stop hs with ha | ⟨ha, _⟩
    · rw [ha]
      exact unhit_of_observers rfl
    · rw [ha]
      exact unhit_of_announce rfl nofun
  · rw [applyRequests_of_stop hs]
    exact unhit_of_announce rfl nofun

theorem unhit_step {r : Except Fault Unit} (h : m.step = some (r, m')) : Unhit m m' := by
  obtain ⟨_, _, _, _, ho | ho⟩ := step_keeps h
  · exact unhit_of_observers ho
  · exact unhit_of_announce ho nofun

theorem unhit_enterPaused {p : Machine} (h : m.enterPaused = .ok p) :
    Unhit m p ∧ p.breakpoints = m.breakpoints := by
  rcases enterPaused_eq_ok h with ⟨_, rfl⟩ | ⟨_, _, rfl⟩
  · have hstart := (unhit_reset m).trans (unhit_setHalted m.reset false)
    exact ⟨hstart.trans (unhit_setPaused _ true), rfl⟩
  · exact ⟨unhit_of_observers rfl, rfl⟩

theorem Hit.before (h : Unhit s m) (hm : Hit m m') : Hit s m' := by
  obtain ⟨earlier, hearlier, hquiet⟩ := h
  obtain ⟨hat, middle, later, address, htold, hmiddle, hlater, haddress⟩ := hm
  refine ⟨hat, earlier ++ middle, later, address, ?_, hquiet.append hmiddle, hlater, haddress⟩
  rw [htold, hearlier, List.append_assoc, ← List.foldl_append]

theorem Hit.after (h : Hit s m) (hm : Unhit m m') (hc : m'.counter = m.counter)
    (hb : m'.breakpoints = m.breakpoints) : Hit s m' := by
  obtain ⟨hat, earlier, later, address, htold, hearlier, hlater, haddress⟩ := h
  obtain ⟨more, hmore, hquiet⟩ := hm
  refine ⟨?_, earlier, later ++ more, address, ?_, hearlier, hlater.append hquiet, ?_⟩
  · unfold AtBreakpoint
    rw [hc, hb]
    exact hat
  · rw [hmore, htold, ← List.foldl_append, List.append_assoc]
    rfl
  · rw [hc]
    exact haddress

/-- When an unpaused machine looks at its breakpoints, it either stays as it is or hits the one of its
next instruction. -/
theorem checkBreakpoint_of_unpaused (hp : m.paused = false) :
    m.checkBreakpoint = m ∧ (m.halted = false → ¬ m.AtBreakpoint) ∨
      m.checkBreakpoint.paused = true ∧ Hit m m.checkBreakpoint := by
  unfold checkBreakpoint
  split
  · next hstays =>
    refine .inl ⟨rfl, ?_⟩
    rintro hh ⟨hpos, _⟩
    have hneg : m.counter < 0 := by simpa [hh, hp] using hstays
    omega
  · next hruns =>
    have hpos : 0 ≤ m.counter := by
      simp only [Bool.or_eq_true, not_or, decide_eq_true_eq] at hruns
      omega
    dsimp only
    split
    · next hb =>
      refine .inr ⟨rfl, ⟨hpos, hb⟩, [], [], (m.counter.toNat + 1).toUInt64, rfl, nofun, nofun, rfl, ?_⟩
      -- The address is a machine word, like the counter.
      intro hfits
      have hlt : m.counter < 9223372036854775808 := hfits.2
      change ((m.counter.toNat + 1).toUInt64.toNat : Int) = m.counter + 1
      have hsmall : m.counter.toNat + 1 < 2 ^ 64 := by omega
      rw [Nat.toUInt64, UInt64.toNat_ofNat_of_lt' hsmall]
      omega
    · next hb => exact .inl ⟨rfl, fun _ hat => hb hat.2⟩

theorem breakpoints_checkBreakpoint (m : Machine) : m.checkBreakpoint.breakpoints = m.breakpoints := by
  rcases checkBreakpoint_cases m with hc | ⟨_, _, _, hc⟩
  · rw [hc]
  · rw [hc]
    rfl

/-- How a machine stands between two instructions of a call on `m`: unpaused while no breakpoint was
hit, and paused once one was. -/
structure Watched (m l : Machine) : Prop where
  breakpoints : l.breakpoints = m.breakpoints
  unhit : l.paused = false → Unhit m l
  hit : l.paused = true → Hit m l

/-- Where the loop goes on to the next instruction no breakpoint was hit. -/
theorem Watched.running (hl : Watched m l) (hh : l.applyRequests.halted = false)
    (hp : l.applyRequests.paused = false) : Unhit m l.applyRequests := by
  obtain ⟨_, hpaused, ho⟩ := applyRequests_of_running hh hp
  exact (hl.unhit hpaused).trans (unhit_of_observers ho)

theorem Watched.looked (hl : Watched m l) :
    l.applyRequests.breakpoints = m.breakpoints ∧ (Unhit m l.applyRequests ∨ Hit m l.applyRequests) := by
  have hb := breakpoints_applyRequests l
  have hquiet := unhit_applyRequests l
  refine ⟨hb.trans hl.breakpoints, ?_⟩
  rcases hp : l.paused with _ | _
  · exact .inl ((hl.unhit hp).trans hquiet)
  · exact .inr ((hl.hit hp).after hquiet (counter_applyRequests l) hb)

/-- What an instruction leaves is looked at for breakpoints. -/
theorem Watched.step {k : Machine} (hl : Watched m l) (hh : l.applyRequests.halted = false)
    (hp : l.applyRequests.paused = false) (hs : l.applyRequests.step = some (.ok (), k)) :
    Watched m k.checkBreakpoint ∧
      (k.checkBreakpoint.halted = false → k.checkBreakpoint.paused = false →
        ¬ k.checkBreakpoint.AtBreakpoint) := by
  obtain ⟨_, _, hpaused, hkb, _⟩ := step_keeps hs
  have hk : Unhit m k := (hl.running hh hp).trans (unhit_step hs)
  have hkp : k.paused = false := hpaused.trans hp
  have hbreakpoints : k.breakpoints = m.breakpoints :=
    hkb.trans ((breakpoints_applyRequests l).trans hl.breakpoints)
  rcases checkBreakpoint_of_unpaused hkp with ⟨hc, hnot⟩ | ⟨hcp, hhit⟩
  · rw [hc]
    exact ⟨⟨hbreakpoints, fun _ => hk, by simp [hkp]⟩, fun hrun _ => hnot hrun⟩
  · have hcb := (breakpoints_checkBreakpoint k).trans hbreakpoints
    exact ⟨⟨hcb, by simp [hcp], fun _ => hhit.before hk⟩, by simp [hcp]⟩

theorem Watched.turns {depth : Option Nat} (hs : Watched m s) (ht : Turns depth s l) : Watched m l := by
  induction ht with
  | refl => exact hs
  | tail _ ht ih =>
    obtain ⟨hh, hp, hstep, _⟩ := ht
    exact (ih.step hh hp hstep).1

/-- After the first instruction the loop comes to none that has a breakpoint, unless it pauses. -/
theorem Watched.not_atBreakpoint {depth : Option Nat} (hs : Watched m s)
    (ht : Relation.TransGen (Turn depth) s l) (hh : l.halted = false) (hp : l.paused = false) :
    ¬ l.AtBreakpoint := by
  obtain ⟨b, hb, hlast⟩ := Relation.TransGen.tail'_iff.mp ht
  obtain ⟨hbh, hbp, hstep, _⟩ := hlast
  exact ((hs.turns hb).step hbh hbp hstep).2 hh hp

/-- The loop ends with no breakpoint hit, or with one. -/
theorem Watched.ends {depth : Option Nat} {r : Except Fault Unit} (hl : Watched m l)
    (he : Ends depth l (r, m')) : m'.breakpoints = m.breakpoints ∧ (Unhit m m' ∨ Hit m m') := by
  cases he with
  | stopped => exact hl.looked
  | failed hh hp hs =>
    obtain ⟨_, _, _, hb, _⟩ := step_keeps hs
    have hbreakpoints := hb.trans ((breakpoints_applyRequests l).trans hl.breakpoints)
    exact ⟨hbreakpoints, .inl ((hl.running hh hp).trans (unhit_step hs))⟩
  | @returned k hh hp hs _ =>
    obtain ⟨hw, _⟩ := hl.step hh hp hs
    refine ⟨hw.breakpoints, ?_⟩
    rcases hcp : k.checkBreakpoint.paused with _ | _
    · exact .inl (hw.unhit hcp)
    · exact .inr (hw.hit hcp)

variable {c : Command} {first : List Deed} {depth : Option Nat}

/-- The loop starts unpaused, and nothing was hit before. -/
theorem Begins.watched (h : Begins m c first depth s) : Watched m s := by
  have hstart {x : Machine} (hx : Unhit m x) (hb : x.breakpoints = m.breakpoints) :
      Watched m (x.setPaused false) :=
    ⟨hb, fun _ => hx.trans (unhit_setPaused x false), nofun⟩
  cases h with
  | run =>
    have hreset := (unhit_reset m).trans (unhit_setHalted m.reset false)
    exact hstart (hreset.trans (unhit_of_observers rfl)) rfl
  | resume => exact hstart (unhit_of_observers rfl) rfl
  | stepOut hp =>
    obtain ⟨hp, hb⟩ := unhit_enterPaused hp
    exact hstart ((unhit_applyRequests m).trans hp) (hb.trans (breakpoints_applyRequests m))

/-- Where a call executes an instruction no breakpoint was hit, and after the first one the
instruction has none. -/
theorem Begins.instruction {fuel : Nat} {older newer : List Deed} {b : Machine} {o : Option Outcome}
    (h : Begins m c first depth s) (hd : m.deeds fuel c = older ++ .step b o :: newer) :
    Unhit m b ∧ (∀ r, o = some r → Unhit m r.2) ∧
      ((∃ b' o', .step b' o' ∈ older) → ∀ index i, b.current = .ok (index, i) →
        m.breakpoints.contains (index + 1) = false) := by
  obtain ⟨l, hl, rfl, hh, hp, rfl⟩ := h.boundary hd
  have hturns : Turns depth s l := by
    rcases hl with ⟨_, rfl⟩ | hl
    · exact .refl
    · exact hl.to_reflTransGen
  have hw := h.watched.turns hturns
  have hb : Unhit m l.applyRequests := hw.running hh hp
  refine ⟨hb, fun r hs => hb.trans (unhit_step hs), ?_⟩
  rintro ⟨b', o', hearlier⟩ index i hc
  rcases hl with ⟨hfirst, _⟩ | hlater
  · exact absurd hearlier (hfirst b' o')
  · obtain ⟨hlh, hlp, _⟩ := applyRequests_of_running hh hp
    have hnot := h.watched.not_atBreakpoint hlater hlh hlp
    obtain ⟨rfl, hpos, _⟩ := current_eq_ok hc
    rw [counter_applyRequests] at hpos ⊢
    rw [← hw.breakpoints]
    rcases hcontains : l.breakpoints.contains (l.counter.toNat + 1) with _ | _
    · rfl
    · exact absurd ⟨hpos, hcontains⟩ hnot

theorem Begins.returned {fuel : Nat} {r : Except Fault Unit} (h : Begins m c first depth s)
    (he : m.execute fuel c = some (r, m')) :
    m'.breakpoints = m.breakpoints ∧ (Unhit m m' ∨ Hit m m') := by
  obtain ⟨x, hd, hx⟩ := execute_of_begins h he
  obtain ⟨l, hl, hend⟩ := drive_eq_some_iff.mp ⟨fuel, hd⟩
  obtain ⟨hb, hquiet⟩ := (h.watched.turns hl).ends hend
  rcases hx with rfl | ⟨_, rfl⟩
  · exact ⟨hb, hquiet⟩
  · refine ⟨hb, ?_⟩
    have hpause := unhit_setPaused x true
    rcases hquiet with hunhit | hhit
    · exact .inl (hunhit.trans hpause)
    · exact .inr (hhit.after hpause rfl rfl)

/-- Whenever a command looks at the requests no pause waits. -/
def NoPause (m : Machine) (c : Command) : Prop :=
  ∀ first depth s l, Begins m c first depth s → Turns depth s l →
    l.control.sync.sync.pending.pause = false

/-- None waits if none is made. -/
theorem noPause_of_expects (h : m.Expects (fun r => r.pause = false)) (hc : c = .run ∨ c = .resume) :
    m.NoPause c := by
  have hP := Requests.closed_pause_eq_false
  have hresumed {x : Machine} (hx : x.Expects (fun r => r.pause = false)) :
      x.resumed.Meets (fun r => r.pause = false) := by
    refine ⟨⟨rfl, ?_⟩, hx.keyboard, hx.log⟩
    intro r hr
    exact hx.arriving r (Control.sync_arriving_subset x.control hr)
  intro first depth s l hb ht
  have hs : s.Meets (fun r => r.pause = false) := by
    rcases hc with rfl | rfl
    · cases hb with
      | run =>
        have hreset := (meets_reset hP h).setHalted false
        exact hresumed ⟨hreset.control.arriving, hreset.keyboard, hreset.log⟩
    · cases hb with
      | resume => exact hresumed h
  exact (((hs.turns hP ht).control.sync hP).sync hP).pending

/-- A loop that ends without being halted, and without a pause being asked for, has hit a breakpoint. -/
theorem Begins.hit {fuel : Nat} (h : Begins m c first none s) (hquiet : m.NoPause c)
    (hd : drive fuel none s = some (.ok (), m')) (hh : m'.halted = false) : Hit m m' := by
  obtain ⟨l, hl, hend⟩ := drive_eq_some_iff.mp ⟨fuel, hd⟩
  have hw := h.watched.turns hl
  cases hend with
  | stopped hst =>
    have hlp : l.paused = true := by
      rw [hh, applyRequests_paused, hquiet first none s l h hl] at hst
      simpa using hst
    exact (hw.hit hlp).after (unhit_applyRequests l) (counter_applyRequests l)
      (breakpoints_applyRequests l)
  | returned _ _ _ hdepth => cases hdepth

theorem hit_of_run {fuel : Nat} (hc : c = .run ∨ c = .resume) (hquiet : m.NoPause c)
    (he : m.execute fuel c = some (.ok (), m')) (hh : m'.halted = false) : Hit m m' := by
  rcases hc with rfl | rfl
  · exact Begins.run.hit hquiet ((run_eq_drive fuel m).symm.trans he) hh
  · have hresume : m.resume fuel = some (.ok (), m') := he
    rcases hm : m.halted with _ | _
    · exact (Begins.resume hm).hit hquiet ((resume_of_running hm fuel).symm.trans hresume) hh
    · unfold resume at hresume
      rw [if_pos hm] at hresume
      cases hresume

/-- A single step does not look at the breakpoints. -/
theorem unhit_singleStep {r : Except Fault Unit} (h : m.singleStep = some (r, m')) : Unhit m m' := by
  have hlooked := unhit_applyRequests m
  cases singleSteps_of_eq h with
  | refused => exact hlooked
  | failed hp hs => exact (hlooked.trans (unhit_enterPaused hp).1).trans (unhit_step hs)
  | @done p k hp hs =>
    have hk := (hlooked.trans (unhit_enterPaused hp).1).trans (unhit_step hs)
    exact hk.trans (unhit_applyRequests k)

/-- Breakpoints are exact. Of the instructions that a call executes only the first may have one. At
most one hit is announced, right after the pause, with the address of the instruction that is next when
the call returns, and nothing is executed after it. A run that neither halts nor is asked to pause ends
with a hit; single steps never do. -/
theorem breakpoints_are_exact (fuel : Nat) (m : Machine) (c : Command) :
    (c = .run ∨ c = .resume ∨ c = .stepOut →
      (∀ older b o newer, m.deeds fuel c = older ++ .step b o :: newer →
        Unhit m b ∧ (∀ r, o = some r → Unhit m r.2) ∧
          ((∃ b' o', .step b' o' ∈ older) → ∀ index i, b.current = .ok (index, i) →
            m.breakpoints.contains (index + 1) = false)) ∧
      ∀ r m', m.execute fuel c = some (r, m') →
        m'.breakpoints = m.breakpoints ∧ (Unhit m m' ∨ Hit m m')) ∧
    (c = .run ∨ c = .resume → m.NoPause c → ∀ m', m.execute fuel c = some (.ok (), m') →
      m'.halted = false → Hit m m') ∧
    (c = .step ∨ c = .singleStep → ∀ r m', m.execute fuel c = some (r, m') → Unhit m m') := by
  refine ⟨?_, ?_, ?_⟩
  · intro hc
    rcases begins_or_refused fuel m hc with ⟨first, depth, s, hb⟩ | ⟨hnone, e, he⟩
    · exact ⟨fun older b o newer hd => hb.instruction hd, fun r m' he => hb.returned he⟩
    · refine ⟨?_, ?_⟩
      · intro older b o newer hd
        rw [hnone] at hd
        simp at hd
      · intro r m' hr
        rcases he with he | he
        · cases he.symm.trans hr
          exact ⟨rfl, .inl (unhit_of_observers rfl)⟩
        · cases he.symm.trans hr
          exact ⟨breakpoints_applyRequests m, .inl (unhit_applyRequests m)⟩
  · intro hc hquiet m' he hh
    exact hit_of_run hc hquiet he hh
  · rintro (rfl | rfl) r m' he
    · exact unhit_step he
    · exact unhit_singleStep he

/-- A program that goes round for ever, with a breakpoint at its second instruction. -/
def goingRound : Machine :=
  { build .headless {} with
    program := ⟨#[⟨.push, some (.number 0.0)⟩, ⟨.jmp, none⟩], .empty⟩
    breakpoints := IndexSet.empty.insert 2 }

/-- The breakpoint is hit by the run and, once round, again when that is resumed. Of the two
instructions in between only the first has one. -/
theorem goingRound_hits_breakpoint :
    ∃ m m' b₁ o₁ b₂ o₂, goingRound.execute 2 .run = some (.ok (), m) ∧ Hit goingRound m ∧
      m.execute 3 .resume = some (.ok (), m') ∧ Hit m m' ∧
      m.deeds 3 .resume = [.step b₁ o₁, .step b₂ o₂] ∧ b₁.AtBreakpoint ∧ Unhit m b₂ ∧
      m.breakpoints.contains 1 = false := by
  have hrun : ∃ m m' b₁ o₁ b₂ o₂, goingRound.execute 2 .run = some (.ok (), m) ∧
      m.halted = false ∧ m.control = {} ∧ m.keyboard = {} ∧ m.log.triggers = [] ∧
      m.execute 3 .resume = some (.ok (), m') ∧ m'.halted = false ∧
      m.deeds 3 .resume = [.step b₁ o₁, .step b₂ o₂] ∧ b₁.AtBreakpoint ∧
      b₂.current = .ok (0, ⟨.push, some (.number 0.0)⟩) :=
    ⟨_, _, _, _, _, _, rfl, rfl, rfl, rfl, rfl, rfl, rfl, rfl, ⟨Int.le.intro 1 rfl, rfl⟩, rfl⟩
  obtain ⟨m, m', b₁, o₁, b₂, o₂, hm, hh, hcontrol, hkeyboard, hlog, hm', hh', hdeeds, hat, hc⟩ := hrun
  have hfirst : goingRound.Expects (fun r => r.pause = false) := ⟨nofun, ⟨nofun, rfl⟩, nofun⟩
  have hsecond : m.Expects (fun r => r.pause = false) := by
    refine ⟨?_, ?_, ?_⟩
    · rw [hcontrol]
      nofun
    · rw [hkeyboard]
      exact ⟨nofun, rfl⟩
    · unfold Log.Meets
      rw [hlog]
      nofun
  have hit₁ := (breakpoints_are_exact 2 goingRound .run).2.1 (.inl rfl)
    (noPause_of_expects hfirst (.inl rfl)) m hm hh
  obtain ⟨hcalls, hhits, _⟩ := breakpoints_are_exact 3 m .resume
  have hit₂ := hhits (.inr rfl) (noPause_of_expects hsecond (.inr rfl)) m' hm' hh'
  obtain ⟨hunhit, _, hnone⟩ := (hcalls (.inr (.inl rfl))).1 [.step b₁ o₁] b₂ o₂ [] hdeeds
  have hlater := hnone ⟨b₁, o₁, List.mem_singleton_self _⟩ 0 _ hc
  exact ⟨m, m', b₁, o₁, b₂, o₂, hm, hit₁, hm', hit₂, hdeeds, hat, hunhit, hlater⟩

end Machine

end PixelMachine
