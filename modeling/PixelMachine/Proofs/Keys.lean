import PixelMachine.Proofs.History

/-! No key is lost: along everything that is done to a machine, the instructions that read keys push the
codes of the keys that were polled, in order, whoever interrupts them. -/
namespace PixelMachine

/-- The values that character codes are pushed as. -/
def codeValues (codes : List Nat) : List Value := codes.map fun code => .number (Float.ofNat code)

/-- The codes of the keys that polls bring, without the polls that bring none. -/
def Poll.codes (polls : List Poll) : List Nat := polls.filterMap Poll.code?

namespace Deed

/-- An instruction that reads a key was executed, and completed or interrupted. -/
def isRead : Deed → Bool
  | .step m (some (.ok (), _)) =>
    match m.current with
    | .ok (_, i) => i.opcode = .getchar
    | .error _ => false
  | _ => false

/-- The values that a step put on the work stack. -/
def pushed : Deed → List Value
  | .step m (some (_, m')) => m'.stack.take (m'.stack.length - m.stack.length)
  | _ => []

end Deed

/-- The values that were read as keys. -/
def taken (ds : List Deed) : List Value := (ds.filter Deed.isRead).flatMap Deed.pushed

/-- How often a key was to be read. -/
def reads (ds : List Deed) : Nat := ds.countP Deed.isRead

theorem taken_concat (ds : List Deed) (d : Deed) :
    taken (ds ++ [d]) = taken ds ++ if d.isRead then d.pushed else [] := by
  unfold taken
  rw [List.filter_append, List.flatMap_append]
  rcases hd : d.isRead with _ | _
  · simp [hd]
  · simp [hd]

theorem reads_concat (ds : List Deed) (d : Deed) :
    reads (ds ++ [d]) = reads ds + if d.isRead then 1 else 0 := by
  unfold reads
  rw [List.countP_append, List.countP_singleton]

theorem codeValues_append (codes codes' : List Nat) :
    codeValues (codes ++ codes') = codeValues codes ++ codeValues codes' :=
  List.map_append

theorem Poll.codes_append (polls polls' : List Poll) :
    Poll.codes (polls ++ polls') = Poll.codes polls ++ Poll.codes polls' :=
  List.filterMap_append

/-- Polls that bring no usable key bring no codes. -/
theorem Poll.codes_eq_nil {polls : List Poll} (h : ∀ p ∈ polls, p.code? = none) :
    Poll.codes polls = [] :=
  List.filterMap_eq_nil_iff.mpr h

namespace Machine

/-- What an instruction that reads a key does: it passes over polls that bring none, and then it
pushes the code of the next key and is over, or it is interrupted and can be executed again. -/
inductive Reads (m m' : Machine) : Prop where
  | completed {passed : List Poll} {poll : Poll} {code : Nat} :
      m.keyboard.script = passed ++ poll :: m'.keyboard.script →
      (∀ p ∈ passed, p.code? = none) → poll.code? = some code →
      m'.stack = .number (Float.ofNat code) :: m.stack → m'.counter = m.counter + 1 → Reads m m'
  | interrupted {passed : List Poll} :
      m.keyboard.script = passed ++ m'.keyboard.script → (∀ p ∈ passed, p.code? = none) →
      m'.stack = m.stack → m'.counter = m.counter → Reads m m'

/-- A running machine executes an instruction that reads a key by waiting for it. -/
theorem step_of_isAt_getchar {m : Machine} (hh : m.halted = false) (hat : m.IsAt .getchar) :
    ∃ index i, m.step = ((m.begun index i m.stack).awaitKey).map fun l => (.ok (), l.measured) := by
  obtain ⟨index, i, hc, hop⟩ := hat
  refine ⟨index, i, ?_⟩
  rw [step_of_running hh]
  simp only [hc, plan_getchar m index hop m.stack]
  rfl

theorem reads_of_step {m m' : Machine} {r : Except Fault Unit} (hh : m.halted = false)
    (hat : m.IsAt .getchar) (hs : m.step = some (r, m')) : r = .ok () ∧ Reads m m' := by
  obtain ⟨index, i, hwait⟩ := step_of_isAt_getchar hh hat
  obtain ⟨l, hl, ho⟩ := Option.map_eq_some_iff.mp (hwait.symm.trans hs)
  cases ho
  refine ⟨rfl, ?_⟩
  cases awaited_of_awaitKeyWithin hl with
  | key hsplit hnone hcode => exact .completed hsplit hnone hcode rfl rfl
  | interrupted hsplit hnone => exact .interrupted hsplit hnone rfl rfl

/-- Waiting uses up a poll at least, as long as there are some. -/
theorem polls_of_awaitKeyWithin {fuel : Nat} {m m' : Machine} (h : awaitKeyWithin fuel m = some m') :
    m'.keyboard.script.length ≤ m.keyboard.script.length - 1 := by
  -- What comes after the first poll only shortens the script further.
  induction fuel generalizing m with
  | zero => cases h
  | succ fuel ih =>
    have hpolled : m.polled.keyboard.script.length ≤ m.keyboard.script.length - 1 := by
      simp [polled, Keyboard.poll_snd]
    rw [awaitKeyWithin_succ] at h
    split at h
    · cases h
      exact hpolled
    · split at h
      · cases h
        exact hpolled
      · split at h
        · cases h
          exact hpolled
        · have hrest := ih h
          dsimp only at hrest
          omega

theorem polls_of_step {m m' : Machine} {r : Except Fault Unit} (hh : m.halted = false)
    (hat : m.IsAt .getchar) (hs : m.step = some (r, m')) :
    m'.keyboard.script.length ≤ m.keyboard.script.length - 1 := by
  obtain ⟨index, i, hwait⟩ := step_of_isAt_getchar hh hat
  obtain ⟨l, hl, ho⟩ := Option.map_eq_some_iff.mp (hwait.symm.trans hs)
  have hpolls := polls_of_awaitKeyWithin hl
  cases ho
  exact hpolls

/-- A wait that is long enough to use up the script ends at the first key. -/
theorem codeless_of_awaitKeyWithin {fuel : Nat} {m : Machine} (h : awaitKeyWithin fuel m = none)
    (hf : m.keyboard.script.length ≤ fuel) : ∀ p ∈ m.keyboard.script, p.code? = none := by
  induction fuel generalizing m with
  | zero =>
    have hempty : m.keyboard.script = [] := List.length_eq_zero_iff.mp (Nat.le_zero.mp hf)
    simp [hempty]
  | succ fuel ih =>
    have hscript : m.polled.keyboard.script = m.keyboard.script.drop 1 := by
      simp only [polled, Keyboard.poll_snd]
    rw [awaitKeyWithin_succ] at h
    split at h
    · cases h
    · next hcode =>
      split at h
      · cases h
      · split at h
        · cases h
        · have hrest := ih h (by simp only [hscript, List.length_drop]; omega)
          dsimp only at hrest
          rw [hscript] at hrest
          intro p hp
          rw [← List.take_append_drop 1 m.keyboard.script, List.mem_append] at hp
          rcases hp with hp | hp
          · exact Keyboard.code?_of_mem_take hcode p hp
          · exact hrest p hp

/-- A step ends unless it waits for a key and no poll to come brings one. -/
theorem codeless_of_step_eq_none {m : Machine} (h : m.step = none) :
    m.IsAt .getchar ∧ ∀ p ∈ m.keyboard.script, p.code? = none := by
  rcases hh : m.halted with _ | _
  · rw [step_of_running hh] at h
    rcases hc : m.current with e | ⟨index, i⟩
    · simp [hc] at h
    · rcases hp : plan m index i m.stack with ⟨e, stack⟩ | ⟨effect, stack⟩
      · simp [hc, hp] at h
      · simp only [hc, hp, Option.map_eq_none_iff] at h
        cases effect with
        | awaitKey =>
          refine ⟨⟨index, i, hc, plan_suits m index i m.stack _ stack hp⟩, ?_⟩
          have hlong : (m.begun index i stack).keyboard.script.length ≤
              m.keyboard.script.length + m.control.arriving.length + 1 := by
            simp only [begun]
            omega
          have hcodeless := codeless_of_awaitKeyWithin (m := m.begun index i stack) h hlong
          exact hcodeless
        | _ => cases h
  · rw [step, if_pos hh] at h
    cases h

theorem isRead_iff {m m' : Machine} {r : Except Fault Unit} :
    (Deed.step m (some (r, m'))).isRead = true ↔ r = .ok () ∧ m.IsAt .getchar := by
  rcases r with e | _
  · simp [Deed.isRead]
  · rcases hc : m.current with e | ⟨index, i⟩
    · simp [Deed.isRead, IsAt, hc]
    · simp [Deed.isRead, isAt_iff hc, hc]

theorem keyboard_step {m m' : Machine} {r : Except Fault Unit} (hs : m.step = some (r, m'))
    (hread : ¬ (Deed.step m (some (r, m'))).isRead = true) : m'.keyboard = m.keyboard := by
  cases step_eq_some_iff.mp hs with
  | halted | misplaced | failed => rfl
  | @done index i effect stack l _ hc hp hm =>
    have hne : effect ≠ .awaitKey := by
      rintro rfl
      exact hread (isRead_iff.mpr ⟨rfl, index, i, hc, plan_suits m index i m.stack _ stack hp⟩)
    have hkeyboard := (perform_leaves_input hm hne).1
    exact hkeyboard

theorem running_of_step_ok {m m' : Machine} (hs : m.step = some (.ok (), m')) : m.halted = false := by
  cases step_eq_some_iff.mp hs with
  | done hh => exact hh

/-- The polls up to now, of which the history tells: the keys that they brought were read, and a poll
at least was used up whenever a key was to be read. -/
structure Polled (k : Keyboard) (m : Machine) (ds : List Deed) (polls : List Poll) : Prop where
  script : k.script = polls ++ m.keyboard.script
  values : taken ds = codeValues (Poll.codes polls)
  attempts : reads ds ≤ polls.length ∨ m.keyboard.script = []

/-- A step uses up some polls, and if it is to read a key it pushes the one key that they bring. -/
theorem Polled.step {k : Keyboard} {m m' : Machine} {r : Except Fault Unit} {ds : List Deed}
    {polls : List Poll} (h : Polled k m ds polls) (hs : m.step = some (r, m')) :
    ∃ new, Polled k m' (ds ++ [.step m (some (r, m'))]) (polls ++ new) := by
  by_cases hread : (Deed.step m (some (r, m'))).isRead = true
  · obtain ⟨rfl, hat⟩ := isRead_iff.mp hread
    have hh := running_of_step_ok hs
    have hshorter := polls_of_step hh hat hs
    have hused {new : List Poll} (hnew : m.keyboard.script = new ++ m'.keyboard.script) :
        reads (ds ++ [.step m (some (.ok (), m'))]) ≤ (polls ++ new).length ∨
          m'.keyboard.script = [] := by
      rw [reads_concat, if_pos hread, List.length_append]
      have hlength := congrArg List.length hnew
      rw [List.length_append] at hlength
      rcases h.attempts with hreads | hempty
      · rw [← List.length_eq_zero_iff]
        omega
      · exact .inr (List.append_eq_nil_iff.mp (hnew.symm.trans hempty)).2
    cases (reads_of_step hh hat hs).2 with
    | @completed passed poll code hscript hnone hcode hstack _ =>
      have hnew : m.keyboard.script = (passed ++ [poll]) ++ m'.keyboard.script := by
        rw [hscript, List.append_assoc, List.singleton_append]
      have hpushed : (Deed.step m (some (.ok (), m'))).pushed =
          codeValues (Poll.codes (passed ++ [poll])) := by
        rw [Poll.codes_append, Poll.codes_eq_nil hnone]
        simp [Deed.pushed, hstack, Poll.codes, hcode, codeValues]
      refine ⟨passed ++ [poll], ?_, ?_, hused hnew⟩
      · rw [h.script, hnew, List.append_assoc polls]
      · rw [taken_concat, if_pos hread, hpushed, h.values, Poll.codes_append polls, codeValues_append]
    | @interrupted passed hscript hnone hstack _ =>
      have hpushed : (Deed.step m (some (.ok (), m'))).pushed = codeValues (Poll.codes passed) := by
        rw [Poll.codes_eq_nil hnone]
        simp [Deed.pushed, hstack, codeValues]
      refine ⟨passed, ?_, ?_, hused hscript⟩
      · rw [h.script, hscript, List.append_assoc]
      · rw [taken_concat, if_pos hread, hpushed, h.values, Poll.codes_append, codeValues_append]
  · have hsame := keyboard_step hs hread
    refine ⟨[], ?_, ?_, ?_⟩
    · rw [hsame, List.append_nil]
      exact h.script
    · rw [taken_concat, if_neg hread, List.append_nil, List.append_nil]
      exact h.values
    · rw [reads_concat, if_neg hread, hsame, List.append_nil]
      exact h.attempts

theorem Polled.reset {k : Keyboard} {m m' : Machine} {ds : List Deed} {polls : List Poll}
    (h : Polled k m ds polls) (hk : m'.keyboard = m.keyboard) : Polled k m' (ds ++ [.reset]) polls where
  script := by
    rw [hk]
    exact h.script
  values := by
    rw [taken_concat, if_neg (by simp [Deed.isRead]), List.append_nil]
    exact h.values
  attempts := by
    rw [reads_concat, if_neg (by simp [Deed.isRead]), hk]
    exact h.attempts

theorem told_polled (k : Keyboard) : Told fun m ds => ∃ polls, Polled k m ds polls where
  same := by
    rintro m m' ds ⟨polls, h⟩ hw _
    have hkeyboard : m'.keyboard = m.keyboard := congrArg Work.keyboard hw
    refine ⟨polls, ?_, h.values, ?_⟩
    · rw [hkeyboard]
      exact h.script
    · rw [hkeyboard]
      exact h.attempts
  load := by
    rintro m ds program ⟨polls, h⟩
    exact ⟨polls, h.reset rfl⟩
  restart := by
    rintro m ds ⟨polls, h⟩
    exact ⟨polls, h.reset rfl⟩
  resize := by
    rintro m ds screen _ ⟨polls, h⟩
    exact ⟨polls, h.script, h.values, h.attempts⟩
  step := by
    rintro m ⟨r, m'⟩ ds ⟨polls, h⟩ hs
    obtain ⟨new, hnew⟩ := h.step hs
    exact ⟨polls ++ new, hnew⟩

theorem Leads.polled {s m : Machine} {ds : List Deed} (h : Leads s ds m) :
    ∃ polls, Polled s.keyboard m ds polls :=
  h.told (told_polled s.keyboard) ⟨[], rfl, rfl, .inl (Nat.zero_le _)⟩

end Machine

/-- The scalar values of a text without its NUL characters. -/
def scalars (text : String) : List Nat := (text.toList.map Char.toNat).filter (· ≠ 0)

/-- The key that types a character brings the character's own code. -/
theorem Key.code?_ofTyped (c : Char) :
    (Key.ofTyped c).code? = if c.toNat = 0 then none else some c.toNat := by
  unfold Key.ofTyped
  split
  · next hc =>
    subst hc
    rfl
  · split
    · next hc =>
      subst hc
      rfl
    · rfl

theorem codes_typed (text : String) :
    Poll.codes (Keyboard.ofKeys (Keyboard.typed text)).script = scalars text := by
  unfold Keyboard.ofKeys Keyboard.typed Poll.codes scalars
  induction text.toList with
  | nil => rfl
  | cons c cs ih =>
    have hcode : Poll.code? { key := some (Key.ofTyped c) } =
        if c.toNat = 0 then none else some c.toNat := Key.code?_ofTyped c
    simp only [List.map_cons, List.filterMap_cons, List.filter_cons, hcode]
    by_cases hzero : c.toNat = 0
    · simpa [hzero] using ih
    · simpa [hzero] using ih

theorem length_typed (text : String) :
    (Keyboard.ofKeys (Keyboard.typed text)).script.length = text.length := by
  simp only [Keyboard.ofKeys, Keyboard.typed, List.length_map, String.length_toList]

namespace Machine

/-- How the keys stand when the history `ds` has led from `s` to `m`. -/
structure KeysInOrder (s m : Machine) (ds : List Deed) : Prop where
  /-- What was read is what the polls brought, in order. -/
  taken : ∃ polls, s.keyboard.script = polls ++ m.keyboard.script ∧
    taken ds = codeValues (Poll.codes polls)
  /-- The next instruction that reads a key takes one, or it can be repeated and has lost none. -/
  reads : ∀ r m', m.halted = false → m.IsAt .getchar → m.step = some (r, m') →
    r = .ok () ∧ Reads m m'
  /-- A step that never ends has lost no key either. -/
  waits : m.step = none → ∀ p ∈ m.keyboard.script, p.code? = none
  /-- Of a text that is typed nothing else is read, and all of it once keys were to be read often
  enough. -/
  typed : ∀ text, s.keyboard = .ofKeys (Keyboard.typed text) →
    PixelMachine.taken ds <+: codeValues (scalars text) ∧
      (text.length ≤ PixelMachine.reads ds → PixelMachine.taken ds = codeValues (scalars text))

/-- No key is lost, duplicated or reordered, whatever commands are given and whoever interrupts them. -/
theorem keys_in_order {s m : Machine} {ds : List Deed} (h : Leads s ds m) : KeysInOrder s m ds := by
  obtain ⟨polls, hpolled⟩ := h.polled
  refine ⟨⟨polls, hpolled.script, hpolled.values⟩, ?_, ?_, ?_⟩
  · intro r m' hh hat hs
    exact reads_of_step hh hat hs
  · intro hnone
    exact (codeless_of_step_eq_none hnone).2
  · intro text htext
    have hscript : (Keyboard.ofKeys (Keyboard.typed text)).script = polls ++ m.keyboard.script := by
      rw [← htext]
      exact hpolled.script
    have hcodes : scalars text = Poll.codes polls ++ Poll.codes m.keyboard.script := by
      rw [← codes_typed, hscript, Poll.codes_append]
    rw [hpolled.values, hcodes, codeValues_append]
    refine ⟨List.prefix_append _ _, fun hmany => ?_⟩
    -- Then the script is used up.
    have hempty : m.keyboard.script = [] := by
      rcases hpolled.attempts with hattempts | hempty
      · have hlength := congrArg List.length hscript
        rw [length_typed, List.length_append] at hlength
        exact List.length_eq_zero_iff.mp (by omega)
      · exact hempty
    simp [hempty, Poll.codes, codeValues]

/-- A program that reads a key. -/
def readingOnce : Program := ⟨#[⟨.getchar, none⟩, ⟨.halt, none⟩], .empty⟩

/-- A NUL is typed before a letter. The first single step is interrupted at it, and the second one reads
the letter. -/
theorem interrupted_before_key : ∃ s m ds, Leads s ds m ∧ KeysInOrder s m ds ∧
    s.keyboard = .ofKeys (Keyboard.typed "\x00b") ∧ reads ds = 2 ∧ m.counter = 1 ∧
    taken ds = codeValues [98] := by
  let s := (new { Devices.headless with keyboard := .ofKeys (Keyboard.typed "\x00b") }).load readingOnce
  have hfirst : ∃ a, s.execute 0 .singleStep = some (.ok (), a) ∧ reads (s.deeds 0 .singleStep) = 1 ∧
      a.current = .ok (0, ⟨.getchar, none⟩) ∧
        ∃ b, a.execute 0 .step = some (.ok (), b) ∧ b.counter = 1 :=
    ⟨_, rfl, rfl, rfl, _, rfl, rfl⟩
  obtain ⟨a, ha, hreads, hat, b, hb, hcounter⟩ := hfirst
  have hleads := (Leads.refl.command ha).command hb
  have hstep : reads (a.deeds 0 .step) = 1 := by
    have hb : a.step = some (.ok (), b) := hb
    have hread : (Deed.step a (some (.ok (), b))).isRead = true := isRead_iff.mpr ⟨rfl, 0, _, hat, rfl⟩
    change reads [.step a a.step] = 1
    rw [hb]
    exact (List.countP_singleton).trans (if_pos hread)
  have hall : reads ([] ++ s.deeds 0 .singleStep ++ a.deeds 0 .step) = 2 := by
    unfold reads at hreads hstep ⊢
    rw [List.nil_append, List.countP_append, hreads, hstep]
  have hkeys := keys_in_order hleads
  have htaken := (hkeys.typed "\x00b" rfl).2 (by rw [hall]; decide)
  exact ⟨s, b, _, hleads, hkeys, rfl, hall, hcounter, htaken⟩

end Machine

end PixelMachine
