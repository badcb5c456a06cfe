import PixelMachine.Proofs.Effects

/-! What a step can do, said once: the ways in which it ends, what waiting for a key does, and what
each effect changes. -/
namespace PixelMachine

/-- The character code that a poll brings. -/
def Poll.code? (p : Poll) : Option Nat := p.key.bind Key.code?

namespace Keyboard

theorem poll_snd (k : Keyboard) : k.poll.2 = { k with script := k.script.drop 1 } := by
  rcases k with ⟨_ | ⟨poll, rest⟩, idle⟩
  · rfl
  · rfl

/-- A poll without a usable key takes only such an entry from the script. -/
theorem code?_of_mem_take {k : Keyboard} (h : k.poll.1.code? = none) :
    ∀ p ∈ k.script.take 1, p.code? = none := by
  rcases k with ⟨_ | ⟨poll, rest⟩, idle⟩
  · simp
  · intro p hp
    rw [List.mem_singleton.mp hp]
    exact h

/-- A usable key comes from the script. -/
theorem script_of_code? {k : Keyboard} {code : Nat} (h : k.poll.1.code? = some code) :
    ∃ poll rest, k.script = poll :: rest ∧ poll.code? = some code := by
  rcases k with ⟨_ | ⟨poll, rest⟩, idle⟩
  · cases h
  · exact ⟨poll, rest, rfl, h⟩

end Keyboard

namespace Machine

/-- The machine within an instruction, which is recorded and has taken its operands. -/
def begun (m : Machine) (index : Nat) (i : Instruction) (stack : List Value) : Machine :=
  { m with trace := m.trace.record index i.opcode, stack := stack }

/-- The machine with the depths of its stacks recorded. -/
def measured (m : Machine) : Machine :=
  { m with trace := m.trace.recordDepths m.stack.length m.frames.length m.returns.length }

/-- The ways in which a step ends. -/
inductive Steps (m : Machine) : Outcome → Prop where
  | halted : m.halted = true → Steps m (.error .halted, m)
  | misplaced {e : Fault} : m.halted = false → m.current = .error e →
      Steps m (.error e, m.setHalted true)
  | failed {index : Nat} {i : Instruction} {e : Fault} {stack : List Value} : m.halted = false →
      m.current = .ok (index, i) → plan m index i m.stack = .error (e, stack) →
      Steps m (.error e, (m.begun index i stack).setHalted true)
  | done {index : Nat} {i : Instruction} {effect : Effect} {stack : List Value} {m' : Machine} :
      m.halted = false → m.current = .ok (index, i) →
      plan m index i m.stack = .ok (effect, stack) →
      (m.begun index i stack).perform effect = some m' → Steps m (.ok (), m'.measured)

/-- The counter is the only reason for which there is no instruction. -/
theorem current_eq_error {m : Machine} {e : Fault} (h : m.current = .error e) :
    ∃ counter last, e = .counterOutOfBounds counter last := by
  unfold current at h
  split at h
  · cases h
    exact ⟨_, _, rfl⟩
  · split at h
    · cases h
    · cases h
      exact ⟨_, _, rfl⟩

theorem current_eq_ok {m : Machine} {index : Nat} {i : Instruction}
    (h : m.current = .ok (index, i)) :
    index = m.counter.toNat ∧ 0 ≤ m.counter ∧ m.program.instruction? m.counter.toNat = some i := by
  unfold current at h
  split at h
  · cases h
  · next hneg =>
    split at h
    · next hi =>
      cases h
      exact ⟨rfl, by omega, hi⟩
    · cases h

theorem current_of_instruction {m : Machine} {i : Instruction} (hpos : 0 ≤ m.counter)
    (hi : m.program.instruction? m.counter.toNat = some i) :
    m.current = .ok (m.counter.toNat, i) := by
  unfold current
  rw [if_neg (by omega), hi]

/-- Recording an instruction changes nothing that its plan looks at. -/
theorem plan_record (m : Machine) (t : Trace) (index : Nat) (i : Instruction) :
    plan { m with trace := t } index i = plan m index i :=
  plan_congr rfl rfl rfl rfl rfl rfl index i

theorem step_of_running {m : Machine} (hh : m.halted = false) :
    m.step =
      match m.current with
      | .error e => some (.error e, m.setHalted true)
      | .ok (index, i) =>
        match plan m index i m.stack with
        | .error (e, stack) => some (.error e, (m.begun index i stack).setHalted true)
        | .ok (effect, stack) =>
          ((m.begun index i stack).perform effect).map fun m' => (.ok (), m'.measured) := by
  unfold step
  rw [if_neg (by simp [hh])]
  rcases m.current with e | ⟨index, i⟩
  · rfl
  · -- The step plans on the machine that has recorded the instruction.
    simp only [plan_record]
    rcases plan m index i m.stack with ⟨e, stack⟩ | ⟨effect, stack⟩
    · rfl
    · rcases hm : perform { m with trace := m.trace.record index i.opcode, stack := stack } effect
        with _ | m'
      · simp only [begun, hm, Option.map_none]
      · simp only [begun, hm, Option.map_some, measured]

/-- `Steps` lists all that a step can do. -/
theorem step_eq_some_iff {m : Machine} {o : Outcome} : m.step = some o ↔ Steps m o := by
  rcases hh : m.halted with _ | _
  · rw [step_of_running hh]
    constructor
    · intro h
      rcases hc : m.current with e | ⟨index, i⟩
      · simp only [hc, Option.some.injEq] at h
        subst h
        exact .misplaced hh hc
      · rcases hp : plan m index i m.stack with ⟨e, stack⟩ | ⟨effect, stack⟩
        · simp only [hc, hp, Option.some.injEq] at h
          subst h
          exact .failed hh hc hp
        · simp only [hc, hp, Option.map_eq_some_iff] at h
          obtain ⟨m', hm, rfl⟩ := h
          exact .done hh hc hp hm
    · intro h
      cases h with
      | halted h => simp [hh] at h
      | misplaced _ hc => simp only [hc]
      | failed _ hc hp => simp only [hc, hp]
      | done _ hc hp hm => simp only [hc, hp, hm, Option.map_some]
  · constructor
    · intro h
      rw [step, if_pos hh] at h
      cases h
      exact .halted hh
    · intro h
      cases h with
      | halted h => rw [step, if_pos hh]
      | misplaced h | failed h | done h => simp [hh] at h

/-- What waiting for a key leaves. It passes over polls that bring no usable key; then it takes a key,
or it is interrupted and nothing but the polls is gone. -/
inductive Awaited (m : Machine) : Machine → Prop where
  | key {passed rest : List Poll} {poll : Poll} {code : Nat} {control : Control} :
      m.keyboard.script = passed ++ poll :: rest → (∀ p ∈ passed, p.code? = none) →
      poll.code? = some code →
      Awaited m
        { m with
          keyboard := { m.keyboard with script := rest }
          control := control
          stack := .number (Float.ofNat code) :: m.stack
          counter := m.counter + 1 }
  | interrupted {passed rest : List Poll} {control : Control} :
      m.keyboard.script = passed ++ rest → (∀ p ∈ passed, p.code? = none) →
      Awaited m { m with keyboard := { m.keyboard with script := rest }, control := control }

/-- Waiting that begins after some polls without a usable key. -/
theorem Awaited.after_polls {m m' : Machine} {before rest : List Poll} {control : Control}
    (hs : m.keyboard.script = before ++ rest) (hb : ∀ p ∈ before, p.code? = none)
    (h : Awaited { m with keyboard := { m.keyboard with script := rest }, control := control } m') :
    Awaited m m' := by
  have hall (passed : List Poll) (hn : ∀ p ∈ passed, p.code? = none) :
      ∀ p ∈ before ++ passed, p.code? = none := by
    intro p hp
    rcases List.mem_append.mp hp with hp | hp
    · exact hb p hp
    · exact hn p hp
  cases h with
  | @key passed _ _ _ _ hr hn hc =>
    have hr : rest = passed ++ _ := hr
    exact .key (by rw [hs, hr, List.append_assoc]) (hall passed hn) hc
  | @interrupted passed _ _ hr hn =>
    have hr : rest = passed ++ _ := hr
    exact .interrupted (by rw [hs, hr, List.append_assoc]) (hall passed hn)

/-- The machine after one poll, with the requests made at that moment. -/
def polled (m : Machine) : Machine :=
  { m with
    keyboard := m.keyboard.poll.2
    control := m.control.request m.keyboard.poll.1.requests }

theorem awaitKeyWithin_succ (fuel : Nat) (m : Machine) :
    awaitKeyWithin (fuel + 1) m =
      match m.keyboard.poll.1.code? with
      | some code =>
        some { m.polled with
          stack := .number (Float.ofNat code) :: m.stack, counter := m.counter + 1 }
      | none =>
        if m.halted || m.paused then some m.polled
        else if m.polled.control.seesAny.1 then
          some { m.polled with control := m.polled.control.seesAny.2 }
        else awaitKeyWithin fuel { m.polled with control := m.polled.control.seesAny.2 } :=
  rfl

theorem awaited_of_awaitKeyWithin {fuel : Nat} {m m' : Machine}
    (h : awaitKeyWithin fuel m = some m') : Awaited m m' := by
  -- One poll, and then the rest of the wait from where that poll leaves the machine.
  induction fuel generalizing m with
  | zero => cases h
  | succ fuel ih =>
    rw [awaitKeyWithin_succ] at h
    have hpoll : m.polled = { m with
        keyboard := { m.keyboard with script := m.keyboard.script.drop 1 }
        control := m.polled.control } := by
      simp only [polled, Keyboard.poll_snd]
    rcases hc : m.keyboard.poll.1.code? with _ | code
    · have hsplit := (List.take_append_drop 1 m.keyboard.script).symm
      have hnone := Keyboard.code?_of_mem_take hc
      simp only [hc] at h
      rw [hpoll] at h
      split at h
      · cases h
        exact .interrupted hsplit hnone
      · split at h
        · cases h
          exact .interrupted hsplit hnone
        · exact (ih h).after_polls hsplit hnone
    · obtain ⟨poll, rest, hs, hcode⟩ := Keyboard.script_of_code? hc
      simp only [hc] at h
      rw [hpoll, hs] at h
      cases h
      exact @Awaited.key m [] rest poll code _ hs (by simp) hcode

/-- A change to parts of a machine that waiting for a key does not look at. -/
structure Aside (f : Machine → Machine) : Prop where
  flags : ∀ m, (f m).halted = m.halted ∧ (f m).paused = m.paused
  input : ∀ m, (f m).keyboard = m.keyboard ∧ (f m).control = m.control
  keyboard : ∀ m keyboard, { f m with keyboard := keyboard } = f { m with keyboard := keyboard }
  control : ∀ m control, { f m with control := control } = f { m with control := control }
  takes : ∀ m v, { f m with stack := v :: (f m).stack, counter := (f m).counter + 1 } =
    f { m with stack := v :: m.stack, counter := m.counter + 1 }

theorem Aside.polled {f : Machine → Machine} (hf : Aside f) (m : Machine) :
    (f m).polled = f m.polled := by
  obtain ⟨hkeyboard, hcontrol⟩ := hf.input m
  rw [Machine.polled, hkeyboard, hcontrol]
  change { { f m with keyboard := m.keyboard.poll.2 } with control := m.polled.control } = _
  rw [hf.keyboard, hf.control]
  rfl

/-- Such a change may be made before the wait or after it. -/
theorem Aside.awaitKeyWithin {f : Machine → Machine} (hf : Aside f) (fuel : Nat) (m : Machine) :
    awaitKeyWithin fuel (f m) = (awaitKeyWithin fuel m).map f := by
  induction fuel generalizing m with
  | zero => rfl
  | succ fuel ih =>
    have hnext := ih { m.polled with control := m.polled.control.seesAny.2 }
    obtain ⟨hhalted, hpaused⟩ := hf.flags m
    obtain ⟨hkeyboard, _⟩ := hf.input m
    obtain ⟨_, hcontrol⟩ := hf.input m.polled
    rw [awaitKeyWithin_succ, awaitKeyWithin_succ, hkeyboard]
    rcases m.keyboard.poll.1.code? with _ | code
    · dsimp only
      rw [hhalted, hpaused, hf.polled, hcontrol, hf.control]
      split
      · rfl
      · split
        · rfl
        · exact hnext
    · have htakes := hf.takes m.polled (.number (Float.ofNat code))
      rw [← hf.polled] at htakes
      exact congrArg some htakes

theorem requestsOf_append (l : Log) (t u : String) : (l.append t).requestsOf u = l.requestsOf u := by
  unfold Log.append
  split
  · rfl
  · rfl

/-- Saying texts changes the log, and the requests by what the texts trigger. -/
theorem say_eq (m : Machine) (texts : List String) :
    m.say texts = { m with
      log := texts.foldl Log.append m.log
      control := texts.foldl (fun c t => c.request (m.log.requestsOf t)) m.control } := by
  induction texts generalizing m with
  | nil => rfl
  | cons t texts ih =>
    have h := ih { m with log := m.log.append t, control := m.control.request (m.log.requestsOf t) }
    simp only [requestsOf_append] at h
    exact h

/-- Only waiting for a key looks at the keyboard, and nothing else that is carried out changes the
work stack. -/
theorem perform_leaves_input {m m' : Machine} {effect : Effect} (h : m.perform effect = some m')
    (hne : effect ≠ .awaitKey) : m'.keyboard = m.keyboard ∧ m'.stack = m.stack := by
  cases effect with
  | next | jump | call | ret | halt | store | paint | roll =>
    cases h
    exact ⟨rfl, rfl⟩
  | print texts =>
    cases h
    rw [say_eq]
    exact ⟨rfl, rfl⟩
  | awaitKey => exact absurd rfl hne

/-- Carrying out an effect changes neither program nor settings, it neither pauses nor touches the
breakpoints, and only a halt is announced. -/
theorem perform_keeps {m m' : Machine} {effect : Effect} (h : m.perform effect = some m') :
    m'.program = m.program ∧ m'.config = m.config ∧ m'.paused = m.paused ∧
      m'.breakpoints = m.breakpoints ∧ m'.trace = m.trace ∧
      (m'.halted = m.halted ∧ m'.observers = m.observers ∨
        effect = .halt ∧ m'.halted = true ∧
          m'.observers = m.observers.announce (.haltedChanged true)) := by
  cases effect with
  | next | jump | call | ret | store | paint | roll =>
    cases h
    exact ⟨rfl, rfl, rfl, rfl, rfl, .inl ⟨rfl, rfl⟩⟩
  | halt =>
    cases h
    exact ⟨rfl, rfl, rfl, rfl, rfl, .inr ⟨rfl, rfl, rfl⟩⟩
  | print texts =>
    cases h
    rw [say_eq]
    exact ⟨rfl, rfl, rfl, rfl, rfl, .inl ⟨rfl, rfl⟩⟩
  | awaitKey =>
    cases awaited_of_awaitKeyWithin h with
    | key | interrupted => exact ⟨rfl, rfl, rfl, rfl, rfl, .inl ⟨rfl, rfl⟩⟩

/-- A step leaves program, settings, breakpoints and the paused flag as they are. -/
theorem step_keeps {m m' : Machine} {r : Except Fault Unit} (h : m.step = some (r, m')) :
    m'.program = m.program ∧ m'.config = m.config ∧ m'.paused = m.paused ∧
      m'.breakpoints = m.breakpoints ∧
      (m'.observers = m.observers ∨
        m'.observers = m.observers.announce (.haltedChanged true)) := by
  cases step_eq_some_iff.mp h with
  | halted _ => exact ⟨rfl, rfl, rfl, rfl, .inl rfl⟩
  | misplaced | failed => exact ⟨rfl, rfl, rfl, rfl, .inr rfl⟩
  | done _ _ _ hm =>
    obtain ⟨hprogram, hconfig, hpaused, hbreak, _, ⟨_, ho⟩ | ⟨_, _, ho⟩⟩ := perform_keeps hm
    · exact ⟨hprogram, hconfig, hpaused, hbreak, .inl ho⟩
    · exact ⟨hprogram, hconfig, hpaused, hbreak, .inr ho⟩

/-- A step that fails halts the machine. -/
theorem halted_of_step_error {m m' : Machine} {e : Fault} (h : m.step = some (.error e, m')) :
    m'.halted = true := by
  cases step_eq_some_iff.mp h with
  | halted hh => exact hh
  | misplaced | failed => rfl

/-- What an instruction does to the return stack: only `call` pushes, and only `ret` pops, back to the
address it pops. -/
theorem step_returns {m m' : Machine} (h : m.step = some (.ok (), m')) :
    ∃ index i, m.current = .ok (index, i) ∧
      (i.opcode ≠ .call ∧ i.opcode ≠ .ret ∧ m'.returns = m.returns ∨
        i.opcode = .call ∧ m'.returns = (index + 1) :: m.returns ∨
        i.opcode = .ret ∧ m.returns = m'.counter.toNat :: m'.returns ∧ 0 ≤ m'.counter) := by
  cases step_eq_some_iff.mp h with
  | @done index i effect stack m' _ hc hp hm =>
    have hsuits := plan_suits m index i m.stack effect stack hp
    refine ⟨index, i, hc, ?_⟩
    cases effect with
    | call target arguments =>
      cases hm
      obtain ⟨rfl, hpos, _⟩ := current_eq_ok hc
      -- The counter is not negative here, so nothing is lost when it becomes an index.
      have hnext : (m.counter + 1).toNat = m.counter.toNat + 1 := by omega
      exact .inr (.inl ⟨hsuits, by simp only [measured, begun, hnext]⟩)
    | ret target rest =>
      cases hm
      obtain ⟨hop, hr⟩ := hsuits
      exact .inr (.inr ⟨hop, hr, Int.natCast_nonneg target⟩)
    | print texts =>
      cases hm
      refine .inl ⟨?_, ?_, by rw [say_eq]; rfl⟩ <;> intro hop <;> simp [Effect.Suits, hop] at hsuits
    | awaitKey =>
      refine .inl ⟨?_, ?_, ?_⟩
      · intro hop
        simp [Effect.Suits, hop] at hsuits
      · intro hop
        simp [Effect.Suits, hop] at hsuits
      · cases awaited_of_awaitKeyWithin hm with
        | key | interrupted => rfl
    | next | jump | halt | store | paint | roll =>
      cases hm
      refine .inl ⟨?_, ?_, rfl⟩ <;> intro hop <;> simp [Effect.Suits, hop] at hsuits

/-- The next instruction has a given opcode. -/
def IsAt (m : Machine) (op : Opcode) : Prop := ∃ index i, m.current = .ok (index, i) ∧ i.opcode = op

theorem isAt_iff {m : Machine} {op : Opcode} {index : Nat} {i : Instruction}
    (h : m.current = .ok (index, i)) : m.IsAt op ↔ i.opcode = op := by
  constructor
  · rintro ⟨_, _, hc, hop⟩
    cases h.symm.trans hc
    exact hop
  · intro hop
    exact ⟨index, i, h, hop⟩

/-- The machine after so many steps, all of which succeed. -/
def advance (m : Machine) : Nat → Option Machine
  | 0 => some m
  | k + 1 =>
    match m.advance k with
    | none => none
    | some b =>
      match b.step with
      | some (.ok (), b') => some b'
      | _ => none

theorem advance_succ_eq_some {m m' : Machine} {k : Nat} :
    m.advance (k + 1) = some m' ↔ ∃ b, m.advance k = some b ∧ b.step = some (.ok (), m') := by
  rw [advance]
  rcases m.advance k with _ | b
  · simp
  · simp only [Option.some.injEq, exists_eq_left']
    rcases b.step with _ | ⟨_ | _, b'⟩ <;> simp

theorem exists_advance_of_le {m m' : Machine} {j k : Nat} (h : m.advance k = some m') (hj : j ≤ k) :
    ∃ b, m.advance j = some b := by
  induction k generalizing m' with
  | zero =>
    obtain rfl : j = 0 := by omega
    exact ⟨m', h⟩
  | succ k ih =>
    obtain ⟨b, hb, _⟩ := advance_succ_eq_some.mp h
    rcases Nat.lt_or_eq_of_le hj with hj | rfl
    · exact ih hb (by omega)
    · exact ⟨m', h⟩

end Machine

end PixelMachine
