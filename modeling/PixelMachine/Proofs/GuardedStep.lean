import PixelMachine.Proofs.Failures
import PixelMachine.Proofs.GuardedQuery
import PixelMachine.Proofs.GuardedScreen
import PixelMachine.Proofs.ReturnAddresses

/-! Steps executed with guards: what an instruction computes from counts and addresses is computed on
machine words, and each index into the program, the work stack, memory and the screen has to be in
range. In every state that a machine comes to, no guard fails. -/
namespace PixelMachine

/-- A computation on the work stack that has no result where a guard fails. -/
abbrev GuardedOperands := StateT (List Value) (Checked (Fault × List Value))

namespace Guarded

open Checked Operands

variable {α β : Type}

/-- A computation that needs no guards. -/
def always (p : Operands α) : GuardedOperands α := fun s => safe (p s)

/-- What is done under a guard. -/
def under (o : Option α) : GuardedOperands α := fun s => within (o.map (·, s))

/-- An access to memory, with guards. -/
def access (r : Checked MemoryError α) : GuardedOperands α := fun s =>
  ExceptT.mk (r.run.map fun
    | .ok a => .ok (a, s)
    | .error e => .error (.memory e, s))

/-- Takes the topmost `count` values, the topmost first: all from an index on that is counted from the
bottom. -/
def takeTop (count : Nat) : GuardedOperands (List Value) := do
  let stack ← get
  let split ← under (subNat stack.length count)
  let depth ← under (subNat stack.length split)
  set (stack.drop depth)
  pure (stack.take depth)

/-- The value that an operand of `push` stands for, with guards. -/
def resolve (m : Machine) (index : Nat) : Value → GuardedOperands Value
  | .label offset frame => access (read m.frames offset.toInt frame.toInt)
  | .shiftedLabel offset frame => do
    let shift ← always (popInteger .push .labelIndex)
    let location ← always (lift (Machine.addAddress .push offset.toInt shift))
    access (read m.frames location frame.toInt)
  | .counterOffset offset => do
    let target ← always (lift (Machine.addAddress .push (signed index) offset.toInt))
    pure (.number (Float.ofInt target))
  | v => always (m.resolve index v)

/-- Takes the operands of the instruction at `index` and checks them, with guards. -/
def plan (m : Machine) (index : Nat) (i : Instruction) : GuardedOperands Effect :=
  let op := i.opcode
  match op with
  | .push => do
    -- The operand is looked up in the program once more.
    let i ← under m.program.instructions[index]?
    match i.operand with
    | some operand => do
      let v ← resolve m index operand
      always (push v)
      pure .next
    | none => always (fail (.missingOperand op))
  | .alloc => do
    let count ← always (popCount op .slotCount)
    let current := ((m.frames.head?).map List.length).getD 0
    always (lift (Machine.checkGrowth (.frameLimit op) current count m.config.frameLimit.toNat))
    let frames ← access (alloc m.frames count)
    pure (.store frames)
  | .st => do
    let frame ← always (popInteger op .frameIndex)
    let location ← always (popInteger op .location)
    let v ← always (pop op)
    let frames ← access (write m.frames location frame v)
    pure (.store frames)
  | .read => do
    let x ← always (popNumber op)
    let y ← always (popNumber op)
    match ← under (sample m.screen x y) with
    | some colour => do
      always (push (.number colour.toFloat))
      pure .next
    | none => always (fail (.screenOutOfBounds x y 1.0 1.0))
  | .sta => do
    let frame ← always (popInteger op .frameIndex)
    let location ← always (popInteger op .location)
    let count ← always (popCount op .valueCount)
    always (ensureDepth op count)
    let _ ← access (checkRange m.frames frame location count)
    let vs ← takeTop count
    let frames ← access (writeRange m.frames location frame vs)
    pure (.store frames)
  | .pusha => do
    let count ← always (popCount op .valueCount)
    let i ← under m.program.instructions[index]?
    match i.operand with
    | some (.label offset frame) => do
      let vs ← access (readRange m.frames offset.toInt frame.toInt count)
      always (pushAll vs)
      pure .next
    | some v => always (fail (.typeMismatch op .label v.kind))
    | none => always (fail (.missingOperand op))
  | .reta => do
    let count ← always (popCount op .valueCount)
    always (ensureDepth op count)
    let vs ← takeTop count
    always (pushAll vs)
    pure .next
  | _ => always (m.plan index i)

/-- The counter after the instruction at an index, with guards. -/
def next (index : Nat) : Option Int := addInt (signed index) 1

/-- Carries out what the instruction at `index` asked for, with guards. -/
def perform (m : Machine) (index : Nat) : Effect → Option (Option Machine)
  | .jump target => some (m.perform (.jump target))
  | .halt => some (m.perform .halt)
  | .call target arguments => do
    let address ← addNat index 1
    some (some { m with
      frames := m.frames.enter (arguments.map some)
      returns := address :: m.returns
      counter := target })
  | .ret target rest => some (some { m with returns := rest, counter := signed target })
  | .paint region colour => do
    let surface ← fill m.screen.surface region colour
    let counter ← next index
    some (some { m with screen := { m.screen with surface := surface }, counter := counter })
  | .awaitKey => do
    let counter ← next index
    -- The counter is left alone by a wait that is interrupted.
    some (m.awaitKey.map fun l => if l.counter = m.counter then l else { l with counter := counter })
  | effect => do
    let counter ← next index
    some ((m.perform effect).map ({ · with counter := counter }))

/-- The index of the next instruction, with guards. -/
def current (m : Machine) : Checked Fault Nat :=
  if m.counter < 0 ∨ m.program.size ≤ unsigned m.counter then do
    let last ← within (subInt (signed m.program.size) 1)
    throw (.counterOutOfBounds m.counter last)
  else pure (unsigned m.counter)

/-- Executes the instruction at an index, with guards. -/
def execute (m : Machine) (index : Nat) (i : Instruction) : Option (Option Machine.Outcome) := do
  let m := { m with trace := m.trace.record index i.opcode }
  match ← (plan m index i m.stack).run with
  | .error (e, stack) => some (some (.error e, { m with stack := stack }.setHalted true))
  | .ok (effect, stack) => do
    let m ← perform { m with stack := stack } index effect
    some (m.map fun m => (.ok (), m.measured))

/-- Executes the next instruction, with guards. -/
def step (m : Machine) : Option (Option Machine.Outcome) :=
  if m.halted then some (some (.error .halted, m))
  else do
    match ← (current m).run with
    | .error e => some (some (.error e, m.setHalted true))
    | .ok index => do
      let i ← m.program.instructions[index]?
      execute m index i

/-- An instruction checks that `count` slots from `first` on are there. -/
inductive Checks (stack : List Value) : Instruction → Int → Nat → Prop where
  | sta {operand : Option Value} {frame first : Int} {count : Nat} {r s t : List Value} :
      popInteger .sta .frameIndex stack = .ok (frame, r) →
      popInteger .sta .location r = .ok (first, s) → popCount .sta .valueCount s = .ok (count, t) →
      Checks stack ⟨.sta, operand⟩ first count
  | pusha {offset frame : Int64} {count : Nat} {t : List Value} :
      popCount .pusha .valueCount stack = .ok (count, t) →
      Checks stack ⟨.pusha, some (.label offset frame)⟩ offset.toInt count

variable {m : Machine} {index : Nat} {i : Instruction} {s : List Value}

theorem under_some_bind (a : α) (f : α → GuardedOperands β) : (under (some a) >>= f) = f a := rfl

/-- Guards that hold in both parts of a sequence hold in the sequence. -/
theorem bind_eq {g : GuardedOperands α} {f : α → GuardedOperands β} {p : Operands α}
    {q : α → Operands β} (hg : g s = safe (p s))
    (hf : ∀ a t, p s = .ok (a, t) → f a t = safe (q a t)) : (g >>= f) s = safe ((p >>= q) s) :=
  safe_bind hg fun x hx => hf x.1 x.2 hx

theorem access_eq {r : Checked MemoryError α} {r' : Except MemoryError α} (h : r = safe r')
    (s : List Value) : access r s = safe (Machine.access r' s) := by
  subst h
  cases r' with
  | error e => rfl
  | ok a => rfl

/-- What an access finds may be left out of account. -/
theorem seq_eq {γ : Type} {r : Checked MemoryError α} {r' : Except MemoryError γ} {g : γ → α}
    {f : GuardedOperands β} {q : Operands β} (h : r = safe (r'.map g)) (hf : f s = safe (q s)) :
    (access r >>= fun _ => f) s = safe ((Machine.access r' >>= fun _ => q) s) := by
  subst h
  cases r' with
  | error e => rfl
  | ok a => exact hf

/-- What lies above an index that is counted from the bottom is what lies within a depth. -/
theorem takeTop_eq {count : Nat} (h : count ≤ s.length) : takeTop count s = safe (take count s) := by
  have hdepth : s.length - (s.length - count) = count := by omega
  change (do
    let split ← under (subNat s.length count)
    let depth ← under (subNat s.length split)
    set (s.drop depth)
    pure (s.take depth) : GuardedOperands (List Value)) s = _
  rw [subNat_of_le h, under_some_bind, subNat_of_le (Nat.sub_le _ _), under_some_bind, hdepth]
  rfl

theorem le_of_ensureDepth {op : Opcode} {count : Nat} {u : Unit} {t : List Value}
    (h : ensureDepth op count s = .ok (u, t)) : t = s ∧ count ≤ s.length := by
  rw [ensureDepth_apply] at h
  split at h
  · cases h
  · cases h
    exact ⟨rfl, by omega⟩

theorem resolve_eq (hmemory : Small m.frames) (hindex : index < 9223372036854775808) (v : Value) :
    resolve m index v s = safe (m.resolve index v s) := by
  cases v with
  | number | array | function => rfl
  | label offset frame => exact access_eq (read_eq hmemory _ _) s
  | shiftedLabel offset frame =>
    refine bind_eq rfl fun shift r _ => bind_eq rfl fun location t _ => ?_
    exact access_eq (read_eq hmemory _ _) t
  | counterOffset offset =>
    unfold resolve
    rw [signed_of_lt hindex]
    exact bind_eq rfl fun target t _ => rfl

/-- The plans that are guarded do what those without guards do. -/
theorem plan_eq (hmemory : Small m.frames) (hsides : Sides m.screen.surface)
    (hindex : index < 9223372036854775808) (hi : m.program.instructions[index]? = some i)
    (hrange : ¬ Checks s i (-9223372036854775808) 0) :
    plan m index i s = safe (m.plan index i s) := by
  obtain ⟨op, operand⟩ := i
  -- A plan that has guards is followed up to each of them; the others are what they are without.
  cases op with
  | push =>
    unfold plan
    dsimp only
    rw [hi, under_some_bind]
    cases operand with
    | none => rfl
    | some v => exact bind_eq (resolve_eq hmemory hindex v) fun v t _ => rfl
  | alloc =>
    refine bind_eq rfl fun count t _ => bind_eq rfl fun _ u hgrowth => ?_
    obtain ⟨hfits, _⟩ := Machine.checkGrowth_eq_ok.mp (lift_eq_ok.mp hgrowth).1
    have halloc := @alloc_eq m.frames count hmemory fun f hf => by
      rw [hf] at hfits
      exact hfits
    exact bind_eq (access_eq halloc u) fun frames v _ => rfl
  | st =>
    refine bind_eq rfl fun frame t _ => bind_eq rfl fun location u _ => bind_eq rfl fun v w _ => ?_
    exact bind_eq (access_eq (write_eq hmemory _ _ v) w) fun frames x _ => rfl
  | read =>
    refine bind_eq rfl fun x t _ => bind_eq rfl fun y u _ => ?_
    rw [sample_eq hsides, under_some_bind]
    rcases m.screen.sample? x y with _ | colour
    · rfl
    · exact bind_eq rfl fun _ v _ => rfl
  | sta =>
    refine bind_eq rfl fun frame t hframe => bind_eq rfl fun location u hlocation => ?_
    refine bind_eq rfl fun count v hcount => bind_eq rfl fun _ w hdepth => ?_
    obtain ⟨rfl, hle⟩ := le_of_ensureDepth hdepth
    have hfits := fits_of_popInteger hlocation
    have hne : ¬ (location = -9223372036854775808 ∧ count = 0) := by
      rintro ⟨rfl, rfl⟩
      exact hrange (.sta hframe hlocation hcount)
    have hlength : (w.take count).length = count := List.length_take_of_le hle
    refine seq_eq (checkRange_eq hmemory hfits hne) (bind_eq (takeTop_eq hle) fun vs x htake => ?_)
    cases htake
    rw [← hlength] at hne
    exact bind_eq (access_eq (writeRange_eq hmemory hfits hne) _) fun frames y _ => rfl
  | pusha =>
    refine bind_eq rfl fun count t hcount => ?_
    rw [hi, under_some_bind]
    cases operand with
    | none => rfl
    | some v =>
      cases v with
      | label offset frame =>
        have hne : ¬ (offset.toInt = -9223372036854775808 ∧ count = 0) := by
          rintro ⟨hoffset, rfl⟩
          have hleast := @Checks.pusha s offset frame 0 t hcount
          rw [hoffset] at hleast
          exact hrange hleast
        have hfits : FitsInt64 offset.toInt := ⟨offset.le_toInt, offset.toInt_lt⟩
        exact bind_eq (access_eq (readRange_eq hmemory hfits hne) t) fun vs u _ => rfl
      | _ => rfl
  | reta =>
    refine bind_eq rfl fun count t hcount => bind_eq rfl fun _ u hdepth => ?_
    obtain ⟨rfl, hle⟩ := le_of_ensureDepth hdepth
    exact bind_eq (takeTop_eq hle) fun vs v _ => rfl
  | _ => rfl

theorem next_eq (h : index + 1 < 9223372036854775808) : next index = some ((index : Int) + 1) := by
  unfold next
  rw [signed_of_lt (by omega)]
  exact addInt_of_fits ⟨by omega, by omega⟩

/-- Effects are carried out at the counter, which is below the size of the program, and only a return
goes to an address that is not worked out from it. -/
theorem perform_eq {effect : Effect} {size : Nat} (hsides : Sides m.screen.surface)
    (hcounter : m.counter = index) (hindex : index < size) (hsize : size < 9223372036854775808)
    (hret : ∀ target rest, effect = .ret target rest → target < 9223372036854775808) :
    perform m index effect = some (m.perform effect) := by
  have hnext : next index = some (m.counter + 1) := by
    rw [next_eq (by omega), hcounter]
  cases effect with
  | jump | halt => rfl
  | call target arguments =>
    have haddress : (m.counter + 1).toNat = index + 1 := by omega
    unfold perform Machine.perform
    dsimp only
    rw [addNat_of_fits (by omega), haddress]
    rfl
  | ret target rest =>
    unfold perform
    dsimp only
    rw [signed_of_lt (hret target rest rfl)]
    rfl
  | paint region colour =>
    unfold perform
    dsimp only
    rw [fill_eq hsides, hnext]
    rfl
  | awaitKey =>
    unfold perform
    dsimp only
    rw [hnext]
    change some (m.awaitKey.map _) = some m.awaitKey
    congr 1
    rcases hm : m.awaitKey with _ | l
    · rfl
    · cases Machine.awaited_of_awaitKeyWithin hm with
      | key =>
        have hmoved : ¬ m.counter + 1 = m.counter := by omega
        exact congrArg some (if_neg hmoved)
      | interrupted => exact congrArg some (if_pos rfl)
  | next | store | print | roll =>
    unfold perform
    dsimp only
    rw [hnext]
    rfl

theorem current_eq (h : m.program.size < 9223372036854775808) :
    current m = safe (m.current.map (·.1)) := by
  unfold current Machine.current
  dsimp only
  rw [lastIndex_of_lt h]
  by_cases hneg : m.counter < 0
  · rw [if_pos (.inl hneg), if_pos hneg]
    rfl
  · rw [unsigned_of_nonneg (by omega), if_neg hneg]
    rcases hi : m.program.instruction? m.counter.toNat with _ | i
    · have hsize := Array.getElem?_eq_none_iff.mp hi
      rw [if_pos (.inr hsize)]
      rfl
    · obtain ⟨hlt, _⟩ := Array.getElem?_eq_some_iff.mp hi
      have hsize : ¬ m.program.size ≤ m.counter.toNat := Nat.not_le.mpr hlt
      rw [if_neg (by omega)]
      rfl

/-- The next instruction checks a range that is empty and begins at the least address. -/
def ChecksLeast (m : Machine) : Prop :=
  ∃ index i, m.current = .ok (index, i) ∧ Checks m.stack i (-9223372036854775808) 0

/-- Signed words count the instructions too, and the sides of the surface are 32-bit words. -/
structure Sized (m : Machine) : Prop extends Countable m where
  program : m.program.size < 9223372036854775808
  sides : Sides m.screen.surface

/-- Return addresses are addresses of the program, or directly behind it. -/
theorem returns_lt (h : Machine.Reachable m) (hsize : m.program.size < 9223372036854775808) :
    ∀ address ∈ m.returns, address < 9223372036854775808 := by
  intro address haddress
  have hcalls : m.work.ReturnsToCalls := h.of_kept Machine.kept_returnsToCalls
  have hle : address ≤ m.program.size := (hcalls address haddress).2.1
  omega

theorem step_eq (hsized : Sized m) (hreturns : ∀ address ∈ m.returns, address < 9223372036854775808)
    (hleast : ¬ ChecksLeast m) : step m = some m.step := by
  unfold step
  rcases hh : m.halted with _ | _
  · rw [Machine.step_of_running hh, if_neg Bool.false_ne_true, current_eq hsized.program]
    rcases hc : m.current with e | ⟨index, i⟩
    · rfl
    · obtain ⟨rfl, hpos, hi⟩ := Machine.current_eq_ok hc
      have hlt : m.counter.toNat < m.program.size := (Array.getElem?_eq_some_iff.mp hi).1
      have hsize := hsized.program
      have hrange : ¬ Checks m.stack i (-9223372036854775808) 0 := fun hchecks =>
        hleast ⟨_, i, hc, hchecks⟩
      -- The plan is made once the instruction is recorded.
      have hplan := @plan_eq { m with trace := m.trace.record m.counter.toNat i.opcode } _ i m.stack
        hsized.memory hsized.sides (by omega) hi hrange
      rw [Machine.plan_record] at hplan
      change (m.program.instruction? m.counter.toNat >>= execute m m.counter.toNat) = _
      rw [hi, Option.bind_eq_bind, Option.bind_some, execute]
      dsimp only
      rw [hplan]
      rcases hp : m.plan m.counter.toNat i m.stack with ⟨e, stack⟩ | ⟨effect, stack⟩
      · rfl
      · -- A return goes to an address of the return stack.
        have hret (target : Nat) (rest : List Nat) (he : effect = .ret target rest) :
            target < 9223372036854775808 := by
          subst he
          obtain ⟨_, hr⟩ := Machine.plan_suits m _ i _ _ _ hp
          apply hreturns
          rw [hr]
          exact List.mem_cons_self
        have hperform := @perform_eq (m.begun m.counter.toNat i stack) m.counter.toNat effect
          m.program.size hsized.sides (Int.toNat_of_nonneg hpos).symm hlt hsize hret
        change (perform (m.begun m.counter.toNat i stack) m.counter.toNat effect >>= _) = _
        rw [hperform]
        rfl
  · rw [Machine.step, if_pos hh]
    rfl

/-- No guard fails in a state, whatever is executed, asked, accessed and painted there: the guarded
computation has a result, which is that of the computation without guards. -/
structure Holds (m : Machine) : Prop where
  step : ¬ ChecksLeast m → step m = some m.step
  query : ∀ text, query m text = safe (m.query text)
  read : ∀ offset frame, read m.frames offset frame = safe (m.frames.read offset frame)
  write : ∀ offset frame v, write m.frames offset frame v = safe (m.frames.write offset frame v)
  /-- Memory can still be counted when slots are appended. -/
  alloc : ∀ count, (∀ f, m.frames.head? = some f → f.length + count < 9223372036854775808) →
    alloc m.frames count = safe (m.frames.alloc count)
  checkRange : ∀ frame first count, FitsInt64 first →
    ¬ (first = -9223372036854775808 ∧ count = 0) →
    checkRange m.frames frame first count = safe ((m.frames.checkRange frame first count).map (·.1))
  readRange : ∀ offset frame count, FitsInt64 offset →
    ¬ (offset = -9223372036854775808 ∧ count = 0) →
    readRange m.frames offset frame count = safe (m.frames.readRange offset frame count)
  writeRange : ∀ offset frame vs, FitsInt64 offset →
    ¬ (offset = -9223372036854775808 ∧ vs.length = 0) →
    writeRange m.frames offset frame vs = safe (m.frames.writeRange offset frame vs)
  fill : ∀ region colour,
    fill m.screen.surface region colour = some (m.screen.surface.fill region colour)
  readPixel : ∀ x y, readPixel m.screen.surface x y = some (m.screen.surface.read x y)

/-- In every state that a machine comes to with any program no guard fails, but for the check of a range
that is empty and begins at the least address. -/
theorem guards_hold (h : Machine.Reachable m) (hsized : Sized m) : Holds m where
  step := step_eq hsized (returns_lt h hsized.program)
  query := query_eq hsized.toCountable
  read := read_eq hsized.memory
  write := write_eq hsized.memory
  alloc count hroom := alloc_eq hsized.memory fun f hf => by
    have hlt := hroom f hf
    omega
  checkRange frame first count := checkRange_eq hsized.memory
  readRange offset frame count := readRange_eq hsized.memory
  writeRange offset frame vs := writeRange_eq hsized.memory
  fill := fill_eq hsized.sides
  readPixel := readPixel_eq hsized.sides

/-- A program that stores two values in memory at once. -/
def storingTwo : Program :=
  ⟨#[⟨.push, some (.number 2.0)⟩, ⟨.alloc, none⟩, ⟨.push, some (.number 8.0)⟩,
    ⟨.push, some (.number 9.0)⟩, ⟨.push, some (.number 2.0)⟩, ⟨.push, some (.number 0.0)⟩,
    ⟨.push, some (.number 0.0)⟩, ⟨.sta, none⟩, ⟨.halt, none⟩], .empty⟩

theorem guards_hold_storingTwo :
    ∃ m m', Machine.Reachable m ∧ Sized m ∧ m.IsAt .sta ∧ ¬ ChecksLeast m ∧
      m.frames = [[none, none]] ∧ step m = some (some (.ok (), m')) ∧
      m'.frames = [[some (.number 9.0), some (.number 8.0)]] ∧
      query m "workStack[0..2]" = safe (.ok "[8, 9]") := by
  have hbuilt : Machine.Reachable (Machine.new .headless) := .new _
  have hloaded : Machine.Reachable ((Machine.new .headless).load storingTwo) :=
    @Machine.Reachable.command _ _ 0 (.load storingTwo) _ hbuilt rfl
  have hwatched : Machine.Reachable (((Machine.new .headless).load storingTwo).addBreakpoint 8).2 :=
    @Machine.Reachable.command _ _ 0 (.addBreakpoint 8) _ hloaded rfl
  -- The breakpoint pauses the run before the values are stored.
  have hrun : ∃ m m', (((Machine.new .headless).load storingTwo).addBreakpoint 8).2.run 8 =
      some (.ok (), m) ∧ m.current = .ok (7, ⟨.sta, none⟩) ∧
      m.stack = [.number 0.0, .number 0.0, .number 2.0, .number 9.0, .number 8.0] ∧
      m.frames = [[none, none]] ∧ m.returns = [] ∧ m.program = storingTwo ∧
      m.screen.surface = .black 100 100 ∧ m.step = some (.ok (), m') ∧
      m'.frames = [[some (.number 9.0), some (.number 8.0)]] ∧
      m.query "workStack[0..2]" = .ok "[8, 9]" :=
    ⟨_, _, rfl, rfl, rfl, rfl, rfl, rfl, rfl, rfl, rfl, rfl⟩
  obtain ⟨m, m', hm, hcurrent, hstack, hframes, hreturns, hprogram, hsurface, hstep, hstored,
    hquery⟩ := hrun
  have hreach : Machine.Reachable m := @Machine.Reachable.command _ _ 8 .run _ hwatched hm
  have hsized : Sized m := by
    refine ⟨⟨?_, ?_, ⟨?_, ?_⟩⟩, ?_, ⟨?_, ?_⟩⟩
    · rw [hstack]
      decide
    · rw [hreturns]
      decide
    · rw [hframes]
      decide
    · rw [hframes]
      decide
    · rw [hprogram]
      decide
    · rw [hsurface]
      decide
    · rw [hsurface]
      decide
  have hleast : ¬ ChecksLeast m := by
    rintro ⟨index, i, hc, hchecks⟩
    cases hcurrent.symm.trans hc
    rw [hstack] at hchecks
    cases hchecks with
    | sta hframe hlocation _ =>
      cases hframe
      cases hlocation
  have hguards := guards_hold hreach hsized
  refine ⟨m, m', hreach, hsized, ⟨7, _, hcurrent, rfl⟩, hleast, hframes, ?_, hstored, ?_⟩
  · rw [hguards.step hleast, hstep]
  · rw [hguards.query, hquery]

end Guarded

end PixelMachine
