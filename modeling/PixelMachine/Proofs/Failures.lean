import PixelMachine.Proofs.Addressing
import PixelMachine.Proofs.Steps

/-! A failing instruction takes its fixed operands at most and leaves everything else alone. -/
namespace PixelMachine

/-- The fault lies with an instruction, not with a counter outside the program. -/
def Fault.Placed (e : Fault) : Prop := ∀ counter last, e ≠ .counterOutOfBounds counter last

namespace Operands

variable {α β : Type} {j k n : Nat}

/-- A failure lies with the instruction and has taken at most `n` values. -/
def FailsWithin (n : Nat) (p : Operands α) : Prop :=
  ∀ s e t, p s = .error (e, t) → e.Placed ∧ ∃ k ≤ n, t = s.drop k

/-- At most `n` values are taken and none is put on the stack, in success and in failure. -/
structure Takes (n : Nat) (p : Operands α) : Prop where
  ok : ∀ s a t, p s = .ok (a, t) → ∃ k ≤ n, t = s.drop k
  fails : FailsWithin n p

/-- A computation that always succeeds. -/
def Succeeds (p : Operands α) : Prop := ∀ s, ∃ x, p s = .ok x

theorem Succeeds.pure (a : α) : Succeeds (Pure.pure a) := fun s => ⟨(a, s), rfl⟩

theorem Succeeds.push (v : Value) : Succeeds (Operands.push v) := fun s => ⟨((), v :: s), rfl⟩

theorem Succeeds.pushAll (vs : List Value) : Succeeds (Operands.pushAll vs) :=
  fun s => ⟨((), vs.reverse ++ s), rfl⟩

theorem Succeeds.take (count : Nat) : Succeeds (Operands.take count) :=
  fun s => ⟨(s.take count, s.drop count), rfl⟩

theorem Succeeds.bind {p : Operands α} {f : α → Operands β} (hp : Succeeds p)
    (hf : ∀ a, Succeeds (f a)) : Succeeds (p >>= f) := by
  intro s
  obtain ⟨⟨a, t⟩, ha⟩ := hp s
  obtain ⟨⟨b, u⟩, hb⟩ := hf a t
  exact ⟨(b, u), bind_eq_ok.mpr ⟨a, t, ha, hb⟩⟩

theorem Succeeds.failsWithin {p : Operands α} (hp : Succeeds p) : FailsWithin n p := by
  intro s e t h
  obtain ⟨x, hx⟩ := hp s
  rw [hx] at h
  cases h

theorem failsWithin_fail {e : Fault} (he : e.Placed) : FailsWithin n (fail e : Operands α) := by
  intro s e' t h
  cases h
  exact ⟨he, 0, by omega, rfl⟩

theorem Takes.bind {p : Operands α} {f : α → Operands β} (hp : Takes j p)
    (hf : ∀ a, FailsWithin k (f a)) : FailsWithin (k + j) (p >>= f) := by
  intro s e t h
  rcases bind_eq_error.mp h with h | ⟨a, r, ha, h⟩
  · obtain ⟨he, i, hi, ht⟩ := hp.fails s e t h
    exact ⟨he, i, by omega, ht⟩
  · obtain ⟨i, hi, hr⟩ := hp.ok s a r ha
    obtain ⟨he, i', hi', ht⟩ := hf a r e t h
    exact ⟨he, i + i', by omega, by rw [ht, hr, List.drop_drop]⟩

theorem Takes.seq {p : Operands α} {f : α → Operands β} (hp : Takes j p)
    (hf : ∀ a, Takes k (f a)) : Takes (k + j) (p >>= f) where
  ok := by
    intro s b t h
    obtain ⟨a, r, ha, hb⟩ := bind_eq_ok.mp h
    obtain ⟨i, hi, hr⟩ := hp.ok s a r ha
    obtain ⟨i', hi', ht⟩ := (hf a).ok r b t hb
    exact ⟨i + i', by omega, by rw [ht, hr, List.drop_drop]⟩
  fails := hp.bind fun a => (hf a).fails

theorem Takes.mono {p : Operands α} (h : Takes j p) (hj : j ≤ n) : Takes n p where
  ok := by
    intro s a t ha
    obtain ⟨i, hi, ht⟩ := h.ok s a t ha
    exact ⟨i, by omega, ht⟩
  fails := by
    intro s e t he
    obtain ⟨hp, i, hi, ht⟩ := h.fails s e t he
    exact ⟨hp, i, by omega, ht⟩

theorem takes_pure (a : α) : Takes 0 (pure a) where
  ok := by
    intro s b t h
    cases h
    exact ⟨0, by omega, rfl⟩
  fails := (Succeeds.pure a).failsWithin

theorem takes_get : Takes 0 (get : Operands (List Value)) where
  ok := by
    intro s a t h
    cases h
    exact ⟨0, by omega, rfl⟩
  fails := by
    intro s e t h
    cases h

theorem takes_fail {e : Fault} (he : e.Placed) : Takes 0 (fail e : Operands α) where
  ok := by
    intro s b t h
    cases h
  fails := failsWithin_fail he

theorem takes_lift {r : Except Fault α} (hr : ∀ e, r = .error e → e.Placed) : Takes 0 (lift r) := by
  rcases r with e | a
  · exact takes_fail (hr e rfl)
  · exact takes_pure a

theorem takes_pop (op : Opcode) : Takes 1 (pop op) where
  ok := by
    intro s v t h
    rcases s with _ | ⟨w, s⟩
    · cases h
    · cases h
      exact ⟨1, by omega, rfl⟩
  fails := by
    intro s e t h
    rcases s with _ | ⟨w, s⟩
    · cases h
      exact ⟨nofun, 0, by omega, rfl⟩
    · cases h

theorem takes_popNumber (op : Opcode) : Takes 1 (popNumber op) := by
  refine (takes_pop op).seq fun v => ?_
  cases v with
  | number x => exact takes_pure x
  | _ => exact takes_fail nofun

theorem takes_integerOf (op : Opcode) (role : Role) (x : Float) :
    Takes 0 (lift (integerOf op role x)) := by
  apply takes_lift
  intro e h
  rcases integerOf_eq_error h with rfl | rfl
  · nofun
  · nofun

theorem takes_popInteger (op : Opcode) (role : Role) : Takes 1 (popInteger op role) :=
  (takes_popNumber op).seq fun _ => takes_integerOf op role _

theorem takes_popCount (op : Opcode) (role : Role) : Takes 1 (popCount op role) := by
  refine (takes_popInteger op role).seq fun count => ?_
  split
  · exact takes_fail nofun
  · exact takes_pure _

theorem ensureDepth_apply (op : Opcode) (count : Nat) (s : List Value) :
    ensureDepth op count s =
      if s.length < count then .error (.stackUnderflow op, s) else .ok ((), s) := by
  change (if s.length < count then fail (.stackUnderflow op) else pure () : Operands Unit) s = _
  split
  · rfl
  · rfl

theorem takes_ensureDepth (op : Opcode) (count : Nat) : Takes 0 (ensureDepth op count) where
  ok := by
    intro s a t h
    rw [ensureDepth_apply] at h
    split at h
    · cases h
    · cases h
      exact ⟨0, by omega, rfl⟩
  fails := by
    intro s e t h
    rw [ensureDepth_apply] at h
    split at h
    · cases h
      exact ⟨nofun, 0, by omega, rfl⟩
    · cases h

end Operands

/-- The operands that an operation takes from the stack besides those that it counts. -/
def Opcode.fixedOperands : Opcode → Nat
  | .nop | .ret | .halt | .cframe | .width | .height | .getchar => 0
  | .inc | .dec | .round | .irnd | .not | .dup | .drop | .push | .jmp | .alloc | .oframe | .delay
  | .clear | .print | .pusha | .printa | .reta | .putchar => 1
  | .add | .sub | .mul | .div | .mod | .max | .min | .and | .or | .lt | .le | .eq | .neq | .gt | .ge
  | .cjmp | .cjmp2 | .call | .read | .dupa => 2
  | .st | .write | .sta => 3
  | .writebox => 5

namespace Machine

open Operands

theorem takes_access {α : Type} (r : Except MemoryError α) : Takes 0 (access r) := by
  apply takes_lift
  rcases r with e | a
  · intro e' h
    cases h
    exact nofun
  · intro e' h
    cases h

theorem failsWithin_unary (op : Opcode) (f : Float → Float) : FailsWithin 1 (unary op f) :=
  (takes_popNumber op).bind fun _ => ((Succeeds.push _).bind fun _ => .pure _).failsWithin

theorem failsWithin_binary (op : Opcode) (f : Float → Float → Float) :
    FailsWithin 2 (binary op f) :=
  (takes_popNumber op).bind fun _ => (takes_popNumber op).bind fun _ =>
    ((Succeeds.push _).bind fun _ => .pure _).failsWithin

theorem failsWithin_relation (op : Opcode) (f : Float → Float → Bool) :
    FailsWithin 2 (relation op f) :=
  (takes_popNumber op).bind fun _ => (takes_popNumber op).bind fun _ =>
    ((Succeeds.push _).bind fun _ => .pure _).failsWithin

theorem failsWithin_equality (op : Opcode) (negate : Bool) : FailsWithin 2 (equality op negate) := by
  refine (takes_pop op).bind fun x => (takes_pop op).bind fun y => ?_
  split
  · exact (takes_fail (by nofun)).bind fun _ => ((Succeeds.push _).bind fun _ => .pure _).failsWithin
  · exact ((Succeeds.push _).bind fun _ => .pure _).failsWithin

theorem failsWithin_branch (op : Opcode) (holds : Float → Bool) :
    FailsWithin 2 (branch op holds) := by
  refine (takes_popNumber op).bind fun target => (takes_popNumber op).bind fun condition => ?_
  split
  · exact (takes_integerOf _ _ _).bind fun _ => (Succeeds.pure _).failsWithin
  · exact (Succeeds.pure _).failsWithin

theorem failsWithin_paint (m : Machine) (x y w h colour : Float) :
    FailsWithin 0 (paint m x y w h colour) := by
  unfold paint
  split
  · exact failsWithin_fail nofun
  · refine (takes_lift ?_).bind fun _ => (Succeeds.pure _).failsWithin
    rcases colourOfNumber colour with e | c
    · intro e' h
      cases h
      exact nofun
    · intro e' h
      cases h

theorem takes_addAddress (op : Opcode) (base offset : Int) :
    Takes 0 (lift (addAddress op base offset)) := by
  apply takes_lift
  intro e h
  rw [addAddress_eq_error h]
  nofun

/-- Only a shifted label takes a value from the stack. -/
theorem takes_resolve (m : Machine) (index : Nat) (v : Value) : Takes 1 (resolve m index v) := by
  cases v with
  | number x => exact (takes_pure _).mono (by omega)
  | array slots => exact (takes_pure _).mono (by omega)
  | function name =>
    rcases ha : m.program.address? name with _ | address
    · simp only [resolve, ha]
      refine (takes_fail ?_).mono (by omega)
      intro counter last h
      cases h
    · simp only [resolve, ha]
      exact (takes_pure _).mono (by omega)
  | label offset frame => exact (takes_access _).mono (by omega)
  | shiftedLabel offset frame =>
    exact (takes_popInteger _ _).seq fun _ => (takes_addAddress _ _ _).seq fun _ =>
      takes_access _
  | counterOffset offset =>
    refine Takes.mono ?_ (Nat.zero_le 1)
    exact (takes_addAddress _ _ _).seq fun _ => takes_pure _

theorem takes_checkGrowth {fault : Nat → Nat → Fault} (hf : ∀ a b, (fault a b).Placed)
    (current count limit : Nat) : Takes 0 (lift (checkGrowth fault current count limit)) := by
  apply takes_lift
  intro e h
  obtain ⟨requested, rfl⟩ := checkGrowth_eq_error h
  exact hf requested limit

/-- Once depth and range are checked, storing a row of values cannot fail any more. -/
theorem failsWithin_storeRange (fs : FrameStack) (op : Opcode) (frame location : Int) (count : Nat) :
    FailsWithin 0 (do
      ensureDepth op count
      let _ ← access (fs.checkRange frame location count)
      let vs ← take count
      return Effect.store (← access (fs.writeRange location frame vs))) := by
  intro s e t h
  rcases bind_eq_error.mp h with hfail | ⟨_, r, hd, hrest⟩
  · exact (takes_ensureDepth op count).fails s e t hfail
  have hs : (s.take count).length = count ∧ r = s := by
    rw [ensureDepth_apply] at hd
    split at hd
    · cases hd
    · cases hd
      exact ⟨List.length_take_of_le (by omega), rfl⟩
  obtain ⟨hlength, rfl⟩ := hs
  rcases bind_eq_error.mp hrest with hfail | ⟨x, u, hx, hrest⟩
  · exact (takes_access _).fails r e t hfail
  -- From here on nothing fails: the values taken are as many as the slots that were found.
  exfalso
  rcases hc : fs.checkRange frame location count with e' | y
  · rw [hc] at hx
    cases hx
  · rw [hc] at hx
    cases hx
    rw [← hlength] at hc
    have hfs := FrameStack.writeRange_of_checkRange hc
    rcases bind_eq_error.mp hrest with hfail | ⟨vs, u, hv, hrest⟩
    · cases hfail
    · cases hv
      rw [hfs] at hrest
      cases hrest

/-- A failing instruction has taken no more than its fixed operands. -/
theorem plan_failsWithin (m : Machine) (index : Nat) (i : Instruction) :
    FailsWithin i.opcode.fixedOperands (plan m index i) := by
  obtain ⟨op, operand⟩ := i
  -- Each plan takes its fixed operands first; from there on it only checks, or it cannot fail.
  cases op with
  | add | sub | mul | div | mod | max | min | and | or => exact failsWithin_binary _ _
  | inc | dec | round | not => exact failsWithin_unary _ _
  | lt | le | gt | ge => exact failsWithin_relation _ _
  | eq | neq => exact failsWithin_equality _ _
  | cjmp | cjmp2 => exact failsWithin_branch _ _
  | irnd =>
    refine (takes_popNumber _).bind fun bound => ?_
    split
    · exact ((Succeeds.push _).bind fun _ => .pure _).failsWithin
    · exact failsWithin_fail nofun
  | dup =>
    exact (takes_pop _).bind fun _ =>
      ((Succeeds.push _).bind fun _ => (Succeeds.push _).bind fun _ => .pure _).failsWithin
  | drop | print => exact (takes_pop _).bind fun _ => (Succeeds.pure _).failsWithin
  | push =>
    cases operand with
    | none => exact failsWithin_fail nofun
    | some v =>
      exact (takes_resolve m index v).bind fun _ =>
        ((Succeeds.push _).bind fun _ => .pure _).failsWithin
  | nop | halt | cframe | getchar => exact (Succeeds.pure _).failsWithin
  | jmp => exact (takes_popInteger _ _).bind fun _ => (Succeeds.pure _).failsWithin
  | call =>
    exact (takes_popInteger _ _).bind fun _ => (takes_popCount _ _).bind fun _ =>
      (takes_ensureDepth _ _).bind fun _ => ((Succeeds.take _).bind fun _ => .pure _).failsWithin
  | ret =>
    unfold plan
    dsimp only
    split
    · exact (Succeeds.pure _).failsWithin
    · exact failsWithin_fail nofun
  | alloc =>
    exact (takes_popCount _ _).bind fun _ => (takes_checkGrowth (by nofun) _ _ _).bind fun _ =>
      (takes_access _).bind fun _ => (Succeeds.pure _).failsWithin
  | oframe =>
    exact (takes_popCount _ _).bind fun _ => (takes_checkGrowth (by nofun) _ _ _).bind fun _ =>
      (Succeeds.pure _).failsWithin
  | st =>
    exact (takes_popInteger _ _).bind fun _ => (takes_popInteger _ _).bind fun _ =>
      (takes_pop _).bind fun _ => (takes_access _).bind fun _ => (Succeeds.pure _).failsWithin
  | delay =>
    refine (takes_popNumber _).bind fun milliseconds => ?_
    split
    · exact (takes_fail (by nofun)).bind fun _ => (Succeeds.pure _).failsWithin
    · exact (Succeeds.pure _).failsWithin
  | write =>
    exact (takes_popNumber _).bind fun _ => (takes_popNumber _).bind fun _ =>
      (takes_popNumber _).bind fun _ => failsWithin_paint m _ _ _ _ _
  | writebox =>
    exact (takes_popNumber _).bind fun _ => (takes_popNumber _).bind fun _ =>
      (takes_popNumber _).bind fun _ => (takes_popNumber _).bind fun _ =>
        (takes_popNumber _).bind fun _ => failsWithin_paint m _ _ _ _ _
  | clear => exact (takes_popNumber _).bind fun _ => failsWithin_paint m _ _ _ _ _
  | read =>
    refine (takes_popNumber _).bind fun x => (takes_popNumber _).bind fun y => ?_
    split
    · exact ((Succeeds.push _).bind fun _ => .pure _).failsWithin
    · exact failsWithin_fail nofun
  | width | height => exact ((Succeeds.push _).bind fun _ => .pure _).failsWithin
  | dupa =>
    exact (takes_pop _).bind fun _ => (takes_popCount _ _).bind fun _ => takes_get.bind fun _ =>
      (takes_checkGrowth (by nofun) _ _ _).bind fun _ =>
        ((Succeeds.pushAll _).bind fun _ => .pure _).failsWithin
  | sta =>
    exact (takes_popInteger _ _).bind fun _ => (takes_popInteger _ _).bind fun _ =>
      (takes_popCount _ _).bind fun _ => failsWithin_storeRange _ _ _ _ _
  | pusha =>
    refine (takes_popCount _ _).bind fun count => ?_
    split
    · exact (takes_access _).bind fun _ => ((Succeeds.pushAll _).bind fun _ => .pure _).failsWithin
    · exact failsWithin_fail nofun
    · exact failsWithin_fail nofun
  | printa =>
    exact (takes_popCount _ _).bind fun _ => (takes_ensureDepth _ _).bind fun _ =>
      ((Succeeds.take _).bind fun _ => .pure _).failsWithin
  | reta =>
    exact (takes_popCount _ _).bind fun _ => (takes_ensureDepth _ _).bind fun _ =>
      ((Succeeds.take _).bind fun _ => (Succeeds.pushAll _).bind fun _ => .pure _).failsWithin
  | putchar =>
    refine (takes_popNumber _).bind fun code => ?_
    split
    · exact (Succeeds.pure _).failsWithin
    · exact failsWithin_fail nofun

theorem fixedOperands_le (op : Opcode) : op.fixedOperands ≤ 5 := by
  cases op <;> decide

/-- All that a failing step changes: the machine is halted and its observers hear of that, the
instruction is recorded, and some of its operands are gone. -/
structure FailsCleanly (m : Machine) (e : Fault) (m' : Machine) : Prop where
  rest : m' = { m with
    stack := m'.stack
    trace := m'.trace
    halted := true
    observers := m.observers.announce (.haltedChanged true) }
  announced : m'.observers.announced = .haltedChanged true :: m.observers.announced
  /-- With the counter outside the program there is no instruction to record. -/
  outside : (∃ counter last, e = .counterOutOfBounds counter last) →
    m'.stack = m.stack ∧ m'.trace = m.trace
  inside : (∀ counter last, e ≠ .counterOutOfBounds counter last) → ∃ i taken,
    m.program.instruction? m.counter.toNat = some i ∧
      m'.trace = m.trace.record m.counter.toNat i.opcode ∧
      m'.stack = m.stack.drop taken ∧ taken ≤ 5 ∧
      (i.opcode ∈ [.call, .dupa] → taken ≤ 2) ∧ (i.opcode = .sta → taken ≤ 3) ∧
      (i.opcode ∈ [.pusha, .printa, .reta] → taken ≤ 1)
  depths : m'.trace.maxWorkStack = m.trace.maxWorkStack ∧
    m'.trace.maxFrameDepth = m.trace.maxFrameDepth ∧ m'.trace.maxCallDepth = m.trace.maxCallDepth

/-- An instruction that fails never applies half of what it does: it loses at most its fixed operands,
none of the values it counts, and no other part of the machine changes. -/
theorem failed_step_changes_nothing_else {m m' : Machine} {e : Fault} (hh : m.halted = false)
    (h : m.step = some (.error e, m')) : FailsCleanly m e m' := by
  cases step_eq_some_iff.mp h with
  | halted hh' => simp [hh] at hh'
  | misplaced _ hc =>
    -- No instruction was found, so nothing was recorded or taken.
    obtain ⟨counter, last, rfl⟩ := current_eq_error hc
    exact ⟨rfl, rfl, fun _ => ⟨rfl, rfl⟩, fun hne => absurd rfl (hne counter last), rfl, rfl, rfl⟩
  | @failed index i _ stack _ hc hp =>
    obtain ⟨rfl, _, hi⟩ := current_eq_ok hc
    obtain ⟨hplaced, taken, ht, rfl⟩ := plan_failsWithin m _ i m.stack e stack hp
    have hfive := fixedOperands_le i.opcode
    refine ⟨rfl, rfl, ?_, ?_, rfl, rfl, rfl⟩
    · rintro ⟨counter, last, he⟩
      exact absurd he (hplaced counter last)
    · intro _
      refine ⟨i, taken, hi, rfl, rfl, by omega, ?_, ?_, ?_⟩
      · intro hop
        rcases i with ⟨op, operand⟩
        simp only [List.mem_cons, List.not_mem_nil, or_false] at hop
        rcases hop with rfl | rfl <;> exact ht
      · intro hop
        rcases i with ⟨op, operand⟩
        subst hop
        exact ht
      · intro hop
        rcases i with ⟨op, operand⟩
        simp only [List.mem_cons, List.not_mem_nil, or_false] at hop
        rcases hop with rfl | rfl | rfl <;> exact ht

/-- A machine about to compare an array with a number. -/
def comparing : Machine :=
  { build .headless {} with
    program := ⟨#[⟨.eq, none⟩], .empty⟩
    stack := [.array [], .number 1.0, .number 2.0]
    halted := false }

theorem failed_comparison_changes_nothing_else :
    comparing.halted = false ∧ ∃ e m', comparing.step = some (.error e, m') ∧
      m'.stack = [.number 2.0] ∧ FailsCleanly comparing e m' :=
  ⟨rfl, _, _, rfl, rfl, failed_step_changes_nothing_else rfl rfl⟩

end Machine

end PixelMachine
