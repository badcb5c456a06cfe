import PixelMachine.Proofs.Failures

/-! The frame rule of the work stack: what lies below the values that a program works on neither
changes what it does nor is changed by it. Only `dupa` measures the whole stack. -/
namespace PixelMachine

namespace Operands

variable {α β : Type} {n : Nat}

/-- On a stack of at least `n` values, a success stays the same when more values lie below, and it
leaves them there. -/
def Local (n : Nat) (p : Operands α) : Prop :=
  ∀ s a t, n ≤ s.length → p s = .ok (a, t) → ∀ below, p (s ++ below) = .ok (a, t ++ below)

theorem Local.bind {p : Operands α} {f : α → Operands β} (hp : Local n p)
    (hf : ∀ a, Local 0 (f a)) : Local n (p >>= f) := by
  intro s b t hn h below
  obtain ⟨a, r, ha, hb⟩ := bind_eq_ok.mp h
  have ha' := hp s a r hn ha below
  have hb' := hf a r b t (Nat.zero_le _) hb below
  exact bind_eq_ok.mpr ⟨a, r ++ below, ha', hb'⟩

theorem local_pure (a : α) : Local n (pure a) := by
  intro s b t _ h below
  cases h
  rfl

theorem local_fail (e : Fault) : Local n (fail e : Operands α) := by
  intro s b t _ h
  cases h

theorem local_lift (r : Except Fault α) : Local n (lift r) := by
  cases r with
  | error e => exact local_fail e
  | ok a => exact local_pure a

/-- A check leaves the stack as it is, so that what follows finds as many values. -/
theorem Local.after_lift {r : Except Fault α} {f : α → Operands β} (hf : ∀ a, Local n (f a)) :
    Local n (lift r >>= f) := by
  cases r with
  | error e =>
    intro s b t _ h
    cases h
  | ok a => exact hf a

theorem local_push (v : Value) : Local n (push v) := by
  intro s a t _ h below
  cases h
  rfl

theorem local_pushAll (vs : List Value) : Local n (pushAll vs) := by
  intro s a t _ h below
  cases h
  change Except.ok ((), vs.reverse ++ (s ++ below)) = _
  rw [← List.append_assoc]

theorem local_pop (op : Opcode) : Local n (pop op) := by
  intro s v t _ h below
  rcases s with _ | ⟨w, s⟩
  · cases h
  · cases h
    rfl

/-- With enough values on the stack, none is taken from below it. -/
theorem local_take : Local n (take n) := by
  intro s vs t hn h below
  cases h
  change Except.ok ((s ++ below).take n, (s ++ below).drop n) = _
  rw [List.take_append_of_le_length hn, List.drop_append_of_le_length hn]

theorem Local.after_depth {op : Opcode} {f : Unit → Operands β} (hf : Local n (f ())) :
    Local 0 (ensureDepth op n >>= f) := by
  intro s b t _ h below
  obtain ⟨_, r, hd, hb⟩ := bind_eq_ok.mp h
  rw [ensureDepth_apply] at hd
  split at hd
  · cases hd
  · next hn =>
    cases hd
    have hb' := hf s b t (by omega) hb below
    refine bind_eq_ok.mpr ⟨(), s ++ below, ?_, hb'⟩
    rw [ensureDepth_apply, if_neg (by rw [List.length_append]; omega)]

theorem local_popNumber (op : Opcode) : Local n (popNumber op) := by
  refine (local_pop op).bind fun v => ?_
  cases v with
  | number x => exact local_pure x
  | _ => exact local_fail _

theorem local_popInteger (op : Opcode) (role : Role) : Local n (popInteger op role) :=
  (local_popNumber op).bind fun _ => local_lift _

theorem local_popCount (op : Opcode) (role : Role) : Local n (popCount op role) := by
  refine (local_popInteger op role).bind fun count => ?_
  split
  · exact local_fail _
  · exact local_pure _

end Operands

namespace Machine

open Operands

/-- Pushing a value and going on. -/
theorem local_answer (v : Value) {effect : Effect} : Local 0 (do push v; return effect) :=
  (local_push v).bind fun _ => local_pure _

theorem local_unary (op : Opcode) (f : Float → Float) : Local 0 (unary op f) :=
  (local_popNumber op).bind fun _ => local_answer _

theorem local_binary (op : Opcode) (f : Float → Float → Float) : Local 0 (binary op f) :=
  (local_popNumber op).bind fun _ => (local_popNumber op).bind fun _ => local_answer _

theorem local_relation (op : Opcode) (f : Float → Float → Bool) : Local 0 (relation op f) :=
  (local_popNumber op).bind fun _ => (local_popNumber op).bind fun _ => local_answer _

theorem local_equality (op : Opcode) (negate : Bool) : Local 0 (equality op negate) := by
  refine (local_pop op).bind fun x => (local_pop op).bind fun y => ?_
  split
  · exact (local_fail _).bind fun _ => local_answer _
  · exact local_answer _

theorem local_branch (op : Opcode) (holds : Float → Bool) : Local 0 (branch op holds) := by
  refine (local_popNumber op).bind fun target => (local_popNumber op).bind fun condition => ?_
  split
  · exact (local_lift _).bind fun _ => local_pure _
  · exact local_pure _

theorem local_paint (m : Machine) (x y w h colour : Float) : Local 0 (paint m x y w h colour) := by
  unfold paint
  split
  · exact local_fail _
  · exact (local_lift _).bind fun _ => local_pure _

theorem local_resolve (m : Machine) (index : Nat) (v : Value) : Local 0 (resolve m index v) := by
  cases v with
  | number x => exact local_pure _
  | array slots => exact local_pure _
  | function name =>
    rcases ha : m.program.address? name with _ | address
    · simp only [resolve, ha]
      exact local_fail _
    · simp only [resolve, ha]
      exact local_pure _
  | label offset frame => exact local_lift _
  | shiftedLabel offset frame =>
    exact (local_popInteger _ _).bind fun _ => (local_lift _).bind fun _ => local_lift _
  | counterOffset offset => exact (local_lift _).bind fun _ => local_pure _

/-- Every instruction but `dupa` looks only at its operands. -/
theorem plan_local (m : Machine) (index : Nat) {i : Instruction} (hop : i.opcode ≠ .dupa) :
    Local 0 (plan m index i) := by
  obtain ⟨op, operand⟩ := i
  have number {op : Opcode} : Local 0 (popNumber op) := local_popNumber op
  have integer {op : Opcode} {role : Role} : Local 0 (popInteger op role) := local_popInteger op role
  have count {op : Opcode} {role : Role} : Local 0 (popCount op role) := local_popCount op role
  -- The operations that count values make sure of their number before they take them.
  cases op with
  | dupa => exact absurd rfl hop
  | add | sub | mul | div | mod | max | min | and | or => exact local_binary _ _
  | inc | dec | round | not => exact local_unary _ _
  | lt | le | gt | ge => exact local_relation _ _
  | eq | neq => exact local_equality _ _
  | cjmp | cjmp2 => exact local_branch _ _
  | irnd =>
    refine number.bind fun bound => ?_
    split
    · exact local_answer _
    · exact local_fail _
  | dup => exact (local_pop _).bind fun _ => (local_push _).bind fun _ => local_answer _
  | drop | print => exact (local_pop _).bind fun _ => local_pure _
  | push =>
    cases operand with
    | none => exact local_fail _
    | some v => exact (local_resolve m index v).bind fun _ => local_answer _
  | nop | halt | cframe | getchar => exact local_pure _
  | jmp => exact integer.bind fun _ => local_pure _
  | call =>
    exact integer.bind fun _ => count.bind fun _ => .after_depth (local_take.bind fun _ => local_pure _)
  | ret =>
    unfold plan
    dsimp only
    split
    · exact local_pure _
    · exact local_fail _
  | alloc =>
    exact count.bind fun _ => (local_lift _).bind fun _ => (local_lift _).bind fun _ => local_pure _
  | oframe => exact count.bind fun _ => (local_lift _).bind fun _ => local_pure _
  | st =>
    exact integer.bind fun _ => integer.bind fun _ => (local_pop _).bind fun _ =>
      (local_lift _).bind fun _ => local_pure _
  | delay =>
    refine number.bind fun milliseconds => ?_
    split
    · exact (local_fail _).bind fun _ => local_pure _
    · exact local_pure _
  | write =>
    exact number.bind fun _ => number.bind fun _ => number.bind fun _ => local_paint m _ _ _ _ _
  | writebox =>
    exact number.bind fun _ => number.bind fun _ => number.bind fun _ => number.bind fun _ =>
      number.bind fun _ => local_paint m _ _ _ _ _
  | clear => exact number.bind fun _ => local_paint m _ _ _ _ _
  | read =>
    refine number.bind fun x => number.bind fun y => ?_
    split
    · exact local_answer _
    · exact local_fail _
  | width | height => exact local_answer _
  | sta =>
    exact integer.bind fun _ => integer.bind fun _ => count.bind fun _ =>
      .after_depth (.after_lift fun _ => local_take.bind fun _ =>
        (local_lift _).bind fun _ => local_pure _)
  | pusha =>
    refine count.bind fun _ => ?_
    split
    · exact (local_lift _).bind fun _ => (local_pushAll _).bind fun _ => local_pure _
    · exact local_fail _
    · exact local_fail _
  | printa => exact count.bind fun _ => .after_depth (local_take.bind fun _ => local_pure _)
  | reta =>
    exact count.bind fun _ =>
      .after_depth (local_take.bind fun _ => (local_pushAll _).bind fun _ => local_pure _)
  | putchar =>
    refine number.bind fun code => ?_
    split
    · exact local_pure _
    · exact local_fail _

/-- With room for what lies below, `dupa` does not see it either. -/
theorem plan_dupa_atop {m : Machine} {index : Nat} {i : Instruction} {s t below : List Value}
    {effect : Effect} (hop : i.opcode = .dupa) (h : plan m index i s = .ok (effect, t))
    (hroom : below.length + t.length ≤ m.config.stackLimit.toNat) :
    plan m index i (s ++ below) = .ok (effect, t ++ below) := by
  obtain ⟨op, operand⟩ := i
  subst hop
  obtain ⟨v, r, hv, hcopies⟩ := bind_eq_ok.mp h
  obtain ⟨count, u, hc, hgrow⟩ := bind_eq_ok.mp hcopies
  obtain ⟨_, _, hget, hgrow⟩ := bind_eq_ok.mp hgrow
  cases hget
  obtain ⟨_, w, hcheck, hpush⟩ := bind_eq_ok.mp hgrow
  obtain ⟨_, hw⟩ := lift_eq_ok.mp hcheck
  subst hw
  have hlocal : Local 0 (do pushAll (List.replicate count v); return Effect.next) :=
    (local_pushAll _).bind fun _ => local_pure _
  have hpush' := hlocal w effect t (Nat.zero_le _) hpush below
  cases hpush
  have hlimit := m.config.stackLimit.toNat_lt
  have hlength : below.length + (count + w.length) ≤ m.config.stackLimit.toNat := by
    simpa using hroom
  have hgrowth : checkGrowth (.stackLimit .dupa) (w ++ below).length count
      m.config.stackLimit.toNat = .ok () := by
    rw [checkGrowth_eq_ok, List.length_append]
    exact ⟨by omega, by omega⟩
  refine bind_eq_ok.mpr ⟨v, r ++ below, local_pop _ s v r (Nat.zero_le _) hv below, ?_⟩
  refine bind_eq_ok.mpr ⟨count, w ++ below, local_popCount _ _ r count w (Nat.zero_le _) hc below, ?_⟩
  refine bind_eq_ok.mpr ⟨w ++ below, w ++ below, rfl, ?_⟩
  exact bind_eq_ok.mpr ⟨(), w ++ below, lift_eq_ok.mpr ⟨hgrowth, rfl⟩, hpush'⟩

/-- The machine with more values below its work stack, and another record of how deep that stack
grew. -/
def atop (m : Machine) (below : List Value) (deepest : Nat) : Machine :=
  { m with stack := m.stack ++ below, trace := { m.trace with maxWorkStack := deepest } }

variable {below : List Value} {deepest : Nat}

theorem aside_atop : Aside (·.atop below deepest) where
  flags _ := ⟨rfl, rfl⟩
  input _ := ⟨rfl, rfl⟩
  keyboard _ _ := rfl
  control _ _ := rfl
  takes _ _ := rfl

theorem perform_atop (m : Machine) (effect : Effect) :
    (m.atop below deepest).perform effect = (m.perform effect).map (·.atop below deepest) := by
  cases effect with
  | next | jump | call | ret | halt | store | paint | roll => rfl
  | print texts =>
    simp only [perform, say_eq, Option.map_some]
    rfl
  | awaitKey => exact aside_atop.awaitKeyWithin _ m

/-- After `dupa` nothing is left to be carried out but to go on. -/
theorem stack_of_dupa {m m' : Machine} {index : Nat} {i : Instruction} {effect : Effect}
    {stack : List Value} (hop : i.opcode = .dupa) (hp : plan m index i m.stack = .ok (effect, stack))
    (hm : (m.begun index i stack).perform effect = some m') : m'.stack = stack := by
  have hsuits := plan_suits m index i m.stack effect stack hp
  rw [hop] at hsuits
  cases effect with
  | next =>
    cases hm
    rfl
  | _ => simp [Effect.Suits] at hsuits

/-- One step of the frame rule. -/
theorem step_atop {m m' : Machine} (h : m.step = some (.ok (), m'))
    (hroom : m.IsAt .dupa → below.length + m'.stack.length ≤ m.config.stackLimit.toNat) :
    ∃ deepest', (m.atop below deepest).step = some (.ok (), m'.atop below deepest') := by
  cases step_eq_some_iff.mp h with
  | @done index i effect stack m' hh hc hp hm =>
    have hplan : plan m index i (m.stack ++ below) = .ok (effect, stack ++ below) := by
      by_cases hop : i.opcode = .dupa
      · have hfits : below.length + m'.stack.length ≤ m.config.stackLimit.toNat :=
          hroom ⟨index, i, hc, hop⟩
        rw [stack_of_dupa hop hp hm] at hfits
        exact plan_dupa_atop hop hp hfits
      · exact plan_local m index hop m.stack effect stack (Nat.zero_le _) hp below
    -- Neither the values below nor the record of depths is something that a plan looks at.
    have hsame : plan (m.atop below deepest) index i = plan m index i :=
      plan_congr rfl rfl rfl rfl rfl rfl index i
    have hperform : ((m.atop below deepest).begun index i (stack ++ below)).perform effect =
        some (m'.atop below deepest) := by
      calc ((m.atop below deepest).begun index i (stack ++ below)).perform effect
        _ = ((m.begun index i stack).atop below deepest).perform effect := rfl
        _ = ((m.begun index i stack).perform effect).map (·.atop below deepest) := perform_atop _ _
        _ = some (m'.atop below deepest) := by rw [hm, Option.map_some]
    refine ⟨max deepest (m'.stack ++ below).length, ?_⟩
    have hdone : Steps (m.atop below deepest) (.ok (), (m'.atop below deepest).measured) :=
      .done hh hc (hsame ▸ hplan) hperform
    exact step_eq_some_iff.mpr hdone

theorem config_of_advance {m m' : Machine} {k : Nat} (h : m.advance k = some m') :
    m'.config = m.config := by
  induction k generalizing m' with
  | zero =>
    cases h
    rfl
  | succ k ih =>
    obtain ⟨b, hb, hs⟩ := advance_succ_eq_some.mp h
    obtain ⟨_, hconfig, _⟩ := step_keeps hs
    exact hconfig.trans (ih hb)

/-- The frame rule of the work stack. If some steps succeed one after the other, they succeed just so
with more values below the work stack, as long as `dupa` finds room for all of them. Those values stay
where they are, and in the end only the recorded depth of the stack may differ. -/
theorem steps_leave_values_below {s t : Machine} {k : Nat} {below : List Value}
    (h : s.advance k = some t)
    (hroom : ∀ j < k, ∀ a b, s.advance j = some a → s.advance (j + 1) = some b → a.IsAt .dupa →
      below.length + b.stack.length ≤ s.config.stackLimit.toNat) :
    ∃ deepest, { s with stack := s.stack ++ below }.advance k =
      some { t with
        stack := t.stack ++ below
        trace := { t.trace with maxWorkStack := deepest } } := by
  induction k generalizing t with
  | zero =>
    cases h
    exact ⟨s.trace.maxWorkStack, rfl⟩
  | succ k ih =>
    obtain ⟨b, hb, hs⟩ := advance_succ_eq_some.mp h
    obtain ⟨deepest, hover⟩ := ih hb fun j hj => hroom j (by omega)
    have hlast : b.IsAt .dupa → below.length + t.stack.length ≤ b.config.stackLimit.toNat := by
      intro hat
      rw [config_of_advance hb]
      exact hroom k (by omega) b t hb h hat
    obtain ⟨deepest', hstep⟩ : ∃ deepest', (b.atop below deepest).step = _ := step_atop hs hlast
    exact ⟨deepest', advance_succ_eq_some.mpr ⟨_, hover, hstep⟩⟩

/-- A machine with room for three values that is about to copy one of them twice. -/
def copying : Machine :=
  { build .headless { stackLimit := 3 } with
    program := ⟨#[⟨.dupa, none⟩, ⟨.drop, none⟩], .empty⟩
    stack := [.array [], .number 2.0]
    halted := false }

theorem copying_leaves_value_below :
    ∃ t deepest, copying.advance 2 = some t ∧ t.stack = [.array []] ∧
      (∀ j < 2, ∀ a b, copying.advance j = some a → copying.advance (j + 1) = some b →
        a.IsAt .dupa → [Value.number 7.0].length + b.stack.length ≤ 3) ∧
      { copying with stack := copying.stack ++ [Value.number 7.0] }.advance 2 =
        some { t with
          stack := [.array [], .number 7.0]
          trace := { t.trace with maxWorkStack := deepest } } := by
  have hrun : ∃ b t, copying.advance 1 = some b ∧ b.stack.length = 2 ∧ copying.advance 2 = some t ∧
      t.stack = [.array []] ∧ b.current = .ok (1, ⟨.drop, none⟩) := ⟨_, _, rfl, rfl, rfl, rfl, rfl⟩
  obtain ⟨b, t, hb, hlength, ht, hstack, hcurrent⟩ := hrun
  have hroom : ∀ j < 2, ∀ a c, copying.advance j = some a → copying.advance (j + 1) = some c →
      a.IsAt .dupa → [Value.number 7.0].length + c.stack.length ≤ 3 := by
    intro j hj a c ha hc hat
    match j with
    | 0 =>
      cases hb.symm.trans hc
      rw [List.length_singleton]
      omega
    | 1 =>
      -- The second instruction is another one.
      cases hb.symm.trans ha
      cases (isAt_iff hcurrent).mp hat
  obtain ⟨deepest, hover⟩ := steps_leave_values_below ht hroom
  rw [hstack] at hover
  exact ⟨t, deepest, ht, hstack, hroom, hover⟩

end Machine

end PixelMachine
