import PixelMachine.Machine.Step

/-! Which effect each operation may ask for, and which parts of the machine its plan looks at. -/
namespace PixelMachine

namespace Operands

variable {α β : Type}

/-- A sequence succeeds exactly if both of its parts do, one after the other. -/
theorem bind_eq_ok {p : Operands α} {f : α → Operands β} {s t : List Value} {b : β} :
    (p >>= f) s = .ok (b, t) ↔ ∃ a r, p s = .ok (a, r) ∧ f a r = .ok (b, t) := by
  change (p s >>= fun x => f x.1 x.2) = _ ↔ _
  constructor
  · intro h
    rcases hp : p s with e | ⟨a, r⟩
    · rw [hp] at h
      cases h
    · rw [hp] at h
      exact ⟨a, r, rfl, h⟩
  · rintro ⟨a, r, hp, hf⟩
    rw [hp]
    exact hf

/-- A sequence fails where one of its parts does. -/
theorem bind_eq_error {p : Operands α} {f : α → Operands β} {s : List Value}
    {e : Fault × List Value} :
    (p >>= f) s = .error e ↔ p s = .error e ∨ ∃ a r, p s = .ok (a, r) ∧ f a r = .error e := by
  change (p s >>= fun x => f x.1 x.2) = _ ↔ _
  constructor
  · intro h
    rcases hp : p s with e' | ⟨a, r⟩
    · rw [hp] at h
      cases h
      exact .inl rfl
    · rw [hp] at h
      exact .inr ⟨a, r, rfl, h⟩
  · rintro (hp | ⟨a, r, hp, hf⟩)
    · rw [hp]
      rfl
    · rw [hp]
      exact hf

theorem lift_eq_ok {r : Except Fault α} {s t : List Value} {a : α} :
    lift r s = .ok (a, t) ↔ r = .ok a ∧ t = s := by
  cases r with
  | error e =>
    constructor
    · nofun
    · nofun
  | ok b =>
    constructor
    · intro h
      cases h
      exact ⟨rfl, rfl⟩
    · rintro ⟨h, rfl⟩
      cases h
      rfl

/-- The two ways in which a number is no address. -/
theorem integerOf_eq_error {op : Opcode} {role : Role} {x : Float} {e : Fault}
    (h : integerOf op role x = .error e) :
    e = .integerOutOfRange op role x ∨ e = .notAnInteger op role x := by
  unfold integerOf at h
  split at h
  · split at h
    · cases h
    · cases h
      exact .inl rfl
  · cases h
    exact .inr rfl

theorem fits_of_popInteger {op : Opcode} {role : Role} {n : Int} {s t : List Value}
    (h : popInteger op role s = .ok (n, t)) : FitsInt64 n := by
  obtain ⟨x, r, _, hx⟩ := bind_eq_ok.mp h
  obtain ⟨hn, _⟩ := lift_eq_ok.mp hx
  unfold integerOf at hn
  split at hn
  · split at hn
    · next hfits =>
      cases hn
      exact hfits
    · cases hn
  · cases hn

theorem fits_of_popCount {op : Opcode} {role : Role} {count : Nat} {s t : List Value}
    (h : popCount op role s = .ok (count, t)) : FitsInt64 count := by
  obtain ⟨n, r, hn, h⟩ := bind_eq_ok.mp h
  obtain ⟨hlow, hhigh⟩ := fits_of_popInteger hn
  split at h
  · cases h
  · cases h
    exact ⟨by omega, by omega⟩

/-- Whatever the stack, a result satisfies a condition. -/
def Yields (Q : α → Prop) (p : Operands α) : Prop := ∀ s a t, p s = .ok (a, t) → Q a

theorem Yields.bind {Q : β → Prop} {p : Operands α} {f : α → Operands β}
    (hf : ∀ a, Yields Q (f a)) : Yields Q (p >>= f) := by
  intro s b t h
  obtain ⟨a, r, _, hb⟩ := bind_eq_ok.mp h
  exact hf a r b t hb

theorem Yields.pure {Q : α → Prop} {a : α} (ha : Q a) : Yields Q (Pure.pure a) := by
  intro s b t h
  cases h
  exact ha

theorem Yields.fail {Q : α → Prop} {e : Fault} : Yields Q (Operands.fail e) := by
  intro s b t h
  cases h

end Operands

open Operands

/-- The operations that ask for an effect, and what the effect has from the machine. -/
def Effect.Suits (m : Machine) (op : Opcode) : Effect → Prop
  | .next => op ∉ [.jmp, .call, .ret, .halt, .getchar]
  | .jump _ => op ∈ [.jmp, .cjmp, .cjmp2]
  | .call _ _ => op = .call
  | .ret target rest => op = .ret ∧ m.returns = target :: rest
  | .halt => op = .halt
  | .store _ => op ∈ [.alloc, .oframe, .cframe, .st, .sta]
  | .paint _ _ => op ∈ [.write, .writebox, .clear]
  | .print _ => op ∈ [.print, .printa, .putchar]
  | .roll random => op = .irnd ∧ random = m.random.sample.2
  | .awaitKey => op = .getchar

namespace Machine

theorem addAddress_eq_error {op : Opcode} {base offset : Int} {e : Fault}
    (h : addAddress op base offset = .error e) : e = .addressOverflow op base offset := by
  unfold addAddress at h
  split at h
  · cases h
  · cases h
    rfl

theorem checkGrowth_eq_error {fault : Nat → Nat → Fault} {current count limit : Nat} {e : Fault}
    (h : checkGrowth fault current count limit = .error e) : ∃ requested, e = fault requested limit := by
  unfold checkGrowth at h
  split at h
  · cases h
  · cases h
    exact ⟨_, rfl⟩

theorem checkGrowth_eq_ok {fault : Nat → Nat → Fault} {current count limit : Nat} {u : Unit} :
    checkGrowth fault current count limit = .ok u ↔
      FitsUInt64 (current + count) ∧ current + count ≤ limit := by
  unfold checkGrowth
  split
  · next hfits => simpa using hfits
  · next hfits => simpa using hfits

theorem access_eq_ok {α : Type} {r : Except MemoryError α} {s t : List Value} {a : α} :
    access r s = .ok (a, t) ↔ r = .ok a ∧ t = s := by
  cases r with
  | error e =>
    constructor
    · intro h
      cases h
    · rintro ⟨h, _⟩
      cases h
  | ok b =>
    constructor
    · intro h
      cases h
      exact ⟨rfl, rfl⟩
    · rintro ⟨h, rfl⟩
      cases h
      rfl

theorem yields_unary {Q : Effect → Prop} (op : Opcode) (f : Float → Float) (hq : Q .next) :
    Yields Q (unary op f) :=
  .bind fun _ => .bind fun _ => .pure hq

theorem yields_binary {Q : Effect → Prop} (op : Opcode) (f : Float → Float → Float)
    (hq : Q .next) : Yields Q (binary op f) :=
  .bind fun _ => .bind fun _ => .bind fun _ => .pure hq

theorem yields_relation {Q : Effect → Prop} (op : Opcode) (f : Float → Float → Bool)
    (hq : Q .next) : Yields Q (relation op f) :=
  .bind fun _ => .bind fun _ => .bind fun _ => .pure hq

theorem yields_equality {Q : Effect → Prop} (op : Opcode) (negate : Bool) (hq : Q .next) :
    Yields Q (equality op negate) := by
  refine .bind fun x => .bind fun y => ?_
  split
  · exact .bind fun _ => .bind fun _ => .pure hq
  · exact .bind fun _ => .pure hq

theorem yields_branch {Q : Effect → Prop} (op : Opcode) (holds : Float → Bool)
    (hnext : Q .next) (hjump : ∀ target, Q (.jump target)) : Yields Q (branch op holds) := by
  refine .bind fun target => .bind fun condition => ?_
  split
  · exact .bind fun _ => .pure (hjump _)
  · exact .pure hnext

theorem yields_paint {Q : Effect → Prop} (m : Machine) (x y w h colour : Float)
    (hq : ∀ region colour, Q (.paint region colour)) : Yields Q (paint m x y w h colour) := by
  unfold paint
  split
  · exact .fail
  · exact .bind fun _ => .pure (hq _ _)

/-- An instruction asks only for effects that suit its opcode. -/
theorem plan_suits (m : Machine) (index : Nat) (i : Instruction) :
    Yields (Effect.Suits m i.opcode) (plan m index i) := by
  obtain ⟨op, operand⟩ := i
  -- Only the last step of a plan decides on the effect; what comes before is passed over.
  cases op with
  | add | sub | mul | div | mod | max | min | and | or =>
    exact yields_binary _ _ (by simp [Effect.Suits])
  | inc | dec | round | not => exact yields_unary _ _ (by simp [Effect.Suits])
  | lt | le | gt | ge => exact yields_relation _ _ (by simp [Effect.Suits])
  | eq | neq => exact yields_equality _ _ (by simp [Effect.Suits])
  | irnd =>
    refine .bind fun bound => ?_
    split
    · exact .bind fun _ => .pure ⟨rfl, rfl⟩
    · exact .fail
  | dup => exact .bind fun _ => .bind fun _ => .bind fun _ => .pure (by simp [Effect.Suits])
  | drop => exact .bind fun _ => .pure (by simp [Effect.Suits])
  | push =>
    cases operand with
    | none => exact .fail
    | some v => exact .bind fun _ => .bind fun _ => .pure (by simp [Effect.Suits])
  | nop => exact .pure (by simp [Effect.Suits])
  | jmp => exact .bind fun _ => .pure (by simp [Effect.Suits])
  | cjmp | cjmp2 => exact yields_branch _ _ (by simp [Effect.Suits]) (by simp [Effect.Suits])
  | call => exact .bind fun _ => .bind fun _ => .bind fun _ => .bind fun _ => .pure rfl
  | ret =>
    unfold plan
    dsimp only
    split
    · next target rest hr => exact .pure ⟨rfl, hr⟩
    · exact .fail
  | halt => exact .pure rfl
  | alloc => exact .bind fun _ => .bind fun _ => .bind fun _ => .pure (by simp [Effect.Suits])
  | oframe => exact .bind fun _ => .bind fun _ => .pure (by simp [Effect.Suits])
  | cframe => exact .pure (by simp [Effect.Suits])
  | st =>
    exact .bind fun _ => .bind fun _ => .bind fun _ => .bind fun _ => .pure (by simp [Effect.Suits])
  | delay =>
    refine .bind fun milliseconds => ?_
    split
    · exact .bind fun _ => .pure (by simp [Effect.Suits])
    · exact .pure (by simp [Effect.Suits])
  | write =>
    refine .bind fun x => .bind fun y => .bind fun colour => ?_
    exact yields_paint _ _ _ _ _ _ (by simp [Effect.Suits])
  | writebox =>
    refine .bind fun x => .bind fun y => .bind fun w => .bind fun h => .bind fun colour => ?_
    exact yields_paint _ _ _ _ _ _ (by simp [Effect.Suits])
  | clear => exact .bind fun _ => yields_paint _ _ _ _ _ _ (by simp [Effect.Suits])
  | read =>
    refine .bind fun x => .bind fun y => ?_
    split
    · exact .bind fun _ => .pure (by simp [Effect.Suits])
    · exact .fail
  | width | height => exact .bind fun _ => .pure (by simp [Effect.Suits])
  | print => exact .bind fun _ => .pure (by simp [Effect.Suits])
  | dupa =>
    exact .bind fun _ => .bind fun _ => .bind fun _ => .bind fun _ => .bind fun _ =>
      .pure (by simp [Effect.Suits])
  | sta =>
    exact .bind fun _ => .bind fun _ => .bind fun _ => .bind fun _ => .bind fun _ =>
      .bind fun _ => .bind fun _ => .pure (by simp [Effect.Suits])
  | pusha =>
    refine .bind fun count => ?_
    split
    · exact .bind fun _ => .bind fun _ => .pure (by simp [Effect.Suits])
    · exact .fail
    · exact .fail
  | printa => exact .bind fun _ => .bind fun _ => .bind fun _ => .pure (by simp [Effect.Suits])
  | reta =>
    exact .bind fun _ => .bind fun _ => .bind fun _ => .bind fun _ => .pure (by simp [Effect.Suits])
  | getchar => exact .pure rfl
  | putchar =>
    refine .bind fun code => ?_
    split
    · exact .pure (by simp [Effect.Suits])
    · exact .fail

/-- A plan looks at the program, the settings, the screen, the random source, memory and the return
stack, and at nothing else. -/
theorem plan_congr {a b : Machine} (hprogram : a.program = b.program) (hconfig : a.config = b.config)
    (hscreen : a.screen = b.screen) (hrandom : a.random = b.random) (hframes : a.frames = b.frames)
    (hreturns : a.returns = b.returns) (index : Nat) (i : Instruction) :
    plan a index i = plan b index i := by
  -- The two helpers that take the machine as a whole come first.
  have hpaint : paint a = paint b := by
    funext x y w h colour
    simp only [paint, hscreen]
  have hresolve : resolve a index = resolve b index := by
    funext v
    cases v <;> simp only [resolve, hprogram, hframes]
  simp only [plan, hpaint, hresolve, hconfig, hscreen, hrandom, hframes, hreturns]

end Machine

end PixelMachine
