import PixelMachine.Proofs.Decoding
import PixelMachine.Proofs.Memory
import PixelMachine.Proofs.Reachable

/-! Which values come to the work stack and into memory: numbers, and arrays that the program itself
pushes. A program that is read from text has no arrays, so none of its instructions meets a value or
an operand of the wrong kind. -/
namespace PixelMachine

/-- The faults that tell of a value or operand of the wrong kind. -/
def Fault.ofKind : Fault → Bool
  | .typeMismatch _ _ _ | .missingOperand _ => true
  | _ => false

namespace Operands

variable {α β : Type} {A : Value → Prop} {bad : Prop}

/-- On a stack of good values every outcome leaves good values, a result satisfies a condition, and a
fault of kind comes only if something is bad. -/
def Keeps (A : Value → Prop) (bad : Prop) (Q : α → Prop) (p : Operands α) : Prop :=
  ∀ s, (∀ v ∈ s, A v) →
    (∀ a t, p s = .ok (a, t) → Q a ∧ ∀ v ∈ t, A v) ∧
      ∀ e t, p s = .error (e, t) → (e.ofKind = true → bad) ∧ ∀ v ∈ t, A v

theorem Keeps.bind {Q : α → Prop} {R : β → Prop} {p : Operands α} {f : α → Operands β}
    (hp : Keeps A bad Q p) (hf : ∀ a, Q a → Keeps A bad R (f a)) : Keeps A bad R (p >>= f) := by
  intro s hs
  obtain ⟨hok, herr⟩ := hp s hs
  refine ⟨?_, ?_⟩
  · intro b t h
    obtain ⟨a, r, ha, hb⟩ := bind_eq_ok.mp h
    obtain ⟨hq, hr⟩ := hok a r ha
    exact (hf a hq r hr).1 b t hb
  · intro e t h
    rcases bind_eq_error.mp h with h | ⟨a, r, ha, h⟩
    · exact herr e t h
    · obtain ⟨hq, hr⟩ := hok a r ha
      exact (hf a hq r hr).2 e t h

theorem keeps_pure {Q : α → Prop} {a : α} (ha : Q a) : Keeps A bad Q (pure a) := by
  intro s hs
  refine ⟨?_, ?_⟩
  · intro b t h
    cases h
    exact ⟨ha, hs⟩
  · intro e t h
    cases h

theorem keeps_fail {Q : α → Prop} {e : Fault} (he : e.ofKind = true → bad) :
    Keeps A bad Q (fail e) := by
  intro s hs
  refine ⟨?_, ?_⟩
  · intro b t h
    cases h
  · intro e' t h
    cases h
    exact ⟨he, hs⟩

theorem keeps_lift {Q : α → Prop} {r : Except Fault α} (hok : ∀ a, r = .ok a → Q a)
    (herr : ∀ e, r = .error e → e.ofKind = false) : Keeps A bad Q (lift r) := by
  rcases r with e | a
  · refine keeps_fail fun he => ?_
    rw [herr e rfl] at he
    cases he
  · exact keeps_pure (hok a rfl)

theorem keeps_push {v : Value} (hv : A v) : Keeps A bad (fun _ => True) (push v) := by
  intro s hs
  refine ⟨?_, ?_⟩
  · intro a t h
    cases h
    exact ⟨trivial, List.forall_mem_cons.mpr ⟨hv, hs⟩⟩
  · intro e t h
    cases h

theorem keeps_pushAll {vs : List Value} (hvs : ∀ v ∈ vs, A v) :
    Keeps A bad (fun _ => True) (pushAll vs) := by
  intro s hs
  refine ⟨?_, ?_⟩
  · intro a t h
    cases h
    refine ⟨trivial, fun v hv => ?_⟩
    rcases List.mem_append.mp hv with hv | hv
    · exact hvs v (List.mem_reverse.mp hv)
    · exact hs v hv
  · intro e t h
    cases h

theorem keeps_pop (op : Opcode) : Keeps A bad A (pop op) := by
  intro s hs
  rcases s with _ | ⟨w, s⟩
  · refine ⟨?_, ?_⟩
    · intro a t h
      cases h
    · intro e t h
      cases h
      exact ⟨nofun, hs⟩
  · refine ⟨?_, ?_⟩
    · intro a t h
      cases h
      exact List.forall_mem_cons.mp hs
    · intro e t h
      cases h

theorem keeps_take (count : Nat) : Keeps A bad (fun vs => ∀ v ∈ vs, A v) (take count) := by
  intro s hs
  refine ⟨?_, ?_⟩
  · intro a t h
    cases h
    exact ⟨fun v hv => hs v (List.mem_of_mem_take hv), fun v hv => hs v (List.mem_of_mem_drop hv)⟩
  · intro e t h
    cases h

theorem keeps_get : Keeps A bad (fun _ => True) (get : Operands (List Value)) := by
  intro s hs
  refine ⟨?_, ?_⟩
  · intro a t h
    cases h
    exact ⟨trivial, hs⟩
  · intro e t h
    cases h

theorem keeps_ensureDepth (op : Opcode) (count : Nat) :
    Keeps A bad (fun _ => True) (ensureDepth op count) := by
  refine keeps_get.bind fun s _ => ?_
  split
  · exact keeps_fail nofun
  · exact keeps_pure trivial

theorem keeps_popNumber (hbad : ∀ v, A v → v.kind ≠ .number → bad) (op : Opcode) :
    Keeps A bad (fun _ => True) (popNumber op) := by
  refine (keeps_pop op).bind fun v hv => ?_
  cases v with
  | number x => exact keeps_pure trivial
  | _ => exact keeps_fail fun _ => hbad _ hv nofun

theorem keeps_integerOf (op : Opcode) (role : Role) (x : Float) :
    Keeps A bad (fun _ => True) (lift (integerOf op role x)) := by
  apply keeps_lift
  · exact fun _ _ => trivial
  · intro e h
    rcases integerOf_eq_error h with rfl | rfl
    · rfl
    · rfl

theorem keeps_popInteger (hbad : ∀ v, A v → v.kind ≠ .number → bad) (op : Opcode) (role : Role) :
    Keeps A bad (fun _ => True) (popInteger op role) :=
  (keeps_popNumber hbad op).bind fun _ _ => keeps_integerOf op role _

theorem keeps_popCount (hbad : ∀ v, A v → v.kind ≠ .number → bad) (op : Opcode) (role : Role) :
    Keeps A bad (fun _ => True) (popCount op role) := by
  refine (keeps_popInteger hbad op role).bind fun count _ => ?_
  split
  · exact keeps_fail nofun
  · exact keeps_pure trivial

end Operands

/-- The values that an effect puts into memory satisfy a condition. -/
def Effect.Holds (A : Value → Prop) : Effect → Prop
  | .call _ arguments => ∀ v ∈ arguments, A v
  | .store frames => frames.Holds A
  | _ => True

namespace Machine

open Operands

section Plans

variable {A : Value → Prop} {bad : Prop}

theorem keeps_access {α : Type} {Q : α → Prop} {r : Except MemoryError α}
    (hr : ∀ a, r = .ok a → Q a) : Keeps A bad Q (access r) := by
  rcases r with e | a
  · exact keeps_fail nofun
  · exact keeps_pure (hr a rfl)

theorem keeps_checkGrowth {fault : Nat → Nat → Fault} (hf : ∀ a b, (fault a b).ofKind = false)
    (current count limit : Nat) :
    Keeps A bad (fun _ => True) (lift (checkGrowth fault current count limit)) := by
  apply keeps_lift
  · exact fun _ _ => trivial
  · intro e h
    obtain ⟨requested, rfl⟩ := checkGrowth_eq_error h
    exact hf requested limit

variable (hnumber : ∀ x, A (.number x)) (hbad : ∀ v, A v → v.kind ≠ .number → bad)

include hnumber in
/-- Pushing a number and going on. -/
theorem keeps_answer (x : Float) :
    Keeps A bad (Effect.Holds A) (do push (.number x); return .next) :=
  (keeps_push (hnumber x)).bind fun _ _ => keeps_pure trivial

include hnumber hbad

theorem keeps_unary (op : Opcode) (f : Float → Float) :
    Keeps A bad (Effect.Holds A) (unary op f) :=
  (keeps_popNumber hbad op).bind fun _ _ => keeps_answer hnumber _

theorem keeps_binary (op : Opcode) (f : Float → Float → Float) :
    Keeps A bad (Effect.Holds A) (binary op f) :=
  (keeps_popNumber hbad op).bind fun _ _ => (keeps_popNumber hbad op).bind fun _ _ =>
    keeps_answer hnumber _

theorem keeps_relation (op : Opcode) (f : Float → Float → Bool) :
    Keeps A bad (Effect.Holds A) (relation op f) :=
  (keeps_popNumber hbad op).bind fun _ _ => (keeps_popNumber hbad op).bind fun _ _ =>
    keeps_answer hnumber _

/-- Two numbers are of one kind, so a mismatch tells of a value that is no number. -/
theorem keeps_equality (op : Opcode) (negate : Bool) :
    Keeps A bad (Effect.Holds A) (equality op negate) := by
  refine (keeps_pop op).bind fun x hx => (keeps_pop op).bind fun y hy => ?_
  split
  · next hne =>
    have hmismatch : bad := by
      by_cases hk : x.kind = .number
      · exact hbad y hy fun hy => hne (hk.trans hy.symm)
      · exact hbad x hx hk
    exact (keeps_fail fun _ => hmismatch).bind fun _ (_ : True) => keeps_answer hnumber _
  · exact keeps_answer hnumber _

omit hnumber in
theorem keeps_branch (op : Opcode) (holds : Float → Bool) :
    Keeps A bad (Effect.Holds A) (branch op holds) := by
  refine (keeps_popNumber hbad op).bind fun target _ =>
    (keeps_popNumber hbad op).bind fun condition _ => ?_
  split
  · exact (keeps_integerOf _ _ _).bind fun _ _ => keeps_pure trivial
  · exact keeps_pure trivial

omit hnumber hbad in
theorem keeps_paint (m : Machine) (x y w h colour : Float) :
    Keeps A bad (Effect.Holds A) (paint m x y w h colour) := by
  unfold paint
  split
  · exact keeps_fail nofun
  · refine Keeps.bind ?_ fun _ (_ : True) => keeps_pure trivial
    rcases colourOfNumber colour with e | c
    · exact keeps_fail nofun
    · exact keeps_pure trivial

omit hnumber hbad in
theorem keeps_addAddress (op : Opcode) (base offset : Int) :
    Keeps A bad (fun _ => True) (lift (addAddress op base offset)) := by
  apply keeps_lift
  · exact fun _ _ => trivial
  · intro e h
    rw [addAddress_eq_error h]
    rfl

/-- An operand stands for a number or for what memory holds, unless it is an array. -/
theorem keeps_resolve {m : Machine} (hframes : m.frames.Holds A) (index : Nat) {v : Value}
    (hv : v.kind = .array → A v) : Keeps A bad A (resolve m index v) := by
  cases v with
  | number x => exact keeps_pure (hnumber x)
  | array slots => exact keeps_pure (hv rfl)
  | function name =>
    rcases ha : m.program.address? name with _ | address
    · simp only [resolve, ha]
      refine keeps_fail fun h => ?_
      cases h
    · simp only [resolve, ha]
      exact keeps_pure (hnumber _)
  | label offset frame => exact keeps_access fun _ => hframes.read
  | shiftedLabel offset frame =>
    exact (keeps_popInteger hbad _ _).bind fun _ _ => (keeps_addAddress _ _ _).bind fun _ _ =>
      keeps_access fun _ => hframes.read
  | counterOffset offset =>
    exact (keeps_addAddress _ _ _).bind fun _ _ => keeps_pure (hnumber _)

/-- An instruction moves good values only, and it finds fault with a kind only if some good value is
no number or the instruction lacks the operand it needs. -/
theorem plan_keeps {m : Machine} (hframes : m.frames.Holds A) (index : Nat) {i : Instruction}
    (hpush : ∀ v, i.opcode = .push → i.operand = some v → v.kind = .array → A v)
    (hregular : ¬ i.Regular → bad) : Keeps A bad (Effect.Holds A) (plan m index i) := by
  obtain ⟨op, operand⟩ := i
  -- New values are numbers; all others come from the stack, from memory or from the operand of a push.
  have number (op : Opcode) := keeps_popNumber hbad op
  have integer (op : Opcode) (role : Role) := keeps_popInteger hbad op role
  have count (op : Opcode) (role : Role) := keeps_popCount hbad op role
  cases op with
  | add | sub | mul | div | mod | max | min | and | or => exact keeps_binary hnumber hbad _ _
  | inc | dec | round | not => exact keeps_unary hnumber hbad _ _
  | lt | le | gt | ge => exact keeps_relation hnumber hbad _ _
  | eq | neq => exact keeps_equality hnumber hbad _ _
  | cjmp | cjmp2 => exact keeps_branch hbad _ _
  | irnd =>
    refine (number _).bind fun bound _ => ?_
    split
    · exact (keeps_push (hnumber _)).bind fun _ _ => keeps_pure trivial
    · exact keeps_fail nofun
  | dup =>
    exact (keeps_pop _).bind fun _ hv => (keeps_push hv).bind fun _ _ =>
      (keeps_push hv).bind fun _ _ => keeps_pure trivial
  | drop | print => exact (keeps_pop _).bind fun _ _ => keeps_pure trivial
  | push =>
    cases operand with
    | none => exact keeps_fail fun _ => hregular fun hr => hr.push rfl rfl
    | some v =>
      exact (keeps_resolve hnumber hbad hframes index (hpush v rfl rfl)).bind fun _ hw =>
        (keeps_push hw).bind fun _ _ => keeps_pure trivial
  | nop | halt | getchar => exact keeps_pure trivial
  | jmp => exact (integer _ _).bind fun _ _ => keeps_pure trivial
  | call =>
    exact (integer _ _).bind fun _ _ => (count _ _).bind fun _ _ =>
      (keeps_ensureDepth _ _).bind fun _ _ => (keeps_take _).bind fun _ hvs => keeps_pure hvs
  | ret =>
    unfold plan
    dsimp only
    split
    · exact keeps_pure trivial
    · exact keeps_fail nofun
  | alloc =>
    exact (count _ _).bind fun _ _ => (keeps_checkGrowth (fun _ _ => rfl) _ _ _).bind fun _ _ =>
      (keeps_access fun _ => hframes.alloc).bind fun _ hfs => keeps_pure hfs
  | oframe =>
    refine (count _ _).bind fun size _ => ?_
    refine (keeps_checkGrowth (fun _ _ => rfl) _ _ _).bind fun _ _ => ?_
    refine keeps_pure (hframes.enter fun v hv => ?_)
    cases List.eq_of_mem_replicate hv
  | cframe => exact keeps_pure hframes.leave
  | st =>
    exact (integer _ _).bind fun _ _ => (integer _ _).bind fun _ _ => (keeps_pop _).bind fun _ hv =>
      (keeps_access fun _ => hframes.write hv).bind fun _ hfs => keeps_pure hfs
  | delay =>
    refine (number _).bind fun milliseconds _ => ?_
    split
    · exact (keeps_fail nofun).bind fun _ (_ : True) => keeps_pure trivial
    · exact keeps_pure trivial
  | write =>
    exact (number _).bind fun _ _ => (number _).bind fun _ _ => (number _).bind fun _ _ =>
      keeps_paint m _ _ _ _ _
  | writebox =>
    exact (number _).bind fun _ _ => (number _).bind fun _ _ => (number _).bind fun _ _ =>
      (number _).bind fun _ _ => (number _).bind fun _ _ => keeps_paint m _ _ _ _ _
  | clear => exact (number _).bind fun _ _ => keeps_paint m _ _ _ _ _
  | read =>
    refine (number _).bind fun x _ => (number _).bind fun y _ => ?_
    split
    · exact keeps_answer hnumber _
    · exact keeps_fail nofun
  | width | height => exact keeps_answer hnumber _
  | dupa =>
    refine (keeps_pop _).bind fun v hv => (count _ _).bind fun n _ => keeps_get.bind fun s _ => ?_
    refine (keeps_checkGrowth (fun _ _ => rfl) _ _ _).bind fun _ _ => ?_
    refine (keeps_pushAll fun w hw => ?_).bind fun _ _ => keeps_pure trivial
    rw [List.eq_of_mem_replicate hw]
    exact hv
  | sta =>
    exact (integer _ _).bind fun _ _ => (integer _ _).bind fun _ _ => (count _ _).bind fun _ _ =>
      (keeps_ensureDepth _ _).bind fun _ _ => (keeps_access fun _ _ => trivial).bind fun _ (_ : True) =>
        (keeps_take _).bind fun _ hvs =>
          (keeps_access fun _ => hframes.writeRange hvs).bind fun _ hfs => keeps_pure hfs
  | pusha =>
    refine (count _ _).bind fun n _ => ?_
    split
    · exact (keeps_access fun _ => hframes.readRange).bind fun _ hvs =>
        (keeps_pushAll hvs).bind fun _ _ => keeps_pure trivial
    · next v hne hop =>
      refine keeps_fail fun _ => hregular fun hr => ?_
      obtain ⟨offset, frame, ho⟩ := hr.pusha rfl
      exact hne offset frame (Option.some.inj (hop.symm.trans ho))
    · next hop =>
      refine keeps_fail fun _ => hregular fun hr => ?_
      obtain ⟨offset, frame, ho⟩ := hr.pusha rfl
      cases hop.symm.trans ho
  | printa =>
    exact (count _ _).bind fun _ _ => (keeps_ensureDepth _ _).bind fun _ _ =>
      (keeps_take _).bind fun _ _ => keeps_pure trivial
  | reta =>
    exact (count _ _).bind fun _ _ => (keeps_ensureDepth _ _).bind fun _ _ =>
      (keeps_take _).bind fun _ hvs => (keeps_pushAll hvs).bind fun _ _ => keeps_pure trivial
  | putchar =>
    refine (number _).bind fun code _ => ?_
    split
    · exact keeps_pure trivial
    · exact keeps_fail nofun

end Plans

/-- Carrying out an effect that holds good values leaves good values. -/
theorem holds_perform {A : Value → Prop} (hnumber : ∀ x, A (.number x)) {m m' : Machine}
    {effect : Effect} (hstack : ∀ v ∈ m.stack, A v) (hframes : m.frames.Holds A)
    (heffect : effect.Holds A) (h : m.perform effect = some m') :
    (∀ v ∈ m'.stack, A v) ∧ m'.frames.Holds A := by
  cases effect with
  | call target arguments =>
    cases h
    refine ⟨hstack, hframes.enter fun v hv => ?_⟩
    obtain ⟨w, hw, hwv⟩ := List.mem_map.mp hv
    cases hwv
    exact heffect v hw
  | store frames =>
    cases h
    exact ⟨hstack, heffect⟩
  | print texts =>
    cases h
    rw [say_eq]
    exact ⟨hstack, hframes⟩
  | awaitKey =>
    cases awaited_of_awaitKeyWithin h with
    | key => exact ⟨List.forall_mem_cons.mpr ⟨hnumber _, hstack⟩, hframes⟩
    | interrupted => exact ⟨hstack, hframes⟩
  | next | jump | ret | halt | paint | roll =>
    cases h
    exact ⟨hstack, hframes⟩

end Machine

/-- The values that a program can bring to the stack: numbers, and arrays that one of its `push`
instructions carries. -/
def Program.Admits (p : Program) (v : Value) : Prop :=
  v.kind = .number ∨ v.kind = .array ∧ ∃ i ∈ p.instructions, i.opcode = .push ∧ i.operand = some v

/-- All values on the work stack and in memory are such that the program can bring them there. -/
def Work.Typed (w : Work) : Prop :=
  (∀ v ∈ w.stack, w.program.Admits v) ∧ w.frames.Holds w.program.Admits

namespace Machine

/-- A step keeps the values typed, and it finds fault with a kind only if some admitted value is no
number or some instruction lacks its operand. -/
theorem step_typed {m m' : Machine} {r : Except Fault Unit} (h : m.work.Typed)
    (hs : m.step = some (r, m')) :
    m'.work.Typed ∧ ∀ e, r = .error e → e.ofKind = true →
      (∃ v, m.program.Admits v ∧ v.kind ≠ .number) ∨ ∃ i ∈ m.program.instructions, ¬ i.Regular := by
  -- The admitted values are those of this program, which has the instruction at the counter.
  have hplan (index : Nat) (i : Instruction) (hc : m.current = .ok (index, i)) :
      Operands.Keeps m.program.Admits
        ((∃ v, m.program.Admits v ∧ v.kind ≠ .number) ∨ ∃ i ∈ m.program.instructions, ¬ i.Regular)
        (Effect.Holds m.program.Admits) (plan m index i) := by
    have hi := Array.mem_of_getElem? (current_eq_ok hc).2.2
    apply plan_keeps
    · exact fun _ => .inl rfl
    · exact fun v hv hk => .inl ⟨v, hv, hk⟩
    · exact h.2
    · exact fun v hop ho hk => .inr ⟨hk, i, hi, hop, ho⟩
    · exact fun hr => .inr ⟨i, hi, hr⟩
  cases step_eq_some_iff.mp hs with
  | halted =>
    refine ⟨h, fun e he hk => ?_⟩
    cases he
    cases hk
  | misplaced _ hc =>
    refine ⟨h, fun e he hk => ?_⟩
    cases he
    obtain ⟨counter, last, rfl⟩ := current_eq_error hc
    cases hk
  | @failed index i _ stack _ hc hp =>
    obtain ⟨hkind, hstack⟩ := (hplan index i hc m.stack h.1).2 _ _ hp
    refine ⟨⟨hstack, h.2⟩, fun e he => ?_⟩
    cases he
    exact hkind
  | @done index i effect stack m' _ hc hp hm =>
    obtain ⟨heffect, hstack⟩ := (hplan index i hc m.stack h.1).1 _ _ hp
    have hprogram : m'.program = m.program := (perform_keeps hm).1
    have hframes : (m.begun index i stack).frames.Holds m.program.Admits := h.2
    have hheld := holds_perform (fun _ => .inl rfl) hstack hframes heffect hm
    rw [← hprogram] at hheld
    exact ⟨hheld, fun e he => by cases he⟩

/-- The values stay typed in whatever way a machine is used. -/
theorem kept_typed : Kept Work.Typed where
  build := fun _ _ => ⟨nofun, FrameStack.holds_initial⟩
  load := fun _ _ _ => ⟨nofun, FrameStack.holds_initial⟩
  reset := fun _ _ => ⟨nofun, FrameStack.holds_initial⟩
  resize := fun _ _ h => h
  step := fun _ _ _ h hs => (step_typed h hs).1

end Machine

/-- A program from text brings nothing but numbers to the stack. -/
theorem Program.number_of_admits {p : Program} (hp : ∀ i ∈ p.instructions, i.Written) {v : Value}
    (hv : p.Admits v) : v.kind = .number := by
  rcases hv with hk | ⟨hk, i, hi, _, ho⟩
  · exact hk
  · exact absurd hk ((hp i hi).noArray v ho)

namespace Machine

/-- Type soundness. In every state that a machine comes to, each value on the work stack and in memory
is a number or an array that the loaded program pushes. If the program was read from text then all of
them are numbers, and no step finds a value or an operand of the wrong kind. -/
theorem reachable_values_typed {m : Machine} (h : Reachable m) :
    (∀ v ∈ m.stack, m.program.Admits v) ∧ (∀ f ∈ m.frames, ∀ v, some v ∈ f → m.program.Admits v) ∧
      ∀ lines functions, Program.ofLines lines functions = .ok m.program →
        (∀ v ∈ m.stack, v.kind = .number) ∧ (∀ f ∈ m.frames, ∀ v, some v ∈ f → v.kind = .number) ∧
          ∀ e m', m.step = some (.error e, m') →
            (∀ op expected found, e ≠ .typeMismatch op expected found) ∧
              ∀ op, e ≠ .missingOperand op := by
  have htyped := h.of_kept kept_typed
  refine ⟨htyped.1, htyped.2, fun lines functions hlines => ?_⟩
  have hwritten := Program.written_of_ofLines hlines
  refine ⟨?_, ?_, fun e m' hs => ?_⟩
  · exact fun v hv => Program.number_of_admits hwritten (htyped.1 v hv)
  · exact fun f hf v hv => Program.number_of_admits hwritten (htyped.2 f hf v hv)
  · have hkind : e.ofKind ≠ true := by
      intro hk
      rcases (step_typed htyped hs).2 e rfl hk with ⟨v, hv, hne⟩ | ⟨i, hi, hirregular⟩
      · exact hne (Program.number_of_admits hwritten hv)
      · exact hirregular (hwritten i hi).toRegular
    refine ⟨?_, ?_⟩
    · rintro op expected found rfl
      exact hkind rfl
    · rintro op rfl
      exact hkind rfl

/-- A program that pushes the address of a function. -/
def pushing : Program :=
  ⟨#[⟨.push, some (.function ".main")⟩, ⟨.halt, none⟩], Table.ofList [(".main", 0)]⟩

theorem pushed_address_typed :
    ∃ m, Reachable m ∧ Program.ofLines ["push .main", "halt"] [(".main", 0)] = .ok m.program ∧
      m.stack.length = 1 ∧ (∀ v ∈ m.stack, v.kind = .number) := by
  have hstep : ∃ m, ((new .headless).load pushing).singleStep = some (.ok (), m) ∧
      m.program = pushing ∧ m.stack.length = 1 := ⟨_, rfl, rfl, rfl⟩
  obtain ⟨m, hm, hprogram, hlength⟩ := hstep
  have hload : Reachable ((new .headless).load pushing) :=
    @Reachable.command _ _ 0 (.load pushing) _ (.new .headless) rfl
  have hreach : Reachable m := @Reachable.command _ _ 0 .singleStep _ hload hm
  have hlines : Program.ofLines ["push .main", "halt"] [(".main", 0)] = .ok m.program := by
    rw [hprogram]
    rfl
  exact ⟨m, hreach, hlines, hlength, ((reachable_values_typed hreach).2.2 _ _ hlines).1⟩

end Machine

end PixelMachine
