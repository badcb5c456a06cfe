import Mathlib.Data.List.Forall2
import PixelMachine.Proofs.Failures
import PixelMachine.Proofs.History
import PixelMachine.Proofs.Addressing

/-! Limits hold over whole runs. A frame has as many slots as its origin allows: those that `oframe`
opens and those that `alloc` enlarges stay within the limit of the settings, and a call copies no more
than what has been on the work stack. No instruction but two makes the work stack longer by more than
one value. -/
namespace PixelMachine

/-- How a frame came to be there. -/
inductive Origin where
  /-- It is there from the start. -/
  | initial
  | called
  | opened
  deriving DecidableEq

/-- The origins of the frames after an instruction, the innermost frame first. -/
def Opcode.origins (origins : List Origin) : Opcode → List Origin
  | .call => .called :: origins
  | .oframe => .opened :: origins
  | .cframe => origins.drop 1
  | _ => origins

/-- The origins of the frames after what was done to a machine. -/
def Deed.origins (origins : List Origin) : Deed → List Origin
  | .reset => [.initial]
  | .step m (some (.ok (), _)) =>
    match m.current with
    | .ok (_, i) => i.opcode.origins origins
    | .error _ => origins
  | .step _ _ => origins

/-- The origins of the frames after a history that began with the initial frame. -/
def origins (ds : List Deed) : List Origin := ds.foldl Deed.origins [.initial]

theorem origins_concat (ds : List Deed) (d : Deed) : origins (ds ++ [d]) = d.origins (origins ds) := by
  unfold origins
  rw [List.foldl_append]
  rfl

namespace Operands

variable {α β : Type} {k n : Nat}

/-- A success leaves at most `k` values more than there were. -/
def Adds (k : Nat) (p : Operands α) : Prop :=
  ∀ s a t, p s = .ok (a, t) → t.length ≤ s.length + k

/-- What comes before may take values but puts none on the stack. -/
theorem Adds.bind {p : Operands α} {f : α → Operands β} (hp : Adds 0 p) (hf : ∀ a, Adds k (f a)) :
    Adds k (p >>= f) := by
  intro s b t h
  obtain ⟨a, r, ha, hb⟩ := bind_eq_ok.mp h
  have hfirst := hp s a r ha
  have hrest := hf a r b t hb
  omega

theorem Takes.adds {p : Operands α} (h : Takes n p) : Adds k p := by
  intro s a t ha
  obtain ⟨j, _, rfl⟩ := h.ok s a t ha
  rw [List.length_drop]
  omega

theorem adds_pure (a : α) : Adds k (pure a) := (takes_pure a).adds

theorem adds_fail (e : Fault) : Adds k (fail e : Operands α) := by
  intro s a t h
  cases h

theorem adds_lift (r : Except Fault α) : Adds k (lift r) := by
  intro s a t h
  obtain ⟨_, rfl⟩ := lift_eq_ok.mp h
  omega

theorem adds_take (count : Nat) : Adds k (take count) := by
  intro s vs t h
  cases h
  rw [List.length_drop]
  omega

/-- Values that are taken and put back are no more than there were. -/
theorem adds_reverse {effect : Effect} (count : Nat) :
    Adds k (do pushAll (← take count); return effect) := by
  intro s a t h
  cases h
  change ((s.take count).reverse ++ s.drop count).length ≤ _
  rw [List.length_append, List.length_reverse, ← List.length_append, List.take_append_drop]
  omega

/-- A count is the topmost value. -/
theorem cons_of_popCount {op : Opcode} {role : Role} {s t : List Value} {count : Nat}
    (h : popCount op role s = .ok (count, t)) : ∃ v, s = v :: t := by
  obtain ⟨n, r, hinteger, h⟩ := bind_eq_ok.mp h
  obtain ⟨x, u, hnumber, hinteger⟩ := bind_eq_ok.mp hinteger
  obtain ⟨_, rfl⟩ := lift_eq_ok.mp hinteger
  obtain ⟨v, w, hpop, hnumber⟩ := bind_eq_ok.mp hnumber
  have hvalue : s = v :: w := by
    rcases s with _ | ⟨y, s⟩
    · cases hpop
    · cases hpop
      rfl
  cases v with
  | number y =>
    cases hnumber
    split at h
    · cases h
    · cases h
      exact ⟨_, hvalue⟩
  | _ => cases hnumber

end Operands

namespace Machine

open Operands

theorem adds_answer (v : Value) {effect : Effect} : Adds 1 (do push v; return effect) := by
  intro s a t h
  cases h
  exact Nat.le_refl _

theorem adds_unary (op : Opcode) (f : Float → Float) : Adds 1 (unary op f) :=
  (takes_popNumber op).adds.bind fun _ => adds_answer _

theorem adds_binary (op : Opcode) (f : Float → Float → Float) : Adds 1 (binary op f) :=
  (takes_popNumber op).adds.bind fun _ => (takes_popNumber op).adds.bind fun _ => adds_answer _

theorem adds_relation (op : Opcode) (f : Float → Float → Bool) : Adds 1 (relation op f) :=
  (takes_popNumber op).adds.bind fun _ => (takes_popNumber op).adds.bind fun _ => adds_answer _

theorem adds_equality (op : Opcode) (negate : Bool) : Adds 1 (equality op negate) := by
  refine (takes_pop op).adds.bind fun x => (takes_pop op).adds.bind fun y => ?_
  split
  · exact (adds_fail _).bind fun _ => adds_answer _
  · exact adds_answer _

theorem adds_branch (op : Opcode) (holds : Float → Bool) : Adds 1 (branch op holds) := by
  refine (takes_popNumber op).adds.bind fun target => (takes_popNumber op).adds.bind fun condition => ?_
  split
  · exact (adds_lift _).bind fun _ => adds_pure _
  · exact adds_pure _

theorem adds_paint (m : Machine) (x y w h colour : Float) : Adds 1 (paint m x y w h colour) := by
  unfold paint
  split
  · exact adds_fail _
  · exact (adds_lift _).bind fun _ => adds_pure _

/-- A value that is taken and put back twice. -/
theorem adds_dup (op : Opcode) {effect : Effect} :
    Adds 1 (do let v ← pop op; push v; push v; return effect) := by
  intro s a t h
  rcases s with _ | ⟨v, s⟩
  · cases h
  · cases h
    exact Nat.le_refl _

/-- Every instruction but `dupa` and `pusha` adds one value at most. -/
theorem plan_adds (m : Machine) (index : Nat) {i : Instruction} (hdupa : i.opcode ≠ .dupa)
    (hpusha : i.opcode ≠ .pusha) : Adds 1 (plan m index i) := by
  obtain ⟨op, operand⟩ := i
  have number {op : Opcode} : Adds 0 (popNumber op) := (takes_popNumber op).adds
  have integer {op : Opcode} {role : Role} : Adds 0 (popInteger op role) :=
    (takes_popInteger op role).adds
  have count {op : Opcode} {role : Role} : Adds 0 (popCount op role) := (takes_popCount op role).adds
  have depth {op : Opcode} {n : Nat} : Adds 0 (ensureDepth op n) := (takes_ensureDepth op n).adds
  -- Only the end of a plan puts a value on the stack.
  cases op with
  | dupa => exact absurd rfl hdupa
  | pusha => exact absurd rfl hpusha
  | add | sub | mul | div | mod | max | min | and | or => exact adds_binary _ _
  | inc | dec | round | not => exact adds_unary _ _
  | lt | le | gt | ge => exact adds_relation _ _
  | eq | neq => exact adds_equality _ _
  | cjmp | cjmp2 => exact adds_branch _ _
  | irnd =>
    refine number.bind fun bound => ?_
    split
    · exact adds_answer _
    · exact adds_fail _
  | dup => exact adds_dup _
  | drop | print => exact (takes_pop _).adds.bind fun _ => adds_pure _
  | push =>
    cases operand with
    | none => exact adds_fail _
    | some v => exact (takes_resolve m index v).adds.bind fun _ => adds_answer _
  | nop | halt | cframe | getchar => exact adds_pure _
  | jmp => exact integer.bind fun _ => adds_pure _
  | call =>
    exact integer.bind fun _ => count.bind fun _ => depth.bind fun _ =>
      (adds_take _).bind fun _ => adds_pure _
  | ret =>
    unfold plan
    dsimp only
    split
    · exact adds_pure _
    · exact adds_fail _
  | alloc =>
    exact count.bind fun _ => (adds_lift _).bind fun _ => (adds_lift _).bind fun _ => adds_pure _
  | oframe => exact count.bind fun _ => (adds_lift _).bind fun _ => adds_pure _
  | st =>
    exact integer.bind fun _ => integer.bind fun _ => (takes_pop _).adds.bind fun _ =>
      (adds_lift _).bind fun _ => adds_pure _
  | delay =>
    refine number.bind fun milliseconds => ?_
    split
    · exact (adds_fail _).bind fun _ => adds_pure _
    · exact adds_pure _
  | write => exact number.bind fun _ => number.bind fun _ => number.bind fun _ => adds_paint m _ _ _ _ _
  | writebox =>
    exact number.bind fun _ => number.bind fun _ => number.bind fun _ => number.bind fun _ =>
      number.bind fun _ => adds_paint m _ _ _ _ _
  | clear => exact number.bind fun _ => adds_paint m _ _ _ _ _
  | read =>
    refine number.bind fun x => number.bind fun y => ?_
    split
    · exact adds_answer _
    · exact adds_fail _
  | width | height => exact adds_answer _
  | sta =>
    exact integer.bind fun _ => integer.bind fun _ => count.bind fun _ => depth.bind fun _ =>
      (adds_lift _).bind fun _ => (adds_take _).bind fun _ => (adds_lift _).bind fun _ => adds_pure _
  | printa => exact count.bind fun _ => depth.bind fun _ => (adds_take _).bind fun _ => adds_pure _
  | reta => exact count.bind fun _ => depth.bind fun _ => adds_reverse _
  | putchar =>
    refine number.bind fun code => ?_
    split
    · exact adds_pure _
    · exact adds_fail _

/-- The copies of `dupa` and what lies below them are within the limit. -/
theorem length_of_dupa {m : Machine} {index : Nat} {operand : Option Value} {effect : Effect}
    {s t : List Value} (h : plan m index ⟨.dupa, operand⟩ s = .ok (effect, t)) :
    t.length ≤ m.config.stackLimit.toNat := by
  obtain ⟨v, r, _, hcopies⟩ := bind_eq_ok.mp h
  obtain ⟨count, u, _, hgrow⟩ := bind_eq_ok.mp hcopies
  obtain ⟨_, _, hget, hgrow⟩ := bind_eq_ok.mp hgrow
  cases hget
  obtain ⟨_, w, hcheck, hpush⟩ := bind_eq_ok.mp hgrow
  obtain ⟨hgrowth, hw⟩ := lift_eq_ok.mp hcheck
  subst hw
  have hlimit := (checkGrowth_eq_ok.mp hgrowth).2
  cases hpush
  change ((List.replicate count v).reverse ++ w).length ≤ _
  rw [List.length_append, List.length_reverse, List.length_replicate]
  omega

/-- For its count `pusha` puts as many values on the stack as the frame has slots, at most. -/
theorem length_of_pusha {m : Machine} {index : Nat} {operand : Option Value} {effect : Effect}
    {s t : List Value} (h : plan m index ⟨.pusha, operand⟩ s = .ok (effect, t)) :
    ∃ offset frame f, operand = some (.label offset frame) ∧ 0 ≤ frame.toInt ∧
      m.frames[frame.toInt.toNat]? = some f ∧ t.length + 1 ≤ s.length + f.length := by
  obtain ⟨count, r, hpop, hcopy⟩ := bind_eq_ok.mp h
  obtain ⟨v, hs⟩ := cons_of_popCount hpop
  rcases operand with _ | v
  · cases hcopy
  · cases v with
    | label offset frame =>
      obtain ⟨vs, u, hread, hpush⟩ := bind_eq_ok.mp hcopy
      obtain ⟨hvalues, hu⟩ := access_eq_ok.mp hread
      obtain ⟨f, ⟨hpos, hframe⟩, hlength, hsize⟩ := FrameStack.length_readRange hvalues
      cases hpush
      refine ⟨offset, frame, f, rfl, hpos, hframe, ?_⟩
      change (vs.reverse ++ u).length + 1 ≤ _
      rw [hs, hu, List.length_append, List.length_reverse, List.length_cons]
      omega
    | _ => cases hcopy

/-- What the work stack may grow to in a step. -/
structure GrowsWithin (m m' : Machine) (i : Instruction) : Prop where
  others : i.opcode ≠ .dupa → i.opcode ≠ .pusha → m'.stack.length ≤ m.stack.length + 1
  dupa : i.opcode = .dupa → m'.stack.length ≤ m.config.stackLimit.toNat
  pusha : i.opcode = .pusha → ∃ offset frame f, i.operand = some (.label offset frame) ∧
    0 ≤ frame.toInt ∧ m.frames[frame.toInt.toNat]? = some f ∧
      m'.stack.length + 1 ≤ m.stack.length + f.length

theorem growsWithin_step {m m' : Machine} (h : m.step = some (.ok (), m')) :
    ∃ index i, m.current = .ok (index, i) ∧ GrowsWithin m m' i := by
  cases step_eq_some_iff.mp h with
  | @done index i effect stack l hh hc hp hm =>
    refine ⟨index, i, hc, ?_⟩
    by_cases hawait : effect = .awaitKey
    · subst hawait
      have hop : i.opcode = .getchar := plan_suits m index i m.stack _ stack hp
      have hstack : stack = m.stack := by
        cases (plan_getchar m index hop m.stack).symm.trans hp
        rfl
      refine ⟨fun _ _ => ?_, fun hdupa => ?_, fun hpusha => ?_⟩
      · -- The key that was read, if one was.
        subst hstack
        cases awaited_of_awaitKeyWithin hm with
        | key => exact Nat.le_refl _
        | interrupted => exact Nat.le_succ _
      · cases hop.symm.trans hdupa
      · cases hop.symm.trans hpusha
    · have hstack : l.measured.stack = stack := (perform_leaves_input hm hawait).2
      obtain ⟨op, operand⟩ := i
      rw [← hstack] at hp
      refine ⟨fun hdupa hpusha => ?_, ?_, ?_⟩
      · exact plan_adds m index hdupa hpusha m.stack effect _ hp
      · rintro rfl
        exact length_of_dupa hp
      · rintro rfl
        exact length_of_pusha hp

/-- The size of frames after an instruction, and what it depends on. -/
inductive Resizes (m : Machine) (op : Opcode) : List Nat → Prop where
  | kept : op ∉ [.call, .oframe, .cframe] → Resizes m op m.frames.sizes
  | grown {n n' : Nat} {rest : List Nat} : op = .alloc → m.frames.sizes = n :: rest →
      n' ≤ m.config.frameLimit.toNat → Resizes m op (n' :: rest)
  | called {n : Nat} : op = .call → n ≤ m.stack.length → Resizes m op (n :: m.frames.sizes)
  | opened {n : Nat} : op = .oframe → n ≤ m.config.frameLimit.toNat →
      Resizes m op (n :: m.frames.sizes)
  | closed : op = .cframe → Resizes m op (m.frames.sizes.drop 1)

/-- The memory that carrying out an effect leaves. -/
def framesAfter (m : Machine) : Effect → FrameStack
  | .store frames => frames
  | .call _ arguments => m.frames.enter (arguments.map some)
  | _ => m.frames

theorem frames_perform {m m' : Machine} {effect : Effect} (h : m.perform effect = some m') :
    m'.frames = m.framesAfter effect := by
  cases effect with
  | next | jump | call | ret | halt | store | paint | roll =>
    cases h
    rfl
  | print texts =>
    cases h
    rw [say_eq]
    rfl
  | awaitKey =>
    cases awaited_of_awaitKeyWithin h with
    | key | interrupted => rfl

/-- A call copies values that were on the stack. -/
theorem resizes_of_call {m : Machine} {index : Nat} {operand : Option Value} {effect : Effect}
    {stack : List Value} (h : plan m index ⟨.call, operand⟩ m.stack = .ok (effect, stack)) :
    Resizes m .call (m.framesAfter effect).sizes := by
  obtain ⟨target, r, htarget, h⟩ := bind_eq_ok.mp h
  obtain ⟨count, u, hcount, h⟩ := bind_eq_ok.mp h
  obtain ⟨_, v, hdepth, h⟩ := bind_eq_ok.mp h
  have hr := (takes_popInteger .call .callTarget).adds (k := 0) _ _ _ htarget
  have hu := (takes_popCount .call .argumentCount).adds (k := 0) _ _ _ hcount
  have hv := (takes_ensureDepth .call count).adds (k := 0) _ _ _ hdepth
  cases h
  have hlength : ((v.take count).map some).length ≤ m.stack.length := by
    rw [List.length_map, List.length_take]
    omega
  exact .called rfl hlength

theorem resizes_of_alloc {m : Machine} {index : Nat} {operand : Option Value} {effect : Effect}
    {stack : List Value} (h : plan m index ⟨.alloc, operand⟩ m.stack = .ok (effect, stack)) :
    Resizes m .alloc (m.framesAfter effect).sizes := by
  obtain ⟨count, r, _, h⟩ := bind_eq_ok.mp h
  obtain ⟨_, u, hcheck, h⟩ := bind_eq_ok.mp h
  obtain ⟨fs, v, halloc, h⟩ := bind_eq_ok.mp h
  have hlimit := (checkGrowth_eq_ok.mp (lift_eq_ok.mp hcheck).1).2
  have halloc := (access_eq_ok.mp halloc).1
  cases h
  rcases hf : m.frames with _ | ⟨f, rest⟩
  · rw [hf] at halloc
    cases halloc
  · rw [hf] at halloc hlimit
    cases halloc
    refine .grown (n := f.length) rfl ?_ ?_
    · rw [hf]
      rfl
    · simpa [Frame.empty] using hlimit

theorem resizes_of_oframe {m : Machine} {index : Nat} {operand : Option Value} {effect : Effect}
    {stack : List Value} (h : plan m index ⟨.oframe, operand⟩ m.stack = .ok (effect, stack)) :
    Resizes m .oframe (m.framesAfter effect).sizes := by
  obtain ⟨count, r, _, h⟩ := bind_eq_ok.mp h
  obtain ⟨_, u, hcheck, h⟩ := bind_eq_ok.mp h
  have hlimit := (checkGrowth_eq_ok.mp (lift_eq_ok.mp hcheck).1).2
  cases h
  refine .opened rfl ?_
  simpa [Frame.empty] using hlimit

theorem resizes_of_st {m : Machine} {index : Nat} {operand : Option Value} {effect : Effect}
    {stack : List Value} (h : plan m index ⟨.st, operand⟩ m.stack = .ok (effect, stack)) :
    Resizes m .st (m.framesAfter effect).sizes := by
  obtain ⟨frame, r, _, h⟩ := bind_eq_ok.mp h
  obtain ⟨location, _, _, h⟩ := bind_eq_ok.mp h
  obtain ⟨v, _, _, h⟩ := bind_eq_ok.mp h
  obtain ⟨fs, _, hw, h⟩ := bind_eq_ok.mp h
  have hsizes := FrameStack.sizes_write (access_eq_ok.mp hw).1
  cases h
  change Resizes m .st fs.sizes
  rw [hsizes]
  exact .kept (by decide)

theorem resizes_of_sta {m : Machine} {index : Nat} {operand : Option Value} {effect : Effect}
    {stack : List Value} (h : plan m index ⟨.sta, operand⟩ m.stack = .ok (effect, stack)) :
    Resizes m .sta (m.framesAfter effect).sizes := by
  obtain ⟨frame, r, _, h⟩ := bind_eq_ok.mp h
  obtain ⟨location, _, _, h⟩ := bind_eq_ok.mp h
  obtain ⟨count, _, _, h⟩ := bind_eq_ok.mp h
  obtain ⟨_, _, _, h⟩ := bind_eq_ok.mp h
  obtain ⟨_, _, _, h⟩ := bind_eq_ok.mp h
  obtain ⟨vs, _, _, h⟩ := bind_eq_ok.mp h
  obtain ⟨fs, _, hw, h⟩ := bind_eq_ok.mp h
  have hsizes := FrameStack.sizes_writeRange (access_eq_ok.mp hw).1
  cases h
  change Resizes m .sta fs.sizes
  rw [hsizes]
  exact .kept (by decide)

/-- What every instruction does to the sizes of the frames. -/
theorem plan_resizes {m : Machine} {index : Nat} {i : Instruction} {effect : Effect}
    {stack : List Value} (h : plan m index i m.stack = .ok (effect, stack)) :
    Resizes m i.opcode (m.framesAfter effect).sizes := by
  have hsuits := plan_suits m index i m.stack effect stack h
  obtain ⟨op, operand⟩ := i
  by_cases hop : op ∈ [.call, .alloc, .oframe, .cframe, .st, .sta]
  · simp only [List.mem_cons, List.not_mem_nil, or_false] at hop
    rcases hop with rfl | rfl | rfl | rfl | rfl | rfl
    · exact resizes_of_call h
    · exact resizes_of_alloc h
    · exact resizes_of_oframe h
    · cases h
      have hclosed : m.frames.leave.sizes = m.frames.sizes.drop 1 := List.map_drop
      change Resizes m .cframe m.frames.leave.sizes
      rw [hclosed]
      exact .closed rfl
    · exact resizes_of_st h
    · exact resizes_of_sta h
  · -- The other instructions ask for effects that leave memory alone.
    have hkept : m.framesAfter effect = m.frames := by
      cases effect with
      | store | call =>
        simp only [Effect.Suits, List.mem_cons, List.not_mem_nil, or_false] at hsuits hop
        tauto
      | _ => rfl
    rw [hkept]
    refine .kept ?_
    simp only [List.mem_cons, List.not_mem_nil, or_false, not_or] at hop ⊢
    tauto

theorem step_resizes {m m' : Machine} (h : m.step = some (.ok (), m')) :
    ∃ index i, m.current = .ok (index, i) ∧ Resizes m i.opcode m'.frames.sizes := by
  cases step_eq_some_iff.mp h with
  | @done index i effect stack l hh hc hp hm =>
    have hframes : l.frames = (m.begun index i stack).framesAfter effect := frames_perform hm
    have hsame : (m.begun index i stack).framesAfter effect = m.framesAfter effect := by
      cases effect with
      | _ => rfl
    refine ⟨index, i, hc, ?_⟩
    change Resizes m i.opcode l.frames.sizes
    rw [hframes, hsame]
    exact plan_resizes hp

/-- A frame of this size may have this origin, with the deepest work stack so far. -/
def Fits (limit deepest size : Nat) (origin : Origin) : Prop :=
  size ≤ max limit deepest ∧ (origin ≠ .called → size ≤ limit)

theorem Fits.mono {limit deepest deepest' size : Nat} {origin : Origin}
    (h : Fits limit deepest size origin) (hle : deepest ≤ deepest') :
    Fits limit deepest' size origin := by
  refine ⟨?_, h.2⟩
  have hmax := h.1
  omega

theorem Fits.of_le {limit deepest size : Nat} (origin : Origin) (h : size ≤ limit) :
    Fits limit deepest size origin :=
  ⟨by omega, fun _ => h⟩

/-- Every frame fits its origin, and the statistics know how deep the work stack is. -/
structure Limited (m : Machine) (ds : List Deed) : Prop where
  stack : m.stack.length ≤ m.trace.maxWorkStack
  frames : List.Forall₂ (Fits m.config.frameLimit.toNat m.trace.maxWorkStack) m.frames.sizes
    (origins ds)

theorem limited_reset {m : Machine} (ds : List Deed) (hs : m.stack = []) (hf : m.frames = .initial) :
    Limited m (ds ++ [.reset]) where
  stack := by
    rw [hs]
    exact Nat.zero_le _
  frames := by
    rw [hf, origins_concat]
    exact .cons (.of_le _ (Nat.zero_le _)) .nil

/-- An instruction leaves frames that fit. -/
theorem Resizes.fits {m : Machine} {op : Opcode} {sizes : List Nat} {origins : List Origin}
    {deepest : Nat} (h : Resizes m op sizes) (hs : m.stack.length ≤ deepest)
    (hf : List.Forall₂ (Fits m.config.frameLimit.toNat deepest) m.frames.sizes origins) :
    List.Forall₂ (Fits m.config.frameLimit.toNat deepest) sizes (op.origins origins) := by
  cases h with
  | kept hop =>
    have hsame : op.origins origins = origins := by
      cases op with
      | call | oframe | cframe => simp at hop
      | _ => rfl
    rw [hsame]
    exact hf
  | grown hop hsizes hn =>
    subst hop
    rw [hsizes] at hf
    cases hf with
    | cons _ hrest => exact .cons (.of_le _ hn) hrest
  | called hop hn =>
    subst hop
    exact .cons ⟨by omega, fun hne => absurd rfl hne⟩ hf
  | opened hop hn =>
    subst hop
    exact .cons (.of_le _ hn) hf
  | closed hop =>
    subst hop
    exact List.forall₂_drop 1 hf

/-- A step that fails takes values at most. -/
theorem Limited.failed {m m' : Machine} {e : Fault} {ds : List Deed} (h : Limited m ds)
    (hstack : m'.stack.length ≤ m.stack.length)
    (hdeepest : m'.trace.maxWorkStack = m.trace.maxWorkStack) (hframes : m'.frames = m.frames)
    (hconfig : m'.config = m.config) : Limited m' (ds ++ [.step m (some (.error e, m'))]) where
  stack := by
    have hbefore := h.stack
    omega
  frames := by
    rw [hdeepest, hframes, hconfig, origins_concat]
    exact h.frames

/-- A step that succeeds has its depths recorded. -/
theorem Limited.succeeded {m m' : Machine} {ds : List Deed} (h : Limited m ds)
    (hs : m.step = some (.ok (), m')) : Limited m' (ds ++ [.step m (some (.ok (), m'))]) := by
  obtain ⟨index, i, hc, hresizes⟩ := step_resizes hs
  have hconfig : m'.config = m.config := (step_keeps hs).2.1
  have hdeepest : m'.trace.maxWorkStack = max m.trace.maxWorkStack m'.stack.length := by
    cases step_eq_some_iff.mp hs with
    | @done index i effect stack l _ _ _ hm =>
      have htrace : l.trace = m.trace.record index i.opcode := (perform_keeps hm).2.2.2.2.1
      simp only [measured, Trace.recordDepths, htrace, Trace.record]
  refine ⟨by omega, ?_⟩
  have hnow : (Deed.step m (some (.ok (), m'))).origins (origins ds) =
      i.opcode.origins (origins ds) := by
    simp only [Deed.origins, hc]
  rw [hconfig, origins_concat, hnow]
  refine hresizes.fits ?_ ?_
  · have hstack := h.stack
    omega
  · exact h.frames.imp fun _ _ hfits => hfits.mono (by omega)

theorem told_limited : Told Limited where
  same := by
    intro m m' ds h hw _
    have hstack : m'.stack = m.stack := congrArg Work.stack hw
    have htrace : m'.trace = m.trace := congrArg Work.trace hw
    have hframes : m'.frames = m.frames := congrArg Work.frames hw
    have hconfig : m'.config = m.config := congrArg Work.config hw
    refine ⟨?_, ?_⟩
    · rw [hstack, htrace]
      exact h.stack
    · rw [hframes, hconfig, htrace]
      exact h.frames
  load := fun _ _ => limited_reset _ rfl rfl
  restart := fun _ => limited_reset _ rfl rfl
  resize := fun _ h => ⟨h.stack, h.frames⟩
  step := by
    rintro m ⟨e | _, m'⟩ ds h hs
    · cases step_eq_some_iff.mp hs with
      | halted | misplaced => exact h.failed (Nat.le_refl _) rfl rfl rfl
      | @failed index i _ stack _ _ hp =>
        obtain ⟨_, taken, _, rfl⟩ := plan_failsWithin m index i m.stack e stack hp
        refine h.failed ?_ rfl rfl rfl
        change (m.stack.drop taken).length ≤ _
        rw [List.length_drop]
        omega
    · exact h.succeeded hs

theorem limited_of_isNew {m : Machine} (h : m.IsNew) : Limited m [] := by
  have hbuild (d : Devices) (config : Config) : Limited (build d config) [] :=
    ⟨Nat.le_refl _, .cons (.of_le _ (Nat.zero_le _)) .nil⟩
  rcases h with ⟨d, rfl⟩ | ⟨d, config, hc⟩
  · exact hbuild d _
  · rw [eq_build_of_withConfig hc]
    exact hbuild d config

/-- Resource limits hold over whole runs, and for every step. -/
theorem limits_hold :
    (∀ s m ds, IsNew s → Leads s ds m →
      List.Forall₂ (fun (f : Frame) (origin : Origin) =>
          f.length ≤ max m.config.frameLimit.toNat m.trace.maxWorkStack ∧
            (origin ≠ .called → f.length ≤ m.config.frameLimit.toNat))
        m.frames (origins ds)) ∧
    ∀ m m', m.step = some (.ok (), m') →
      ∃ index i, m.current = .ok (index, i) ∧ GrowsWithin m m' i := by
  refine ⟨?_, ?_⟩
  · intro s m ds hs h
    have hlimited := h.told told_limited (limited_of_isNew hs)
    exact List.forall₂_map_left_iff.mp hlimited.frames
  · intro m m' h
    exact growsWithin_step h

/-- A program that calls a function with one argument. -/
def callingWithOne : Program :=
  ⟨#[⟨.push, some (.number 7.0)⟩, ⟨.push, some (.number 1.0)⟩, ⟨.push, some (.number 4.0)⟩,
    ⟨.call, none⟩, ⟨.halt, none⟩], .empty⟩

/-- Where no frame may be opened or enlarged, a call still makes one. It is no larger than the work
stack was. -/
theorem arguments_beyond_limit : ∃ m ds, Leads (build .headless { frameLimit := 0 }) ds m ∧
    m.config.frameLimit = 0 ∧ origins ds = [.called, .initial] ∧ m.frames.sizes = [1, 0] ∧
    List.Forall₂ (fun (f : Frame) (origin : Origin) =>
      f.length ≤ max 0 3 ∧ (origin ≠ .called → f.length ≤ 0)) m.frames (origins ds) ∧
    ∃ b l i, b.step = some (.ok (), l) ∧ GrowsWithin b l i := by
  obtain ⟨hframes, hsteps⟩ := limits_hold
  have hrun : ∃ m, ((build .headless { frameLimit := 0 }).load callingWithOne).run 6 =
        some (.ok (), m) ∧ m.config.frameLimit = 0 ∧ m.frames.sizes = [1, 0] ∧
      m.trace.maxWorkStack = 3 := ⟨_, rfl, rfl, rfl, rfl⟩
  obtain ⟨m, hm, hlimit, hsizes, hdeepest⟩ := hrun
  have horigins : origins
      ([.reset] ++ ((build .headless { frameLimit := 0 }).load callingWithOne).deeds 6 .run) =
        [.called, .initial] := rfl
  have hload : Leads (build .headless { frameLimit := 0 }) [.reset]
      ((build .headless { frameLimit := 0 }).load callingWithOne) :=
    @Leads.command _ _ _ _ 0 (.load callingWithOne) _ .refl rfl
  have hleads := @Leads.command _ _ _ _ 6 .run _ hload hm
  have hforall := hframes _ m _ (.inr ⟨.headless, { frameLimit := 0 }, rfl⟩) hleads
  rw [hlimit, hdeepest] at hforall
  have hfirst : ∃ l, ((build .headless { frameLimit := 0 }).load callingWithOne).started.step =
      some (.ok (), l) := ⟨_, rfl⟩
  obtain ⟨l, hl⟩ := hfirst
  obtain ⟨_, i, _, hgrows⟩ := hsteps _ l hl
  exact ⟨m, _, hleads, hlimit, horigins, hsizes, hforall, _, l, i, hl, hgrows⟩

end Machine

end PixelMachine
