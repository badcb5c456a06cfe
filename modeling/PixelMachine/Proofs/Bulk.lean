import PixelMachine.Proofs.Addressing
import PixelMachine.Proofs.Failures

/-! Operations on many values at once: what each of them does with its operands, and that it agrees with
the operation on a single value, carried out once for each of the values. -/
namespace PixelMachine

namespace Operands

variable {α β : Type} {s t : List Value}

theorem bind_of_ok {p : Operands α} {a : α} (h : p s = .ok (a, t)) (f : α → Operands β) :
    (p >>= f) s = f a t := by
  change (p s >>= fun x => f x.1 x.2) = _
  rw [h]
  rfl

theorem bind_of_error {p : Operands α} {e : Fault × List Value} (h : p s = .error e)
    (f : α → Operands β) : (p >>= f) s = .error e := by
  change (p s >>= fun x => f x.1 x.2) = _
  rw [h]
  rfl

/-- The operands of `sta` that say where to store and how many values. -/
def storeOperands : Operands (Int × Int × Nat) := do
  let frame ← popInteger .sta .frameIndex
  let location ← popInteger .sta .location
  let count ← popCount .sta .valueCount
  return (frame, location, count)

/-- Pops values and stores each of them, the first one at an offset and the others behind it. -/
def storeEach (frame : Int) : Int → Nat → FrameStack → Operands FrameStack
  | _, 0, fs => return fs
  | offset, n + 1, fs => do
    let v ← pop .st
    let fs ← Machine.access (fs.write offset frame v)
    storeEach frame (offset + 1) n fs

/-- On enough values a counting operation goes on, and else it fails. -/
theorem after_ensureDepth {op : Opcode} {count : Nat} (f : Unit → Operands α) :
    (ensureDepth op count >>= f) s =
      if s.length < count then .error (.stackUnderflow op, s) else f () s := by
  have hdepth := ensureDepth_apply op count s
  split
  · next hless =>
    rw [if_pos hless] at hdepth
    exact bind_of_error hdepth f
  · next hmany =>
    rw [if_neg hmany] at hdepth
    exact bind_of_ok hdepth f

end Operands

namespace FrameStack

variable {fs fs' : FrameStack}

/-- The end of a range is a signed word, or else no frame is so large that the range could lie in it. -/
def Addressable (fs : FrameStack) (offset : Int) (count : Nat) : Prop :=
  FitsInt64 (offset + count) ∨ ∀ size ∈ fs.sizes, FitsInt64 size

/-- A range is found exactly if each of its cells is there. -/
theorem exists_range_iff {f : Frame} {offset : Int} {count : Nat} (hcount : 1 ≤ count)
    (hend : FitsInt64 (offset + count) ∨ FitsInt64 f.length) :
    (0 ≤ offset ∧ offset + count ≤ f.length ∧ FitsInt64 (offset + count)) ↔
      ∀ i < count, 0 ≤ offset + i ∧ offset + i < f.length := by
  constructor
  · rintro ⟨hpos, hle, _⟩ i hi
    exact ⟨by omega, by omega⟩
  · intro h
    have hfirst := h 0 hcount
    have hlast := h (count - 1) (by omega)
    exact ⟨by omega, by omega, by omega, by omega⟩

theorem IsFrame.addressable {frame offset : Int} {count : Nat} {f : Frame} (h : fs.IsFrame frame f)
    (hend : fs.Addressable offset count) : FitsInt64 (offset + count) ∨ FitsInt64 f.length := by
  rcases hend with hfits | hsizes
  · exact .inl hfits
  · exact .inr (hsizes f.length (List.mem_map_of_mem h.mem))

/-- A row of values can be written exactly if each of them can. -/
theorem exists_writeRange_iff {offset frame : Int} {vs : List Value} (hvs : 1 ≤ vs.length)
    (hend : fs.Addressable offset vs.length) :
    (∃ fs', fs.writeRange offset frame vs = .ok fs') ↔
      ∀ (i : Nat) v, vs[i]? = some v → ∃ fs', fs.write (offset + i) frame v = .ok fs' := by
  constructor
  · rintro ⟨fs', h⟩ i v hv
    obtain ⟨f, hf, hrange, _⟩ := writeRange_eq_ok_iff.mp h
    have hi : i < vs.length := (List.getElem?_eq_some_iff.mp hv).1
    have hcell := (exists_range_iff hvs (hf.addressable hend)).mp hrange i hi
    exact ⟨_, write_eq_ok_iff.mpr ⟨f, hf, hcell, rfl⟩⟩
  · intro h
    obtain ⟨_, hfirst⟩ := h 0 vs[0] (List.getElem?_eq_getElem hvs)
    obtain ⟨f, hf, _⟩ := write_eq_ok_iff.mp hfirst
    have hcells : ∀ i < vs.length, 0 ≤ offset + i ∧ offset + i < f.length := by
      intro i hi
      obtain ⟨_, hwrite⟩ := h i vs[i] (List.getElem?_eq_getElem hi)
      obtain ⟨g, hg, hcell, _⟩ := write_eq_ok_iff.mp hwrite
      rwa [hg.unique hf] at hcell
    have hrange := (exists_range_iff hvs (hf.addressable hend)).mpr hcells
    exact ⟨_, writeRange_eq_ok_iff.mpr ⟨f, hf, hrange, rfl⟩⟩

/-- Each value of a row that is read is what reading its cell gives. -/
theorem read_of_readRange {offset frame : Int} {count i : Nat} {vs : List Value} {v : Value}
    (h : fs.readRange offset frame count = .ok vs) (hv : vs[i]? = some v) :
    fs.read (offset + i) frame = .ok v := by
  obtain ⟨f, hf, ⟨hpos, _⟩, hslots⟩ := readRange_eq_ok_iff.mp h
  have hslot : ((f.drop offset.toNat).take count)[i]? = some (some v) := by
    rw [hslots, List.getElem?_map, hv]
    rfl
  have hi : i < count := by
    have hlt := (List.getElem?_eq_some_iff.mp hslot).1
    rw [List.length_take] at hlt
    omega
  have hindex : (offset + i).toNat = offset.toNat + i := by omega
  rw [List.getElem?_take_of_lt hi, List.getElem?_drop, ← hindex] at hslot
  exact read_eq_ok_iff.mpr ⟨f, hf, by omega, hslot⟩

theorem exists_eq_map_some {slots : List (Option Value)} (h : none ∉ slots) :
    ∃ vs : List Value, slots = vs.map some := by
  induction slots with
  | nil => exact ⟨[], rfl⟩
  | cons slot slots ih =>
    obtain ⟨vs, hvs⟩ := ih fun hslot => h (List.mem_cons_of_mem slot hslot)
    cases slot with
    | none => exact absurd List.mem_cons_self h
    | some v => exact ⟨v :: vs, by rw [hvs, List.map_cons]⟩

/-- A row of cells can be read exactly if each of them can. -/
theorem exists_readRange_iff {offset frame : Int} {count : Nat} (hcount : 1 ≤ count)
    (hend : fs.Addressable offset count) :
    (∃ vs, fs.readRange offset frame count = .ok vs) ↔
      ∀ i < count, ∃ v, fs.read (offset + i) frame = .ok v := by
  constructor
  · rintro ⟨vs, h⟩ i hi
    obtain ⟨_, _, hlength, _⟩ := length_readRange h
    exact ⟨vs[i], read_of_readRange h (List.getElem?_eq_getElem (by omega))⟩
  · intro h
    obtain ⟨_, hfirst⟩ := h 0 hcount
    obtain ⟨f, hf, _⟩ := read_eq_ok_iff.mp hfirst
    have hcells : ∀ i < count, 0 ≤ offset + i ∧ ∃ v, f[(offset + i).toNat]? = some (some v) := by
      intro i hi
      obtain ⟨v, hread⟩ := h i hi
      obtain ⟨g, hg, hpos, hslot⟩ := read_eq_ok_iff.mp hread
      rw [hg.unique hf] at hslot
      exact ⟨hpos, v, hslot⟩
    have hwithin : ∀ i < count, 0 ≤ offset + i ∧ offset + i < f.length := by
      intro i hi
      obtain ⟨hpos, v, hslot⟩ := hcells i hi
      have hlt := (List.getElem?_eq_some_iff.mp hslot).1
      exact ⟨hpos, by omega⟩
    have hrange := (exists_range_iff hcount (hf.addressable hend)).mpr hwithin
    have hfull : none ∉ (f.drop offset.toNat).take count := by
      intro hslot
      obtain ⟨i, hi, hnone⟩ := List.getElem_of_mem hslot
      rw [List.length_take] at hi
      obtain ⟨hpos, v, hv⟩ := hcells i (by omega)
      have hindex : (offset + i).toNat = offset.toNat + i := by omega
      rw [hindex] at hv
      rw [List.getElem_take, List.getElem_drop, (List.getElem?_eq_some_iff.mp hv).2] at hnone
      cases hnone
    obtain ⟨vs, hvs⟩ := exists_eq_map_some hfull
    exact ⟨vs, readRange_eq_ok_iff.mpr ⟨f, hf, hrange, hvs⟩⟩

/-- The values of a row that can be written are written one after the other. -/
theorem storeEach_of_isFrame {frame offset : Int} {f : Frame} {vs : List Value}
    (hf : fs.IsFrame frame f) (hpos : 0 ≤ offset) (hroom : offset + vs.length ≤ f.length)
    (below : List Value) : Operands.storeEach frame offset vs.length fs (vs ++ below) =
      .ok (fs.set frame.toNat (storeAt f offset.toNat vs), below) := by
  -- One value is stored, and the others in the memory that this leaves.
  induction vs generalizing fs f offset with
  | nil =>
    rw [storeAt_nil, hf.set_self]
    rfl
  | cons v vs ih =>
    rw [List.length_cons] at hroom
    have hwrite : fs.write offset frame v =
        .ok (fs.set frame.toNat (f.set offset.toNat (some v))) :=
      write_eq_ok_iff.mpr ⟨f, hf, ⟨hpos, by omega⟩, rfl⟩
    have hnext : offset + 1 + vs.length ≤ (f.set offset.toNat (some v)).length := by
      rw [List.length_set]
      omega
    have hindex : (offset + 1).toNat = offset.toNat + 1 := by omega
    calc Operands.storeEach frame offset (vs.length + 1) fs (v :: vs ++ below)
      _ = (Machine.access (fs.write offset frame v) >>=
            Operands.storeEach frame (offset + 1) vs.length) (vs ++ below) := rfl
      _ = Operands.storeEach frame (offset + 1) vs.length
            (fs.set frame.toNat (f.set offset.toNat (some v))) (vs ++ below) := by
          rw [hwrite]
          rfl
      _ = .ok (List.set (fs.set frame.toNat (f.set offset.toNat (some v))) frame.toNat
            (storeAt (f.set offset.toNat (some v)) (offset + 1).toNat vs), below) :=
          ih (hf.set _) (by omega) hnext
      _ = .ok (fs.set frame.toNat (storeAt f offset.toNat (v :: vs)), below) := by
          rw [List.set_set, hindex, storeAt_cons v vs (by omega)]

end FrameStack

namespace Machine

open Operands

/-! What each operation on many values does after it has popped its count. -/

section

variable {m : Machine} {index count : Nat} {operand : Option Value} {s rest : List Value}

/-- The values that `sta` stores are checked and stored at once. -/
theorem plan_sta {frame location : Int}
    (h : storeOperands s = .ok ((frame, location, count), rest)) :
    plan m index ⟨.sta, operand⟩ s =
      if rest.length < count then .error (.stackUnderflow .sta, rest)
      else
        match m.frames.writeRange location frame (rest.take count) with
        | .ok fs => .ok (.store fs, rest.drop count)
        | .error e => .error (.memory e, rest) := by
  obtain ⟨frame', t, hframe, h⟩ := bind_eq_ok.mp h
  obtain ⟨location', u, hlocation, h⟩ := bind_eq_ok.mp h
  obtain ⟨count', v, hcount, h⟩ := bind_eq_ok.mp h
  cases h
  have hplan : plan m index ⟨.sta, operand⟩ s = (do
      ensureDepth .sta count
      let _ ← access (m.frames.checkRange frame location count)
      let vs ← take count
      return Effect.store (← access (m.frames.writeRange location frame vs))) rest :=
    (bind_of_ok hframe _).trans ((bind_of_ok hlocation _).trans (bind_of_ok hcount _))
  rw [hplan, after_ensureDepth]
  split
  · rfl
  · next hmany =>
    have hlength : (rest.take count).length = count := List.length_take_of_le (by omega)
    rcases hc : m.frames.checkRange frame location count with e | x
    · have hfail : m.frames.writeRange location frame (rest.take count) = .error e := by
        rw [FrameStack.writeRange, hlength, hc]
        rfl
      rw [hfail]
      rfl
    · obtain ⟨fs, hfs⟩ : ∃ fs, m.frames.writeRange location frame (rest.take count) = .ok fs :=
        ⟨_, FrameStack.writeRange_of_checkRange (hlength ▸ hc)⟩
      have hstored : access (m.frames.writeRange location frame (rest.take count)) (rest.drop count)
          = .ok (fs, rest.drop count) := by
        rw [hfs]
        rfl
      rw [hfs]
      exact bind_of_ok hstored fun fs => pure (Effect.store fs)

theorem plan_pusha {offset frame : Int64} (h : popCount .pusha .valueCount s = .ok (count, rest)) :
    plan m index ⟨.pusha, some (.label offset frame)⟩ s =
      match m.frames.readRange offset.toInt frame.toInt count with
      | .ok vs => .ok (.next, vs.reverse ++ rest)
      | .error e => .error (.memory e, rest) := by
  refine (bind_of_ok h _).trans ?_
  dsimp only
  rcases m.frames.readRange offset.toInt frame.toInt count with e | vs
  · rfl
  · rfl

theorem plan_printa (h : popCount .printa .valueCount s = .ok (count, rest)) :
    plan m index ⟨.printa, operand⟩ s =
      if rest.length < count then .error (.stackUnderflow .printa, rest)
      else .ok (.print ((rest.take count).map printed), rest.drop count) :=
  (bind_of_ok h _).trans (after_ensureDepth _)

end

variable {m m' : Machine} {i : Instruction} {code : List Instruction}

/-- The machine is not halted, and these instructions are next in its program. -/
structure Runs (m : Machine) (code : List Instruction) : Prop where
  running : m.halted = false
  inside : 0 ≤ m.counter
  next : ∀ (k : Nat) i, code[k]? = some i → m.program.instruction? (m.counter.toNat + k) = some i

theorem Runs.current (h : m.Runs (i :: code)) : m.current = .ok (m.counter.toNat, i) :=
  current_of_instruction h.inside (h.next 0 i rfl)

/-- A step succeeds exactly if the plan of its instruction does and is carried out. -/
theorem Runs.step_eq_ok_iff (h : m.Runs (i :: code)) :
    m.step = some (.ok (), m') ↔ ∃ effect stack b,
      plan m m.counter.toNat i m.stack = .ok (effect, stack) ∧
        (m.begun m.counter.toNat i stack).perform effect = some b ∧ b.measured = m' := by
  constructor
  · intro hs
    cases step_eq_some_iff.mp hs with
    | done _ hc hp hb =>
      cases h.current.symm.trans hc
      exact ⟨_, _, _, hp, hb, rfl⟩
  · rintro ⟨effect, stack, b, hp, hb, rfl⟩
    exact step_eq_some_iff.mpr (.done h.running h.current hp hb)

section

variable {n : Nat} {operand : Option Value} {rest : List Value}

theorem Runs.sta_eq_ok_iff {frame location : Int} (h : m.Runs (⟨.sta, operand⟩ :: code))
    (hops : storeOperands m.stack = .ok ((frame, location, n), rest)) :
    m.step = some (.ok (), m') ↔ n ≤ rest.length ∧ ∃ fs,
      m.frames.writeRange location frame (rest.take n) = .ok fs ∧
        Machine.measured { m.begun m.counter.toNat ⟨.sta, operand⟩ (rest.drop n) with
          frames := fs, counter := m.counter + 1 } = m' := by
  rw [h.step_eq_ok_iff, plan_sta hops]
  constructor
  · rintro ⟨effect, stack, b, hp, hb, rfl⟩
    split at hp
    · cases hp
    · next hmany =>
      split at hp
      · next fs hfs =>
        cases hp
        cases hb
        exact ⟨by omega, fs, hfs, rfl⟩
      · cases hp
  · rintro ⟨hmany, fs, hfs, rfl⟩
    rw [if_neg (by omega), hfs]
    exact ⟨_, _, _, rfl, rfl, rfl⟩

theorem Runs.pusha_eq_ok_iff {offset frame : Int64}
    (h : m.Runs (⟨.pusha, some (.label offset frame)⟩ :: code))
    (hops : popCount .pusha .valueCount m.stack = .ok (n, rest)) :
    m.step = some (.ok (), m') ↔ ∃ vs,
      m.frames.readRange offset.toInt frame.toInt n = .ok vs ∧
        Machine.measured { m.begun m.counter.toNat ⟨.pusha, some (.label offset frame)⟩
          (vs.reverse ++ rest) with counter := m.counter + 1 } = m' := by
  rw [h.step_eq_ok_iff, plan_pusha hops]
  constructor
  · rintro ⟨effect, stack, b, hp, hb, rfl⟩
    split at hp
    · next vs hvs =>
      cases hp
      cases hb
      exact ⟨vs, hvs, rfl⟩
    · cases hp
  · rintro ⟨vs, hvs, rfl⟩
    rw [hvs]
    exact ⟨_, _, _, rfl, rfl, rfl⟩

theorem Runs.printa_eq_ok_iff (h : m.Runs (⟨.printa, operand⟩ :: code))
    (hops : popCount .printa .valueCount m.stack = .ok (n, rest)) :
    m.step = some (.ok (), m') ↔ n ≤ rest.length ∧
      Machine.measured { (m.begun m.counter.toNat ⟨.printa, operand⟩ (rest.drop n)).say
        ((rest.take n).map printed) with counter := m.counter + 1 } = m' := by
  rw [h.step_eq_ok_iff, plan_printa hops]
  constructor
  · rintro ⟨effect, stack, b, hp, hb, rfl⟩
    split at hp
    · cases hp
    · next hmany =>
      cases hp
      cases hb
      exact ⟨by omega, rfl⟩
  · rintro ⟨hmany, rfl⟩
    rw [if_neg (by omega)]
    exact ⟨_, _, _, rfl, rfl, rfl⟩

end

/-- After an instruction that goes on with the next one, the machine runs the others. -/
theorem Runs.tail {stack : List Value} {effect : Effect} (h : m.Runs (i :: code))
    (hb : (m.begun m.counter.toNat i stack).perform effect = some m')
    (hcounter : m'.counter = m.counter + 1) (hhalt : effect ≠ .halt) :
    m'.measured.Runs code := by
  obtain ⟨hprogram, _, _, _, _, hkept⟩ := perform_keeps hb
  have hpos := h.inside
  have hindex (k : Nat) : m'.counter.toNat + k = m.counter.toNat + (k + 1) := by omega
  refine ⟨?_, ?_, ?_⟩
  · rcases hkept with ⟨hhalted, _⟩ | ⟨heffect, _⟩
    · exact hhalted.trans h.running
    · exact absurd heffect hhalt
  · change 0 ≤ m'.counter
    omega
  · intro k j hj
    change m'.program.instruction? (m'.counter.toNat + k) = some j
    rw [hprogram, hindex]
    exact h.next (k + 1) j hj

/-- The first of several steps. -/
theorem advance_of_step {k : Nat} {b : Machine} (hs : m.step = some (.ok (), b))
    (h : b.advance k = some m') : m.advance (k + 1) = some m' := by
  induction k generalizing m' with
  | zero =>
    cases h
    exact advance_succ_eq_some.mpr ⟨m, rfl, hs⟩
  | succ k ih =>
    obtain ⟨c, hc, hlast⟩ := advance_succ_eq_some.mp h
    exact advance_succ_eq_some.mpr ⟨c, ih hc, hlast⟩

/-- Printing values one by one. -/
theorem advance_prints {vs below : List Value} (hstack : m.stack = vs ++ below)
    (h : m.Runs (List.replicate vs.length ⟨.print, none⟩)) :
    ∃ m', m.advance vs.length = some m' ∧ m'.stack = below ∧
      m'.log = (vs.map printed).foldl Log.append m.log := by
  -- One value is printed, and the others by the machine that this leaves.
  induction vs generalizing m with
  | nil => exact ⟨m, rfl, hstack, rfl⟩
  | cons v vs ih =>
    have hplan : plan m m.counter.toNat ⟨.print, none⟩ m.stack =
        .ok (.print [printed v], vs ++ below) := by
      rw [hstack]
      rfl
    have hperform : (m.begun m.counter.toNat ⟨.print, none⟩ (vs ++ below)).perform
        (.print [printed v]) = some _ := rfl
    have hs := h.step_eq_ok_iff.mpr ⟨_, _, _, hplan, hperform, rfl⟩
    obtain ⟨m', hm, hbelow, hlog⟩ := ih rfl (h.tail hperform rfl nofun)
    exact ⟨m', advance_of_step hs hm, hbelow, hlog⟩

/-- Instructions that push the values of cells in a row. -/
def pushEach (frame : Int64) : Int → Nat → List Instruction
  | _, 0 => []
  | offset, n + 1 =>
    ⟨.push, some (.label (Int64.ofInt offset) frame)⟩ :: pushEach frame (offset + 1) n

/-- Pushing values one by one. -/
theorem advance_pushes {frame : Int64} {offset : Int} {vs : List Value}
    (h : m.Runs (pushEach frame offset vs.length))
    (hfits : ∀ i < vs.length, FitsInt64 (offset + i))
    (hreads : ∀ (i : Nat) v, vs[i]? = some v → m.frames.read (offset + i) frame.toInt = .ok v) :
    ∃ m', m.advance vs.length = some m' ∧ m'.stack = vs.reverse ++ m.stack := by
  -- One value is pushed, and the others above it, from the next cell on.
  induction vs generalizing m offset with
  | nil => exact ⟨m, rfl, rfl⟩
  | cons v vs ih =>
    obtain ⟨hlow, hhigh⟩ : FitsInt64 offset := by
      have hfirst := hfits 0 (Nat.zero_lt_succ _)
      rwa [Int.natCast_zero, Int.add_zero] at hfirst
    have hread : m.frames.read (Int64.ofInt offset).toInt frame.toInt = .ok v := by
      have hfirst := hreads 0 v rfl
      rw [Int.natCast_zero, Int.add_zero] at hfirst
      rw [Int64.toInt_ofInt_of_le hlow hhigh, hfirst]
    have hplan : plan m m.counter.toNat ⟨.push, some (.label (Int64.ofInt offset) frame)⟩ m.stack =
        .ok (.next, v :: m.stack) := by
      have hvalue : resolve m m.counter.toNat (.label (Int64.ofInt offset) frame) m.stack =
          .ok (v, m.stack) := access_eq_ok.mpr ⟨hread, rfl⟩
      exact bind_of_ok hvalue _
    have hperform : (m.begun m.counter.toNat ⟨.push, some (.label (Int64.ofInt offset) frame)⟩
        (v :: m.stack)).perform .next = some _ := rfl
    have hs := h.step_eq_ok_iff.mpr ⟨_, _, _, hplan, hperform, rfl⟩
    have hshift (i : Nat) : offset + 1 + i = offset + (i + 1 : Nat) := by omega
    obtain ⟨m', hm, hstack⟩ := ih (h.tail hperform rfl nofun)
      (fun i hi => hshift i ▸ hfits (i + 1) (Nat.succ_lt_succ hi))
      (fun i w hw => hshift i ▸ hreads (i + 1) w hw)
    refine ⟨m', advance_of_step hs hm, ?_⟩
    rw [hstack, List.reverse_cons, List.append_assoc]
    rfl

/-! Each operation on many values against the operation on one. -/

section

variable {n : Nat} {operand : Option Value} {rest : List Value}

theorem Runs.sta_succeeds_iff {frame location : Int} (hn : 1 ≤ n)
    (h : m.Runs (⟨.sta, operand⟩ :: code))
    (hops : storeOperands m.stack = .ok ((frame, location, n), rest))
    (hend : m.frames.Addressable location n) :
    (∃ m', m.step = some (.ok (), m')) ↔ n ≤ rest.length ∧ ∀ (i : Nat) v, i < n →
      rest[i]? = some v → ∃ fs, m.frames.write (location + i) frame v = .ok fs := by
  have hvalue (i : Nat) (v : Value) :
      (rest.take n)[i]? = some v ↔ i < n ∧ rest[i]? = some v := by
    rw [List.getElem?_take]
    by_cases hi : i < n
    · simp [hi]
    · simp [hi]
  have hrange (hmany : n ≤ rest.length) :
      (∃ fs, m.frames.writeRange location frame (rest.take n) = .ok fs) ↔
        ∀ (i : Nat) v, i < n → rest[i]? = some v →
          ∃ fs, m.frames.write (location + i) frame v = .ok fs := by
    have hlength : (rest.take n).length = n := List.length_take_of_le hmany
    rw [FrameStack.exists_writeRange_iff (by omega) (by rwa [hlength])]
    simp only [hvalue, and_imp]
  constructor
  · rintro ⟨m', hs⟩
    obtain ⟨hmany, fs, hfs, _⟩ := (h.sta_eq_ok_iff hops).mp hs
    exact ⟨hmany, (hrange hmany).mp ⟨fs, hfs⟩⟩
  · rintro ⟨hmany, hwrites⟩
    obtain ⟨fs, hfs⟩ := (hrange hmany).mpr hwrites
    exact ⟨_, (h.sta_eq_ok_iff hops).mpr ⟨hmany, fs, hfs, rfl⟩⟩

theorem Runs.sta_stores_each {frame location : Int} (h : m.Runs (⟨.sta, operand⟩ :: code))
    (hops : storeOperands m.stack = .ok ((frame, location, n), rest))
    (hs : m.step = some (.ok (), m')) :
    storeEach frame location n m.frames rest = .ok (m'.frames, m'.stack) := by
  obtain ⟨hmany, fs, hfs, rfl⟩ := (h.sta_eq_ok_iff hops).mp hs
  obtain ⟨f, hf, ⟨hpos, hroom, _⟩, rfl⟩ := FrameStack.writeRange_eq_ok_iff.mp hfs
  have hstored := FrameStack.storeEach_of_isFrame hf hpos hroom (rest.drop n)
  rwa [List.length_take_of_le hmany, List.take_append_drop] at hstored

theorem Runs.pusha_succeeds_iff {offset frame : Int64} (hn : 1 ≤ n)
    (h : m.Runs (⟨.pusha, some (.label offset frame)⟩ :: code))
    (hops : popCount .pusha .valueCount m.stack = .ok (n, rest))
    (hend : m.frames.Addressable offset.toInt n) :
    (∃ m', m.step = some (.ok (), m')) ↔
      ∀ i < n, ∃ v, m.frames.read (offset.toInt + i) frame.toInt = .ok v := by
  rw [← FrameStack.exists_readRange_iff hn hend]
  constructor
  · rintro ⟨m', hs⟩
    obtain ⟨vs, hvs, _⟩ := (h.pusha_eq_ok_iff hops).mp hs
    exact ⟨vs, hvs⟩
  · rintro ⟨vs, hvs⟩
    exact ⟨_, (h.pusha_eq_ok_iff hops).mpr ⟨vs, hvs, rfl⟩⟩

theorem Runs.pusha_pushes_each {e : Machine} {offset frame : Int64}
    (h : m.Runs (⟨.pusha, some (.label offset frame)⟩ :: code))
    (hops : popCount .pusha .valueCount m.stack = .ok (n, rest))
    (hs : m.step = some (.ok (), m')) (hframes : e.frames = m.frames) (hstack : e.stack = rest)
    (he : e.Runs (pushEach frame offset.toInt n)) :
    ∃ e', e.advance n = some e' ∧ e'.stack = m'.stack := by
  obtain ⟨vs, hvs, rfl⟩ := (h.pusha_eq_ok_iff hops).mp hs
  obtain ⟨_, _, hlength, _⟩ := FrameStack.length_readRange hvs
  obtain ⟨_, _, ⟨hpos, _, hfits⟩, _⟩ := FrameStack.readRange_eq_ok_iff.mp hvs
  have haddress : ∀ i < vs.length, FitsInt64 (offset.toInt + i) := by
    intro i hi
    exact ⟨by omega, by omega⟩
  have hreads (i : Nat) (v : Value) (hv : vs[i]? = some v) :
      e.frames.read (offset.toInt + i) frame.toInt = .ok v := by
    rw [hframes]
    exact FrameStack.read_of_readRange hvs hv
  subst hlength
  obtain ⟨e', hadvance, hpushed⟩ := advance_pushes he haddress hreads
  exact ⟨e', hadvance, by rw [hpushed, hstack]; rfl⟩

theorem Runs.printa_succeeds_iff (h : m.Runs (⟨.printa, operand⟩ :: code))
    (hops : popCount .printa .valueCount m.stack = .ok (n, rest)) :
    (∃ m', m.step = some (.ok (), m')) ↔ n ≤ rest.length := by
  constructor
  · rintro ⟨m', hs⟩
    exact ((h.printa_eq_ok_iff hops).mp hs).1
  · intro hmany
    exact ⟨_, (h.printa_eq_ok_iff hops).mpr ⟨hmany, rfl⟩⟩

theorem Runs.printa_prints_each {e : Machine} (h : m.Runs (⟨.printa, operand⟩ :: code))
    (hops : popCount .printa .valueCount m.stack = .ok (n, rest))
    (hs : m.step = some (.ok (), m')) (hlog : e.log = m.log) (hstack : e.stack = rest)
    (he : e.Runs (List.replicate n ⟨.print, none⟩)) :
    ∃ e', e.advance n = some e' ∧ e'.stack = m'.stack ∧ e'.log = m'.log := by
  obtain ⟨hmany, rfl⟩ := (h.printa_eq_ok_iff hops).mp hs
  have hlength : (rest.take n).length = n := List.length_take_of_le hmany
  have hsplit : e.stack = rest.take n ++ rest.drop n := by rw [hstack, List.take_append_drop]
  rw [← hlength] at he
  obtain ⟨e', hadvance, hbelow, htext⟩ := advance_prints hsplit he
  rw [hlength] at hadvance
  refine ⟨e', hadvance, ?_, ?_⟩
  · rw [hbelow, say_eq]
    rfl
  · rw [htext, hlog, say_eq]
    rfl

end

/-- An instruction that fails has changed neither memory nor the log, and has taken no more than its
fixed operands. -/
theorem Runs.failed {e : Fault} (h : m.Runs (i :: code)) (hs : m.step = some (.error e, m')) :
    m'.frames = m.frames ∧ m'.log = m.log ∧
      ∃ taken ≤ i.opcode.fixedOperands, m'.stack = m.stack.drop taken := by
  cases step_eq_some_iff.mp hs with
  | halted hhalted => cases h.running.symm.trans hhalted
  | misplaced _ hmisplaced => cases h.current.symm.trans hmisplaced
  | @failed _ _ _ stack _ hc hp =>
    cases h.current.symm.trans hc
    obtain ⟨_, taken, hle, hstack⟩ := plan_failsWithin m _ i m.stack _ _ hp
    exact ⟨rfl, rfl, taken, hle, hstack⟩

/-- An operation on many values succeeds exactly if the operation on one value would for each of them,
and then leaves what that operation leaves, carried out once for each. Where it fails, only its fixed
operands are gone. -/
theorem bulk_agrees_with_single (m : Machine) (n : Nat) (rest : List Value) (hn : 1 ≤ n) :
    (∀ operand frame location, m.Runs [⟨.sta, operand⟩] →
      storeOperands m.stack = .ok ((frame, location, n), rest) →
      m.frames.Addressable location n →
      ((∃ m', m.step = some (.ok (), m')) ↔ n ≤ rest.length ∧ ∀ (i : Nat) v, i < n →
        rest[i]? = some v → ∃ fs, m.frames.write (location + i) frame v = .ok fs) ∧
      ∀ m', m.step = some (.ok (), m') →
        storeEach frame location n m.frames rest = .ok (m'.frames, m'.stack)) ∧
    (∀ offset frame, m.Runs [⟨.pusha, some (.label offset frame)⟩] →
      popCount .pusha .valueCount m.stack = .ok (n, rest) →
      m.frames.Addressable offset.toInt n →
      ((∃ m', m.step = some (.ok (), m')) ↔
        ∀ i < n, ∃ v, m.frames.read (offset.toInt + i) frame.toInt = .ok v) ∧
      ∀ m', m.step = some (.ok (), m') → ∀ e : Machine, e.frames = m.frames → e.stack = rest →
        e.Runs (pushEach frame offset.toInt n) →
        ∃ e', e.advance n = some e' ∧ e'.stack = m'.stack) ∧
    (∀ operand, m.Runs [⟨.printa, operand⟩] →
      popCount .printa .valueCount m.stack = .ok (n, rest) →
      ((∃ m', m.step = some (.ok (), m')) ↔ n ≤ rest.length) ∧
      ∀ m', m.step = some (.ok (), m') → ∀ e : Machine, e.log = m.log → e.stack = rest →
        e.Runs (List.replicate n ⟨.print, none⟩) →
        ∃ e', e.advance n = some e' ∧ e'.stack = m'.stack ∧ e'.log = m'.log) ∧
    ∀ op ∈ [Opcode.sta, .pusha, .printa], ∀ operand, m.Runs [⟨op, operand⟩] →
      ∀ e m', m.step = some (.error e, m') →
        m'.frames = m.frames ∧ m'.log = m.log ∧
          ∃ taken ≤ op.fixedOperands, m'.stack = m.stack.drop taken := by
  refine ⟨?_, ?_, ?_, ?_⟩
  · intro operand frame location h hops hend
    exact ⟨h.sta_succeeds_iff hn hops hend, fun m' hs => h.sta_stores_each hops hs⟩
  · intro offset frame h hops hend
    exact ⟨h.pusha_succeeds_iff hn hops hend,
      fun m' hs e hframes hstack he => h.pusha_pushes_each hops hs hframes hstack he⟩
  · intro operand h hops
    exact ⟨h.printa_succeeds_iff hops,
      fun m' hs e hlog hstack he => h.printa_prints_each hops hs hlog hstack he⟩
  · intro op _ operand h e m' hs
    exact h.failed hs

/-- A machine with given values and memory, about to execute instructions. -/
def aboutTo (code : List Instruction) (stack : List Value) (frames : FrameStack) : Machine :=
  { build .headless {} with
    program := ⟨code.toArray, .empty⟩
    stack := stack
    frames := frames
    halted := false }

theorem aboutTo_runs (code : List Instruction) (stack : List Value) (frames : FrameStack) :
    (aboutTo code stack frames).Runs code := by
  refine ⟨rfl, Int.le_refl 0, ?_⟩
  intro k i hi
  have hindex : (0 : Int).toNat + k = k := Nat.zero_add k
  change code.toArray[(0 : Int).toNat + k]? = some i
  rwa [hindex, List.getElem?_toArray]

/-- Three cells, the last of them empty. -/
def threeCells : FrameStack := [[some (.number 5.0), some (.number 6.0), none]]

/-- Two values are stored, pushed and printed; three are not pushed, as the last cell is empty. -/
theorem two_agree_with_single :
    (∃ m', (aboutTo [⟨.sta, none⟩]
        [.number 0.0, .number 1.0, .number 2.0, .number 7.0, .number 8.0] threeCells).step =
          some (.ok (), m') ∧
      storeEach 0 1 2 threeCells [.number 7.0, .number 8.0] = .ok (m'.frames, m'.stack)) ∧
    (∃ m' e', (aboutTo [⟨.pusha, some (.label 0 0)⟩] [.number 2.0] threeCells).step =
        some (.ok (), m') ∧
      (aboutTo (pushEach 0 0 2) [] threeCells).advance 2 = some e' ∧ e'.stack = m'.stack) ∧
    (∃ m' e', (aboutTo [⟨.printa, none⟩] [.number 2.0, .number 7.0, .number 8.0] []).step =
        some (.ok (), m') ∧
      (aboutTo (List.replicate 2 ⟨.print, none⟩) [.number 7.0, .number 8.0] []).advance 2 =
        some e' ∧ e'.stack = m'.stack ∧ e'.log = m'.log) ∧
    ∃ m' e, (aboutTo [⟨.pusha, some (.label 0 0)⟩] [.number 3.0] threeCells).step =
        some (.error e, m') ∧
      m'.frames = threeCells ∧ ∃ taken ≤ 1, m'.stack = [Value.number 3.0].drop taken := by
  refine ⟨?_, ?_, ?_, ?_⟩
  · obtain ⟨hsta, _⟩ := bulk_agrees_with_single (aboutTo [⟨.sta, none⟩]
      [.number 0.0, .number 1.0, .number 2.0, .number 7.0, .number 8.0] threeCells)
      2 [.number 7.0, .number 8.0] (by decide)
    obtain ⟨_, hstores⟩ := hsta none 0 1 (aboutTo_runs _ _ _) rfl (.inl (by decide))
    exact ⟨_, rfl, hstores _ rfl⟩
  · obtain ⟨_, hpusha, _⟩ := bulk_agrees_with_single
      (aboutTo [⟨.pusha, some (.label 0 0)⟩] [.number 2.0] threeCells) 2 [] (by decide)
    obtain ⟨_, hpushes⟩ := hpusha 0 0 (aboutTo_runs _ _ _) rfl (.inl (by decide))
    obtain ⟨e', he, hstack⟩ := hpushes _ rfl (aboutTo (pushEach 0 0 2) [] threeCells) rfl rfl
      (aboutTo_runs _ _ _)
    exact ⟨_, e', rfl, he, hstack⟩
  · obtain ⟨_, _, hprinta, _⟩ := bulk_agrees_with_single
      (aboutTo [⟨.printa, none⟩] [.number 2.0, .number 7.0, .number 8.0] [])
      2 [.number 7.0, .number 8.0] (by decide)
    obtain ⟨_, hprints⟩ := hprinta none (aboutTo_runs _ _ _) rfl
    obtain ⟨e', he, hstack, hlog⟩ := hprints _ rfl
      (aboutTo (List.replicate 2 ⟨.print, none⟩) [.number 7.0, .number 8.0] []) rfl rfl
      (aboutTo_runs _ _ _)
    exact ⟨_, e', rfl, he, hstack, hlog⟩
  · obtain ⟨_, _, _, hfailed⟩ := bulk_agrees_with_single
      (aboutTo [⟨.pusha, some (.label 0 0)⟩] [.number 3.0] threeCells) 3 [] (by decide)
    obtain ⟨hframes, _, htaken⟩ := hfailed .pusha (by simp) _ (aboutTo_runs _ _ _) _ _ rfl
    exact ⟨_, _, rfl, hframes, htaken⟩

end Machine

end PixelMachine
