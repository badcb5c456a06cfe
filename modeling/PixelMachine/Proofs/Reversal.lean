import PixelMachine.Proofs.Bulk

/-! Values that are moved together change their order: the last one taken is the first one put back. So
do values that are stored and pushed again, and the arguments of a call. -/
namespace PixelMachine

namespace FrameStack

variable {fs fs' : FrameStack}

/-- A row of cells reads as what was written to it. -/
theorem readRange_of_writeRange {offset frame : Int} {vs : List Value}
    (h : fs.writeRange offset frame vs = .ok fs') :
    fs'.readRange offset frame vs.length = .ok vs := by
  obtain ⟨f, hf, hrange, rfl⟩ := writeRange_eq_ok_iff.mp h
  have hroom : offset.toNat + vs.length ≤ f.length := by omega
  have hlength : (storeAt f offset.toNat vs).length = f.length := length_storeAt hroom
  have htake : (f.take offset.toNat).length = offset.toNat := List.length_take_of_le (by omega)
  have hstored : ((storeAt f offset.toNat vs).drop offset.toNat).take vs.length = vs.map some := by
    rw [storeAt, List.append_assoc, List.drop_left' htake, List.take_left' (List.length_map some)]
  exact readRange_eq_ok_iff.mpr ⟨_, hf.set _, hlength ▸ hrange, hstored⟩

/-- So does a new frame, from its first cell on. -/
theorem readRange_enter (fs : FrameStack) {vs : List Value} (h : FitsInt64 vs.length) :
    (fs.enter (vs.map some)).readRange 0 0 vs.length = .ok vs := by
  have hrange : (0 : Int) ≤ 0 ∧ (0 : Int) + vs.length ≤ (vs.map some).length ∧
      FitsInt64 (0 + vs.length) := by
    rw [List.length_map, Int.zero_add]
    exact ⟨Int.le_refl 0, Int.le_refl _, h⟩
  have hslots : ((vs.map some).drop (0 : Int).toNat).take vs.length = vs.map some :=
    List.take_of_length_le (Nat.le_of_eq (List.length_map some))
  exact readRange_eq_ok_iff.mpr ⟨vs.map some, ⟨Int.le_refl 0, rfl⟩, hrange, hslots⟩

end FrameStack

/-- The operands of `call`. -/
def Operands.callOperands : Operands (Int × Nat) := do
  let target ← popInteger .call .callTarget
  let count ← popCount .call .argumentCount
  return (target, count)

namespace Machine

open Operands

variable {m m' : Machine} {code : List Instruction} {operand : Option Value}
  {vs below : List Value}

theorem plan_reta {index count : Nat} {s rest : List Value}
    (h : popCount .reta .valueCount s = .ok (count, rest)) :
    plan m index ⟨.reta, operand⟩ s =
      if rest.length < count then .error (.stackUnderflow .reta, rest)
      else .ok (.next, (rest.take count).reverse ++ rest.drop count) :=
  (bind_of_ok h _).trans (after_ensureDepth _)

theorem plan_call {index count : Nat} {s rest : List Value} {target : Int}
    (h : callOperands s = .ok ((target, count), rest)) :
    plan m index ⟨.call, operand⟩ s =
      if rest.length < count then .error (.stackUnderflow .call, rest)
      else .ok (.call target (rest.take count), rest.drop count) := by
  obtain ⟨target', t, htarget, h⟩ := bind_eq_ok.mp h
  obtain ⟨count', u, hcount, h⟩ := bind_eq_ok.mp h
  cases h
  exact (bind_of_ok htarget _).trans ((bind_of_ok hcount _).trans (after_ensureDepth _))

theorem fits_of_callOperands {count : Nat} {s rest : List Value} {target : Int}
    (h : callOperands s = .ok ((target, count), rest)) : FitsInt64 count := by
  obtain ⟨target', t, _, h⟩ := bind_eq_ok.mp h
  obtain ⟨count', u, hcount, h⟩ := bind_eq_ok.mp h
  cases h
  exact fits_of_popCount hcount

theorem Runs.reta_of_enough (h : m.Runs (⟨.reta, operand⟩ :: code))
    (hops : popCount .reta .valueCount m.stack = .ok (vs.length, vs ++ below)) :
    ∃ m', m.step = some (.ok (), m') ∧ m'.stack = vs.reverse ++ below := by
  have hplan : plan m m.counter.toNat ⟨.reta, operand⟩ m.stack =
      .ok (.next, vs.reverse ++ below) := by
    have hmany : ¬ (vs ++ below).length < vs.length := by
      rw [List.length_append]
      omega
    rw [plan_reta hops, if_neg hmany, List.take_left, List.drop_left]
  exact ⟨_, h.step_eq_ok_iff.mpr ⟨_, _, _, hplan, rfl, rfl⟩, rfl⟩

theorem Runs.sta_of_range {offset frame : Int} {f : Frame}
    (h : m.Runs (⟨.sta, operand⟩ :: code))
    (hops : storeOperands m.stack = .ok ((frame, offset, vs.length), vs ++ below))
    (hf : m.frames.IsFrame frame f) (hrange : 0 ≤ offset ∧ offset + vs.length ≤ f.length)
    (hend : m.frames.Addressable offset vs.length) :
    ∃ m', m.step = some (.ok (), m') ∧ m'.stack = below ∧
      m.frames.writeRange offset frame vs = .ok m'.frames := by
  have hfits : FitsInt64 (offset + vs.length) := by
    rcases hf.addressable hend with hfits | hsize
    · exact hfits
    · exact ⟨by omega, by omega⟩
  obtain ⟨fs, hwrite⟩ : ∃ fs, m.frames.writeRange offset frame vs = .ok fs :=
    ⟨_, FrameStack.writeRange_eq_ok_iff.mpr ⟨f, hf, ⟨hrange.1, hrange.2, hfits⟩, rfl⟩⟩
  have hmany : vs.length ≤ (vs ++ below).length := by
    rw [List.length_append]
    omega
  have hstored : m.frames.writeRange offset frame ((vs ++ below).take vs.length) = .ok fs := by
    rwa [List.take_left]
  refine ⟨_, (h.sta_eq_ok_iff hops).mpr ⟨hmany, fs, hstored, rfl⟩, ?_, hwrite⟩
  exact List.drop_left

theorem Runs.call_of_enough {target : Int} (h : m.Runs (⟨.call, operand⟩ :: code))
    (hops : callOperands m.stack = .ok ((target, vs.length), vs ++ below)) :
    ∃ m', m.step = some (.ok (), m') ∧ m'.stack = below ∧ m'.counter = target ∧
      m'.frames = m.frames.enter (vs.map some) := by
  have hplan : plan m m.counter.toNat ⟨.call, operand⟩ m.stack = .ok (.call target vs, below) := by
    have hmany : ¬ (vs ++ below).length < vs.length := by
      rw [List.length_append]
      omega
    rw [plan_call hops, if_neg hmany, List.take_left, List.drop_left]
  exact ⟨_, h.step_eq_ok_iff.mpr ⟨_, _, _, hplan, rfl, rfl⟩, rfl, rfl, rfl⟩

theorem Runs.pusha_of_readRange {offset frame : Int64}
    (h : m.Runs (⟨.pusha, some (.label offset frame)⟩ :: code))
    (hops : popCount .pusha .valueCount m.stack = .ok (vs.length, below))
    (hread : m.frames.readRange offset.toInt frame.toInt vs.length = .ok vs) :
    ∃ m', m.step = some (.ok (), m') ∧ m'.stack = vs.reverse ++ below :=
  ⟨_, (h.pusha_eq_ok_iff hops).mpr ⟨vs, hread, rfl⟩, rfl⟩

/-- Values that are moved together are reversed, whichever way they are moved: by `reta`, which a second
`reta` undoes; through cells that they are stored in and pushed from; or as the arguments of a call, which
the function pushes from its frame. -/
theorem bulk_transfers_reverse (m : Machine) (vs below : List Value) :
    (∀ operand, m.Runs [⟨.reta, operand⟩] →
      popCount .reta .valueCount m.stack = .ok (vs.length, vs ++ below) →
      ∃ m', m.step = some (.ok (), m') ∧ m'.stack = vs.reverse ++ below ∧
        ∀ (r : Machine) operand', r.Runs [⟨.reta, operand'⟩] →
          popCount .reta .valueCount r.stack = .ok (vs.length, m'.stack) →
          ∃ r', r.step = some (.ok (), r') ∧ r'.stack = vs ++ below) ∧
    (∀ operand (offset frame : Int64) f, m.Runs [⟨.sta, operand⟩] →
      storeOperands m.stack = .ok ((frame.toInt, offset.toInt, vs.length), vs ++ below) →
      m.frames.IsFrame frame.toInt f →
      0 ≤ offset.toInt ∧ offset.toInt + vs.length ≤ f.length →
      m.frames.Addressable offset.toInt vs.length →
      ∃ m', m.step = some (.ok (), m') ∧
        ∀ r : Machine, r.Runs [⟨.pusha, some (.label offset frame)⟩] → r.frames = m'.frames →
          popCount .pusha .valueCount r.stack = .ok (vs.length, m'.stack) →
          ∃ r', r.step = some (.ok (), r') ∧ r'.stack = vs.reverse ++ below) ∧
    ∀ operand target, m.Runs [⟨.call, operand⟩] →
      callOperands m.stack = .ok ((target, vs.length), vs ++ below) →
      ∃ m', m.step = some (.ok (), m') ∧ m'.counter = target ∧
        m'.frames = m.frames.enter (vs.map some) ∧
        (∀ (i : Nat) v, vs[i]? = some v → m'.frames.read i 0 = .ok v) ∧
        ∀ r : Machine, r.Runs [⟨.pusha, some (.label 0 0)⟩] → r.frames = m'.frames →
          popCount .pusha .valueCount r.stack = .ok (vs.length, m'.stack) →
          ∃ r', r.step = some (.ok (), r') ∧ r'.stack = vs.reverse ++ below := by
  refine ⟨?_, ?_, ?_⟩
  · intro operand h hops
    obtain ⟨m', hs, hstack⟩ := h.reta_of_enough hops
    refine ⟨m', hs, hstack, ?_⟩
    intro r operand' hr hagain
    rw [hstack, ← List.length_reverse] at hagain
    obtain ⟨r', hrs, hrestored⟩ := hr.reta_of_enough hagain
    exact ⟨r', hrs, by rw [hrestored, List.reverse_reverse]⟩
  · intro operand offset frame f h hops hf hrange hend
    obtain ⟨m', hs, hstack, hwrite⟩ := h.sta_of_range hops hf hrange hend
    refine ⟨m', hs, ?_⟩
    intro r hr hframes hcount
    have hread : r.frames.readRange offset.toInt frame.toInt vs.length = .ok vs := by
      rw [hframes]
      exact FrameStack.readRange_of_writeRange hwrite
    rw [hstack] at hcount
    exact hr.pusha_of_readRange hcount hread
  · intro operand target h hops
    obtain ⟨m', hs, hstack, hcounter, hframes⟩ := h.call_of_enough hops
    have hread : m'.frames.readRange 0 0 vs.length = .ok vs := by
      rw [hframes]
      exact FrameStack.readRange_enter m.frames (fits_of_callOperands hops)
    refine ⟨m', hs, hcounter, hframes, ?_, ?_⟩
    · intro i v hv
      have hcell := FrameStack.read_of_readRange hread hv
      rwa [Int.zero_add] at hcell
    · intro r hr hrframes hcount
      rw [hstack] at hcount
      exact hr.pusha_of_readRange hcount (hrframes ▸ hread)

/-- Two values above a third change places in each of these ways. -/
theorem two_values_reversed :
    (∃ m' r', (aboutTo [⟨.reta, none⟩] [.number 2.0, .number 7.0, .number 8.0, .number 9.0] []).step =
        some (.ok (), m') ∧ m'.stack = [.number 8.0, .number 7.0, .number 9.0] ∧
      (aboutTo [⟨.reta, none⟩] (.number 2.0 :: m'.stack) []).step = some (.ok (), r') ∧
      r'.stack = [.number 7.0, .number 8.0, .number 9.0]) ∧
    (∃ m' r', (aboutTo [⟨.sta, none⟩] [.number 0.0, .number 1.0, .number 2.0, .number 7.0,
        .number 8.0, .number 9.0] threeCells).step = some (.ok (), m') ∧
      (aboutTo [⟨.pusha, some (.label 1 0)⟩] (.number 2.0 :: m'.stack) m'.frames).step =
        some (.ok (), r') ∧ r'.stack = [.number 8.0, .number 7.0, .number 9.0]) ∧
    ∃ m' r', (aboutTo [⟨.call, none⟩]
        [.number 5.0, .number 2.0, .number 7.0, .number 8.0, .number 9.0] []).step =
          some (.ok (), m') ∧ m'.counter = 5 ∧ m'.frames.read 0 0 = .ok (.number 7.0) ∧
      (aboutTo [⟨.pusha, some (.label 0 0)⟩] (.number 2.0 :: m'.stack) m'.frames).step =
        some (.ok (), r') ∧ r'.stack = [.number 8.0, .number 7.0, .number 9.0] := by
  refine ⟨?_, ?_, ?_⟩
  · obtain ⟨hreta, _⟩ := bulk_transfers_reverse
      (aboutTo [⟨.reta, none⟩] [.number 2.0, .number 7.0, .number 8.0, .number 9.0] [])
      [.number 7.0, .number 8.0] [.number 9.0]
    obtain ⟨m', hs, hstack, hback⟩ := hreta none (aboutTo_runs _ _ _) rfl
    obtain ⟨r', hr, hrestored⟩ := hback (aboutTo [⟨.reta, none⟩] (.number 2.0 :: m'.stack) [])
      none (aboutTo_runs _ _ _) rfl
    exact ⟨m', r', hs, hstack, hr, hrestored⟩
  · obtain ⟨_, hsta, _⟩ := bulk_transfers_reverse (aboutTo [⟨.sta, none⟩] [.number 0.0, .number 1.0,
      .number 2.0, .number 7.0, .number 8.0, .number 9.0] threeCells)
      [.number 7.0, .number 8.0] [.number 9.0]
    obtain ⟨m', hs, hpusha⟩ := hsta none 1 0 _ (aboutTo_runs _ _ _) rfl ⟨Int.le_refl 0, rfl⟩
      (by decide) (.inl (by decide))
    obtain ⟨r', hr, hstack⟩ := hpusha
      (aboutTo [⟨.pusha, some (.label 1 0)⟩] (.number 2.0 :: m'.stack) m'.frames)
      (aboutTo_runs _ _ _) rfl rfl
    exact ⟨m', r', hs, hr, hstack⟩
  · obtain ⟨_, _, hcall⟩ := bulk_transfers_reverse (aboutTo [⟨.call, none⟩]
      [.number 5.0, .number 2.0, .number 7.0, .number 8.0, .number 9.0] [])
      [.number 7.0, .number 8.0] [.number 9.0]
    obtain ⟨m', hs, hcounter, _, hcells, hpusha⟩ := hcall none 5 (aboutTo_runs _ _ _) rfl
    obtain ⟨r', hr, hstack⟩ := hpusha
      (aboutTo [⟨.pusha, some (.label 0 0)⟩] (.number 2.0 :: m'.stack) m'.frames)
      (aboutTo_runs _ _ _) rfl rfl
    exact ⟨m', r', hs, hcounter, hcells 0 _ rfl, hr, hstack⟩

end Machine

end PixelMachine
