import PixelMachine.Proofs.Memory
import PixelMachine.Proofs.Steps

/-! The memory of callers is out of the reach of what they call. Frames are numbered from the
innermost one, so the number of a caller's frame grows with every frame that is opened. -/
namespace PixelMachine

namespace Machine

open Operands

/-- The next instruction stores into the frame of this number. -/
def StoresInto (m : Machine) (frame : Int) : Prop :=
  ∃ index i rest, m.current = .ok (index, i) ∧ i.opcode ∈ [.st, .sta] ∧
    popInteger i.opcode .frameIndex m.stack = .ok (frame, rest)

theorem storesInto_iff {m : Machine} {frame : Int} {index : Nat} {i : Instruction}
    (h : m.current = .ok (index, i)) :
    m.StoresInto frame ↔
      i.opcode ∈ [.st, .sta] ∧ ∃ rest, popInteger i.opcode .frameIndex m.stack = .ok (frame, rest) := by
  constructor
  · rintro ⟨_, _, rest, hc, hop, hpop⟩
    cases h.symm.trans hc
    exact ⟨hop, rest, hpop⟩
  · rintro ⟨hop, rest, hpop⟩
    exact ⟨index, i, rest, h, hop, hpop⟩

/-- The memory that an instruction may leave. -/
inductive Remembers (m : Machine) : FrameStack → Prop where
  | kept : Remembers m m.frames
  | entered (f : Frame) : Remembers m (f :: m.frames)
  | left : Remembers m m.frames.leave
  | grown {f : Frame} {rest : FrameStack} (count : Nat) : m.IsAt .alloc → m.frames = f :: rest →
      Remembers m ((f ++ Frame.empty count) :: rest)
  | stored {frame : Int} (f : Frame) : m.StoresInto frame → 0 ≤ frame →
      Remembers m (m.frames.set frame.toNat f)

theorem remembers_of_alloc {m : Machine} {count : Nat} {frames : FrameStack} (hat : m.IsAt .alloc)
    (h : m.frames.alloc count = .ok frames) : Remembers m frames := by
  rcases hf : m.frames with _ | ⟨f, rest⟩
  · rw [hf] at h
    cases h
  · rw [hf] at h
    cases h
    exact .grown count hat hf

/-- What the instructions that change memory make of it. -/
theorem remembers_of_store {m : Machine} {index : Nat} {i : Instruction} {frames : FrameStack}
    {stack : List Value} (hc : m.current = .ok (index, i))
    (hp : plan m index i m.stack = .ok (.store frames, stack)) : Remembers m frames := by
  have hsuits : i.opcode ∈ [.alloc, .oframe, .cframe, .st, .sta] :=
    plan_suits m index i m.stack _ stack hp
  obtain ⟨op, operand⟩ := i
  simp only [List.mem_cons, List.not_mem_nil, or_false] at hsuits
  rcases hsuits with rfl | rfl | rfl | rfl | rfl
  · -- alloc
    obtain ⟨count, r, _, hp⟩ := bind_eq_ok.mp hp
    obtain ⟨_, _, _, hp⟩ := bind_eq_ok.mp hp
    obtain ⟨fs, _, ha, hp⟩ := bind_eq_ok.mp hp
    cases hp
    exact remembers_of_alloc ⟨index, _, hc, rfl⟩ (access_eq_ok.mp ha).1
  · -- oframe
    obtain ⟨count, r, _, hp⟩ := bind_eq_ok.mp hp
    obtain ⟨_, _, _, hp⟩ := bind_eq_ok.mp hp
    cases hp
    exact .entered _
  · -- cframe
    cases hp
    exact .left
  · -- st
    obtain ⟨frame, r, hf, hp⟩ := bind_eq_ok.mp hp
    obtain ⟨location, _, _, hp⟩ := bind_eq_ok.mp hp
    obtain ⟨v, _, _, hp⟩ := bind_eq_ok.mp hp
    obtain ⟨fs, _, hw, hp⟩ := bind_eq_ok.mp hp
    cases hp
    obtain ⟨hpos, f, rfl⟩ := FrameStack.eq_set_of_write (access_eq_ok.mp hw).1
    exact .stored f ⟨index, _, r, hc, by simp, hf⟩ hpos
  · -- sta
    obtain ⟨frame, r, hf, hp⟩ := bind_eq_ok.mp hp
    obtain ⟨location, _, _, hp⟩ := bind_eq_ok.mp hp
    obtain ⟨count, _, _, hp⟩ := bind_eq_ok.mp hp
    obtain ⟨_, _, _, hp⟩ := bind_eq_ok.mp hp
    obtain ⟨_, _, _, hp⟩ := bind_eq_ok.mp hp
    obtain ⟨vs, _, _, hp⟩ := bind_eq_ok.mp hp
    obtain ⟨fs, _, hw, hp⟩ := bind_eq_ok.mp hp
    cases hp
    obtain ⟨hpos, f, rfl⟩ := FrameStack.eq_set_of_writeRange (access_eq_ok.mp hw).1
    exact .stored f ⟨index, _, r, hc, by simp, hf⟩ hpos

/-- All that a step can do to memory. -/
theorem step_remembers {m m' : Machine} (h : m.step = some (.ok (), m')) : Remembers m m'.frames := by
  cases step_eq_some_iff.mp h with
  | @done index i effect stack m' _ hc hp hm =>
    cases effect with
    | store frames =>
      cases hm
      exact remembers_of_store hc hp
    | call target arguments =>
      cases hm
      exact .entered _
    | print texts =>
      cases hm
      rw [say_eq]
      exact .kept
    | awaitKey =>
      cases awaited_of_awaitKeyWithin hm with
      | key | interrupted => exact .kept
    | next | jump | ret | halt | paint | roll =>
      cases hm
      exact .kept

/-- One step of the isolation: outer frames stay in place under the conditions on stores and
allocations, unless one of them is closed. -/
theorem Remembers.suffix {m : Machine} {outer frames : FrameStack} (h : Remembers m frames)
    (hs : outer <:+ m.frames) (hdeep : outer.length ≤ frames.length)
    (hstores : ∀ frame, m.StoresInto frame → frame < m.frames.length - outer.length)
    (halloc : m.IsAt .alloc → outer.length < m.frames.length) : outer <:+ frames := by
  cases h with
  | kept => exact hs
  | entered f => exact hs.trans (List.suffix_cons f m.frames)
  | left =>
    -- Enough frames are left, so the one that was closed is not an outer one.
    exact List.suffix_of_suffix_length_le hs (List.drop_suffix 1 m.frames) hdeep
  | @grown f rest count hat hf =>
    have hless : outer.length < rest.length + 1 := by simpa [hf] using halloc hat
    have hrest : rest <:+ m.frames := hf ▸ List.suffix_cons f rest
    have houter : outer <:+ rest := List.suffix_of_suffix_length_le hs hrest (by omega)
    exact houter.trans (List.suffix_cons _ rest)
  | @stored frame f hstore hpos =>
    obtain ⟨inner, hinner⟩ := hs
    have hlength : m.frames.length = inner.length + outer.length := by
      rw [← hinner, List.length_append]
    have hframe : frame.toNat < inner.length := by
      have := hstores frame hstore
      omega
    rw [← hinner, List.set_append_left _ _ hframe]
    exact List.suffix_append _ outer

/-- Callers' memory is isolated. While at least as many frames are open as at the start, stores reach
only into frames opened since, and so do allocations, the frames of the start stay as they are,
whatever else is executed. -/
theorem outer_frames_unchanged {s t : Machine} {k : Nat} (h : s.advance k = some t)
    (hdeep : ∀ j ≤ k, ∀ b, s.advance j = some b → s.frames.length ≤ b.frames.length)
    (hstores : ∀ j < k, ∀ b frame, s.advance j = some b → b.StoresInto frame →
      frame < b.frames.length - s.frames.length)
    (halloc : ∀ j < k, ∀ b, s.advance j = some b → b.IsAt .alloc →
      s.frames.length < b.frames.length) :
    ∀ j ≤ k, ∃ b, s.advance j = some b ∧
      b.frames.drop (b.frames.length - s.frames.length) = s.frames := by
  -- At every boundary the frames of the start are the last ones of the list.
  have hsuffix : ∀ j ≤ k, ∀ b, s.advance j = some b → s.frames <:+ b.frames := by
    intro j
    induction j with
    | zero =>
      intro _ b hb
      cases hb
      exact List.suffix_refl _
    | succ j ih =>
      intro hj b hb
      obtain ⟨a, ha, hstep⟩ := advance_succ_eq_some.mp hb
      have hbefore : s.frames <:+ a.frames := ih (by omega) a ha
      exact (step_remembers hstep).suffix hbefore (hdeep (j + 1) hj b hb)
        (fun frame => hstores j (by omega) a frame ha) (halloc j (by omega) a ha)
  intro j hj
  obtain ⟨b, hb⟩ := exists_advance_of_le h hj
  exact ⟨b, hb, (List.suffix_iff_eq_drop.mp (hsuffix j hj b hb)).symm⟩

/-- A machine in a function that opens a frame, makes it larger, stores a value into it and closes it
again. -/
def borrowing : Machine :=
  { build .headless {} with
    program := ⟨#[⟨.oframe, none⟩, ⟨.alloc, none⟩, ⟨.st, none⟩, ⟨.cframe, none⟩], .empty⟩
    stack := [.number 1.0, .number 1.0, .number 0.0, .number 1.0, .array []]
    frames := [[some (.number 7.0)], []]
    halted := false }

theorem borrowing_leaves_outer_frames :
    ∃ b t, borrowing.advance 3 = some b ∧ borrowing.advance 4 = some t ∧
      b.frames = [[none, some (.array [])], [some (.number 7.0)], []] ∧
      b.frames.drop (b.frames.length - borrowing.frames.length) = borrowing.frames ∧
      t.frames.drop (t.frames.length - borrowing.frames.length) = borrowing.frames := by
  have hrun : ∃ b₁ b₂ b₃ b₄, borrowing.advance 1 = some b₁ ∧ borrowing.advance 2 = some b₂ ∧
      borrowing.advance 3 = some b₃ ∧ borrowing.advance 4 = some b₄ ∧
      b₁.frames.length = 3 ∧ b₂.frames.length = 3 ∧ b₄.frames.length = 2 ∧
      b₃.frames = [[none, some (.array [])], [some (.number 7.0)], []] ∧
      b₁.current = .ok (1, ⟨.alloc, none⟩) ∧ b₂.current = .ok (2, ⟨.st, none⟩) ∧
      b₃.current = .ok (3, ⟨.cframe, none⟩) ∧
      popInteger .st .frameIndex b₂.stack = .ok (0, [.number 1.0, .array []]) :=
    ⟨_, _, _, _, rfl, rfl, rfl, rfl, rfl, rfl, rfl, rfl, rfl, rfl, rfl, rfl⟩
  obtain ⟨b₁, b₂, b₃, b₄, h₁, h₂, h₃, h₄, hl₁, hl₂, hl₄, hframes, hc₁, hc₂, hc₃, hpop⟩ := hrun
  have hc₀ : borrowing.current = .ok (0, ⟨.oframe, none⟩) := rfl
  -- What the theorem asks for at each boundary before the last.
  have hwithin : ∀ j < 4, ∀ b, borrowing.advance j = some b → 2 ≤ b.frames.length ∧
      (∀ frame, b.StoresInto frame → frame < b.frames.length - (2 : Nat)) ∧
      (b.IsAt .alloc → 2 < b.frames.length) := by
    intro j hj b hb
    match j with
    | 0 =>
      cases hb
      exact ⟨Nat.le_refl 2, by simp [storesInto_iff hc₀], by simp [isAt_iff hc₀]⟩
    | 1 =>
      cases h₁.symm.trans hb
      exact ⟨by omega, by simp [storesInto_iff hc₁], fun _ => by omega⟩
    | 2 =>
      cases h₂.symm.trans hb
      refine ⟨by omega, fun frame hstore => ?_, by simp [isAt_iff hc₂]⟩
      obtain ⟨_, rest, hframe⟩ := (storesInto_iff hc₂).mp hstore
      cases hpop.symm.trans hframe
      omega
    | 3 =>
      cases h₃.symm.trans hb
      exact ⟨by simp [hframes], by simp [storesInto_iff hc₃], by simp [isAt_iff hc₃]⟩
  have hdeep : ∀ j ≤ 4, ∀ b, borrowing.advance j = some b → 2 ≤ b.frames.length := by
    intro j hj b hb
    rcases Nat.lt_or_eq_of_le hj with hless | rfl
    · exact (hwithin j hless b hb).1
    · cases h₄.symm.trans hb
      omega
  have hstores : ∀ j < 4, ∀ b frame, borrowing.advance j = some b → b.StoresInto frame →
      frame < b.frames.length - (2 : Nat) :=
    fun j hj b frame hb => (hwithin j hj b hb).2.1 frame
  have halloc : ∀ j < 4, ∀ b, borrowing.advance j = some b → b.IsAt .alloc → 2 < b.frames.length :=
    fun j hj b hb => (hwithin j hj b hb).2.2
  have houter := outer_frames_unchanged h₄ hdeep hstores halloc
  obtain ⟨b, hb, hinside⟩ := houter 3 (by decide)
  obtain ⟨t, ht, hafter⟩ := houter 4 (by decide)
  cases h₃.symm.trans hb
  exact ⟨b₃, t, hb, ht, hframes, hinside, hafter⟩

end Machine

end PixelMachine
