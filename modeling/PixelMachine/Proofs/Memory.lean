import PixelMachine.Proofs.Addressing

/-! What is in memory: every access that succeeds reads from the slots of a frame that is there, and
writes nothing but the values it is given. -/
namespace PixelMachine

/-- All values in the slots of memory satisfy a condition. -/
def FrameStack.Holds (A : Value → Prop) (fs : FrameStack) : Prop := ∀ f ∈ fs, ∀ v, some v ∈ f → A v

namespace FrameStack

variable {A : Value → Prop} {fs fs' : FrameStack}

theorem holds_initial : initial.Holds A := by
  intro f hf v hv
  rw [List.mem_singleton.mp hf] at hv
  cases hv

theorem Holds.read (h : fs.Holds A) {offset frame : Int} {v : Value}
    (hr : fs.read offset frame = .ok v) : A v := by
  obtain ⟨f, hf, _, hslot⟩ := read_eq_ok_iff.mp hr
  exact h f hf.mem v (List.mem_of_getElem? hslot)

/-- Putting good values into one frame keeps memory good. -/
theorem Holds.set (h : fs.Holds A) {i : Nat} {f : Frame} (hf : ∀ v, some v ∈ f → A v) :
    FrameStack.Holds A (fs.set i f) := by
  intro g hg v hv
  rcases List.mem_or_eq_of_mem_set hg with hg | rfl
  · exact h g hg v hv
  · exact hf v hv

theorem Holds.write (h : fs.Holds A) {offset frame : Int} {v : Value} (hv : A v)
    (hw : fs.write offset frame v = .ok fs') : fs'.Holds A := by
  obtain ⟨f, hf, _, rfl⟩ := write_eq_ok_iff.mp hw
  refine h.set fun w hw => ?_
  rcases List.mem_or_eq_of_mem_set hw with hw | hw
  · exact h f hf.mem w hw
  · cases hw
    exact hv

/-- Writing a cell replaces one frame, the one that is addressed. -/
theorem eq_set_of_write {offset frame : Int} {v : Value} (h : fs.write offset frame v = .ok fs') :
    0 ≤ frame ∧ ∃ f, fs' = fs.set frame.toNat f := by
  obtain ⟨f, hf, _, hfs⟩ := write_eq_ok_iff.mp h
  exact ⟨hf.1, _, hfs⟩

/-- So does writing a row of cells. -/
theorem eq_set_of_writeRange {offset frame : Int} {vs : List Value}
    (h : fs.writeRange offset frame vs = .ok fs') : 0 ≤ frame ∧ ∃ f, fs' = fs.set frame.toNat f := by
  obtain ⟨f, hf, _, hfs⟩ := writeRange_eq_ok_iff.mp h
  exact ⟨hf.1, _, hfs⟩

theorem Holds.readRange (h : fs.Holds A) {offset frame : Int} {count : Nat} {vs : List Value}
    (hr : fs.readRange offset frame count = .ok vs) : ∀ v ∈ vs, A v := by
  obtain ⟨f, hf, _, hslots⟩ := readRange_eq_ok_iff.mp hr
  intro v hv
  have hslot : some v ∈ (f.drop offset.toNat).take count := hslots ▸ List.mem_map_of_mem hv
  exact h f hf.mem v (List.mem_of_mem_drop (List.mem_of_mem_take hslot))

theorem Holds.writeRange (h : fs.Holds A) {offset frame : Int} {vs : List Value}
    (hvs : ∀ v ∈ vs, A v) (hw : fs.writeRange offset frame vs = .ok fs') : fs'.Holds A := by
  obtain ⟨f, hf, _, rfl⟩ := writeRange_eq_ok_iff.mp hw
  refine h.set fun v hv => ?_
  -- The frame is what was before the range, the new values, and what was after it.
  simp only [storeAt, List.append_assoc, List.mem_append, List.mem_map] at hv
  rcases hv with hv | ⟨w, hw, hv⟩ | hv
  · exact h f hf.mem v (List.mem_of_mem_take hv)
  · cases hv
    exact hvs v hw
  · exact h f hf.mem v (List.mem_of_mem_drop hv)

theorem Holds.alloc (h : fs.Holds A) {count : Nat} (ha : fs.alloc count = .ok fs') :
    fs'.Holds A := by
  rcases fs with _ | ⟨f, rest⟩
  · cases ha
  · cases ha
    intro g hg v hv
    rcases List.mem_cons.mp hg with rfl | hg
    · rcases List.mem_append.mp hv with hv | hv
      · exact h f List.mem_cons_self v hv
      · cases List.eq_of_mem_replicate hv
    · exact h g (List.mem_cons_of_mem f hg) v hv

theorem Holds.enter (h : fs.Holds A) {f : Frame} (hf : ∀ v, some v ∈ f → A v) :
    (fs.enter f).Holds A := by
  intro g hg v hv
  rcases List.mem_cons.mp hg with rfl | hg
  · exact hf v hv
  · exact h g hg v hv

theorem Holds.leave (h : fs.Holds A) : fs.leave.Holds A :=
  fun f hf => h f (List.mem_of_mem_drop hf)

end FrameStack

end PixelMachine
