import PixelMachine.Program.Basic
import PixelMachine.Proofs.OperandGrammar

/-! What program text makes of instructions: each has the operand it needs, and none is an array. -/
namespace PixelMachine

/-- An instruction that has the operand it needs. -/
structure Instruction.Regular (i : Instruction) : Prop where
  push : i.opcode = .push → i.operand ≠ none
  pusha : i.opcode = .pusha → ∃ offset frame, i.operand = some (.label offset frame)

/-- No operand of program text is an array. -/
theorem readOperand_kind {text : List Char} {v : Value} (h : readOperand text = .ok v) :
    v.kind ≠ .array := by
  obtain ⟨form, hwrites, _⟩ := OperandForm.readOperand_eq_ok_iff.mp h
  cases hwrites <;> nofun

/-- What program text makes of an instruction: it has the operand it needs, and no array. -/
structure Instruction.Written (i : Instruction) : Prop extends i.Regular where
  noArray : ∀ v, i.operand = some v → v.kind ≠ .array

theorem Instruction.written_of_withOperand {op : Opcode} {text : List Char} {i : Instruction}
    (h : withOperand op text = .ok i) : i.Written := by
  unfold withOperand at h
  split at h
  · cases h
    refine ⟨⟨nofun, fun _ => ⟨_, _, rfl⟩⟩, fun v hv => ?_⟩
    cases hv
    nofun
  · cases h
  · next v hne hr =>
    cases h
    refine ⟨⟨nofun, fun hop => absurd hop hne⟩, fun w hw => ?_⟩
    cases hw
    exact readOperand_kind hr
  · cases h

theorem Instruction.written_of_ofLine {line : String} {i : Instruction} (h : ofLine line = .ok i) :
    i.Written := by
  unfold ofLine at h
  split at h
  · cases h
  · split at h
    · cases h
    · next op _ =>
      split at h
      · split at h
        · cases h
        · exact written_of_withOperand h
        · cases h
      · next htakes =>
        -- An instruction without an operand is neither `push` nor `pusha`.
        split at h
        · cases h
          refine ⟨⟨fun hop => ?_, fun hop => ?_⟩, nofun⟩
          · cases hop
            exact absurd rfl htakes
          · cases hop
            exact absurd rfl htakes
        · cases h

namespace Program

theorem written_of_decodeLines {done : Nat} {lines : List String} {is : List Instruction}
    (h : decodeLines done lines = .ok is) : ∀ i ∈ is, i.Written := by
  induction lines generalizing done is with
  | nil =>
    cases h
    nofun
  | cons line lines ih =>
    unfold decodeLines at h
    split at h
    · cases h
    · next i hi =>
      split at h
      · cases h
      · next rest hrest =>
        cases h
        exact List.forall_mem_cons.mpr ⟨Instruction.written_of_ofLine hi, ih hrest⟩

theorem written_of_ofLines {lines : List String} {functions : List (String × UInt64)} {p : Program}
    (h : ofLines lines functions = .ok p) : ∀ i ∈ p.instructions, i.Written := by
  unfold ofLines at h
  split at h
  · cases h
  · next is his =>
    split at h
    · cases h
    · cases h
      intro i hi
      exact written_of_decodeLines his i (List.mem_toArray.mp hi)

end Program

end PixelMachine
