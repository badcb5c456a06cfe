import PixelMachine.Trace

/-! How the statistics of a run change when an instruction is tried again. -/
namespace PixelMachine

namespace Table

variable {κ ν : Type} [Ord κ] [Std.TransOrd κ] [Std.LawfulEqOrd κ]

/-- The value of a key that was just set. -/
theorem find?_insert_self (t : Table κ ν) (k : κ) (v : ν) : (t.insert k v).find? k = some v := by
  have hentry (es : List (κ × ν)) :
      (insertEntry k v es).find? (fun e => compare k e.1 == .eq) = some (k, v) := by
    induction es with
    | nil => simp [insertEntry]
    | cons e es ih =>
      simp only [insertEntry]
      split
      · simp
      · simp
      · next hgt => simp [hgt, ih]
  simp only [find?, insert, hentry, Option.map_some]

/-- Other keys keep their values. -/
theorem find?_insert_of_ne (t : Table κ ν) {k k' : κ} (v : ν) (h : k' ≠ k) :
    (t.insert k v).find? k' = t.find? k' := by
  have hne : (compare k' k == .eq) = false := by
    simpa using h
  have hentry (es : List (κ × ν)) :
      (insertEntry k v es).find? (fun e => compare k' e.1 == .eq) =
        es.find? (fun e => compare k' e.1 == .eq) := by
    induction es with
    | nil => simp [insertEntry, hne]
    | cons e es ih =>
      simp only [insertEntry]
      split
      · rw [List.find?_cons, hne]
      · -- The entry that is replaced has the key that is set, not the one looked up.
        next heq =>
        have hk : k = e.1 := Std.LawfulEqOrd.eq_of_compare heq
        rw [List.find?_cons, List.find?_cons, ← hk, hne]
      · rw [List.find?_cons, List.find?_cons, ih]
  simp only [find?, insert, hentry]

end Table

/-- An index is in the set only once. -/
theorem IndexSet.insert_insert (s : IndexSet) (n : Nat) : (s.insert n).insert n = s.insert n := by
  have hmember (ms : List Nat) : insertMember n (insertMember n ms) = insertMember n ms := by
    induction ms with
    | nil => simp [insertMember]
    | cons m ms ih =>
      by_cases hlt : n < m
      · simp [insertMember, hlt]
      · by_cases heq : n = m
        · simp [insertMember, heq]
        · simp [insertMember, hlt, heq, ih]
  simp only [insert, hmember]

namespace Trace

/-- The second run counts `extra` more executions of `getchar` than the first, and nothing else is
different. -/
structure Extends (extra : Nat) (t t' : Trace) : Prop where
  instructions : t'.instructions = t.instructions + extra
  getchars : (t'.opcodeCounts.find? .getchar).getD 0 = (t.opcodeCounts.find? .getchar).getD 0 + extra
  others : ∀ op, op ≠ .getchar → t'.opcodeCounts.find? op = t.opcodeCounts.find? op
  coverage : t'.coverage = t.coverage
  maxWorkStack : t'.maxWorkStack = t.maxWorkStack
  maxFrameDepth : t'.maxFrameDepth = t.maxFrameDepth
  maxCallDepth : t'.maxCallDepth = t.maxCallDepth

theorem Extends.refl (t : Trace) : Extends 0 t t := ⟨rfl, rfl, fun _ _ => rfl, rfl, rfl, rfl, rfl⟩

variable {extra : Nat} {t t' : Trace}

theorem Extends.record (h : Extends extra t t') (index : Nat) (op : Opcode) :
    Extends extra (t.record index op) (t'.record index op) where
  instructions := by
    simp only [Trace.record, h.instructions]
    omega
  getchars := by
    by_cases hop : Opcode.getchar = op
    · subst hop
      simp only [Trace.record, Table.find?_insert_self, h.getchars, Option.getD_some]
      omega
    · simp only [Trace.record, Table.find?_insert_of_ne _ _ hop, h.getchars]
  others := by
    intro o ho
    by_cases hop : o = op
    · subst hop
      simp only [Trace.record, Table.find?_insert_self, h.others o ho]
    · simp only [Trace.record, Table.find?_insert_of_ne _ _ hop, h.others o ho]
  coverage := by simp only [Trace.record, h.coverage]
  maxWorkStack := h.maxWorkStack
  maxFrameDepth := h.maxFrameDepth
  maxCallDepth := h.maxCallDepth

theorem Extends.recordDepths (h : Extends extra t t') (workStack frames calls : Nat) :
    Extends extra (t.recordDepths workStack frames calls)
      (t'.recordDepths workStack frames calls) where
  instructions := h.instructions
  getchars := h.getchars
  others := h.others
  coverage := h.coverage
  maxWorkStack := by simp only [Trace.recordDepths, h.maxWorkStack]
  maxFrameDepth := by simp only [Trace.recordDepths, h.maxFrameDepth]
  maxCallDepth := by simp only [Trace.recordDepths, h.maxCallDepth]

/-- The statistics of a run that came to an instruction, but has not counted it. -/
def visit (t : Trace) (index workStack frames calls : Nat) : Trace :=
  { t with coverage := t.coverage.insert index }.recordDepths workStack frames calls

theorem visit_visit (t : Trace) (index workStack frames calls : Nat) :
    (t.visit index workStack frames calls).visit index workStack frames calls =
      t.visit index workStack frames calls := by
  simp only [visit, recordDepths, IndexSet.insert_insert, Nat.max_assoc, Nat.max_self]

/-- To have come to an instruction before makes no difference once it is executed and the stack is
not shallower than it was. -/
theorem record_visit (t : Trace) (index : Nat) (op : Opcode) {workStack workStack' : Nat}
    (h : workStack ≤ workStack') (frames calls : Nat) :
    ((t.visit index workStack frames calls).record index op).recordDepths workStack' frames calls =
      (t.record index op).recordDepths workStack' frames calls := by
  simp only [visit, record, recordDepths, IndexSet.insert_insert, Nat.max_assoc, Nat.max_self,
    Nat.max_eq_right h]

/-- An execution of `getchar` that brings nothing is one more, at a place come to. -/
theorem Extends.visit (h : Extends extra t t') (index workStack frames calls : Nat) :
    Extends (extra + 1) (t.visit index workStack frames calls)
      ((t'.record index .getchar).recordDepths workStack frames calls) where
  instructions := by
    simp only [Trace.visit, Trace.record, Trace.recordDepths, h.instructions]
    omega
  getchars := by
    simp only [Trace.visit, Trace.record, Trace.recordDepths, Table.find?_insert_self, h.getchars,
      Option.getD_some]
    omega
  others := by
    intro op hop
    simp only [Trace.visit, Trace.record, Trace.recordDepths, Table.find?_insert_of_ne _ _ hop,
      h.others op hop]
  coverage := by simp only [Trace.visit, Trace.record, Trace.recordDepths, h.coverage]
  maxWorkStack := by simp only [Trace.visit, Trace.record, Trace.recordDepths, h.maxWorkStack]
  maxFrameDepth := by simp only [Trace.visit, Trace.record, Trace.recordDepths, h.maxFrameDepth]
  maxCallDepth := by simp only [Trace.visit, Trace.record, Trace.recordDepths, h.maxCallDepth]

end Trace

end PixelMachine
