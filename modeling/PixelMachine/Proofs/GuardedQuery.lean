import PixelMachine.Machine.Query
import PixelMachine.Proofs.Guards

/-! Queries answered with guards: the bounds that an index is compared with are worked out on machine
words, and every access that follows has to be in range. No guard fails, whatever text is asked. -/
namespace PixelMachine

namespace Guarded

open Checked

/-- An index below a bound, with guards. -/
def bounded (subject : Subject) (index : Int64) (bound : Nat) : Checked Fault Nat :=
  if index.toInt < 0 ∨ bound ≤ unsigned index.toInt then do
    let max ← within (subInt (signed bound) 1)
    throw (.queryOutOfRange subject index.toInt max)
  else pure (unsigned index.toInt)

/-- The answer to a question about a stack, with guards. -/
def answerStack (subject : Subject) (texts : List String) : StackView → Checked Fault String
  | .all => pure (Query.listText texts)
  | .length => pure texts.length.repr
  | .item index => do
    let i ← bounded subject index texts.length
    within texts[i]?
  | .slice first last => do
    let ends ← within (addNat texts.length 1)
    let last ← bounded subject last ends
    let starts ← within (addNat last 1)
    let first ← bounded subject first starts
    let shown ← within (slice texts first last)
    pure (Query.listText shown)

/-- The answer to a query, with guards. -/
def answer (m : Machine) : Query → Checked Fault String
  | .counter => pure m.counter.repr
  | .workStack view => answerStack .workStack (m.stack.reverse.map Value.text) view
  | .returnStack view => answerStack .returnStack (m.returns.reverse.map Nat.repr) view
  | .cell offset index => do
    let i ← bounded .frame index m.frames.length
    let f ← within m.frames[i]?
    let k ← bounded .location offset f.length
    let slot ← within f[k]?
    pure (Value.slotText slot)
  | .frame index => do
    let i ← bounded .frame index m.frames.length
    let f ← within m.frames[i]?
    pure (Frame.text f)
  | .frameLength index => do
    let i ← bounded .frame index m.frames.length
    let f ← within m.frames[i]?
    pure f.length.repr
  | .frames => pure ("\n".intercalate (Query.frameLines m.frames))
  | .frameCount => pure m.frames.length.repr

/-- Answers a query text, with guards. -/
def query (m : Machine) (text : String) : Checked Fault String :=
  match Query.read? (trimBlanks text.toList) with
  | some q => answer m q
  | none => throw (.malformedQuery (String.ofList (trimBlanks text.toList)))

/-- Signed words count the places at which a slice of a stack may begin and end, of which there is one
more than there are values, and the slots of memory. As bytes are counted by signed words too and a value
takes several of them, no stack is longer. -/
structure Countable (m : Machine) : Prop where
  values : m.stack.length + 1 < 9223372036854775808
  addresses : m.returns.length + 1 < 9223372036854775808
  memory : Small m.frames

theorem bounded_eq {bound : Nat} (h : bound < 9223372036854775808) (subject : Subject)
    (index : Int64) : bounded subject index bound = safe (Query.bounded subject index bound) := by
  unfold bounded Query.bounded
  rw [lastIndex_of_lt h]
  by_cases hneg : index.toInt < 0
  · rw [if_pos (.inl hneg), if_neg (by omega)]
    rfl
  · rw [unsigned_of_nonneg (by omega)]
    by_cases hlt : index.toInt < bound
    · rw [if_neg (by omega), if_pos ⟨by omega, hlt⟩]
      rfl
    · rw [if_pos (.inr (by omega)), if_neg (by omega)]
      rfl

theorem lt_of_bounded {subject : Subject} {index : Int64} {bound i : Nat}
    (h : Query.bounded subject index bound = .ok i) : i < bound := by
  unfold Query.bounded at h
  split at h
  · next hwithin =>
    cases h
    omega
  · cases h

theorem getElem?_of_bounded {α : Type} {xs : List α} {subject : Subject} {index : Int64} {i : Nat}
    (h : Query.bounded subject index xs.length = .ok i) (d : α) : xs[i]? = some (xs.getD i d) := by
  have hlt := lt_of_bounded h
  rw [List.getD_eq_getElem?_getD, List.getElem?_eq_getElem hlt]
  rfl

theorem answerStack_eq {texts : List String} (h : texts.length + 1 < 9223372036854775808)
    (subject : Subject) (view : StackView) :
    answerStack subject texts view = safe (Query.answerStack subject texts view) := by
  cases view with
  | all | length => rfl
  | item index =>
    refine safe_bind (bounded_eq (by omega) subject index) fun i hi => ?_
    rw [getElem?_of_bounded hi ""]
    rfl
  | slice first last =>
    unfold answerStack
    dsimp only
    rw [addNat_of_fits (by omega), within_some_bind]
    refine safe_bind (bounded_eq h subject last) fun last hlast => ?_
    have hle := lt_of_bounded hlast
    rw [addNat_of_fits (by omega), within_some_bind]
    refine safe_bind (bounded_eq (by omega) subject first) fun first hfirst => ?_
    have hstart := lt_of_bounded hfirst
    have hslice : slice texts first last = some ((texts.take last).drop first) :=
      if_pos ⟨by omega, by omega⟩
    rw [hslice, within_some_bind]
    rfl

theorem answer_eq {m : Machine} (h : Countable m) (q : Query) : answer m q = safe (q.answer m) := by
  have hframe (index : Int64) := bounded_eq h.memory.frames .frame index
  cases q with
  | counter | frames | frameCount => rfl
  | workStack view =>
    refine answerStack_eq ?_ _ view
    rw [List.length_map, List.length_reverse]
    exact h.values
  | returnStack view =>
    refine answerStack_eq ?_ _ view
    rw [List.length_map, List.length_reverse]
    exact h.addresses
  | frame index | frameLength index =>
    refine safe_bind (hframe index) fun i hi => ?_
    rw [getElem?_of_bounded hi [], within_some_bind]
    rfl
  | cell offset index =>
    refine safe_bind (hframe index) fun i hi => ?_
    have hget := getElem?_of_bounded hi []
    have hsmall := h.memory.slots _ (List.mem_of_getElem? hget)
    rw [hget, within_some_bind]
    refine safe_bind (bounded_eq hsmall .location offset) fun k hk => ?_
    rw [getElem?_of_bounded hk none, within_some_bind]
    rfl

theorem query_eq {m : Machine} (h : Countable m) (text : String) :
    query m text = safe (m.query text) := by
  unfold query Machine.query
  dsimp only
  rcases Query.read? (trimBlanks text.toList) with _ | q
  · rfl
  · exact answer_eq h q

end Guarded

end PixelMachine
