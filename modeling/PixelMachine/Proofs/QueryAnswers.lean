import PixelMachine.Machine.RunControl
import PixelMachine.Proofs.Addressing
import PixelMachine.Proofs.QueryGrammar

/-! What queries answer: which indices are in range, what is shown there, and that a query for a cell
sees the memory that instructions see. -/
namespace PixelMachine

/-- The indices of a view are those of a stack of so many values. -/
def StackView.InRange (count : Nat) : StackView → Prop
  | .all | .length => True
  | .item i => 0 ≤ i.toInt ∧ i.toInt < count
  | .slice first last => 0 ≤ first.toInt ∧ first.toInt ≤ last.toInt ∧ last.toInt ≤ count

/-- What a view shows of a stack, whose texts have the bottom first. A slice has the items from its
first index up to the one before its last. -/
def StackView.shown (texts : List String) : StackView → String
  | .all => Query.listText texts
  | .length => texts.length.repr
  | .item i => texts.getD i.toInt.toNat ""
  | .slice first last => Query.listText <|
    (List.range' first.toInt.toNat (last.toInt - first.toInt).toNat).map fun i => texts.getD i ""

namespace Query

/-- The indices of a query are those of the stacks, frames and slots of a machine. -/
def InRange (m : Machine) : Query → Prop
  | .counter | .frames | .frameCount => True
  | .workStack view => view.InRange m.stack.length
  | .returnStack view => view.InRange m.returns.length
  | .frame index | .frameLength index => 0 ≤ index.toInt ∧ index.toInt < m.frames.length
  | .cell offset index => (0 ≤ index.toInt ∧ index.toInt < m.frames.length) ∧
    0 ≤ offset.toInt ∧ offset.toInt < (m.frames.getD index.toInt.toNat []).length

/-- What a query shows of a machine. -/
def shown (m : Machine) : Query → String
  | .counter => m.counter.repr
  | .workStack view => view.shown (m.stack.reverse.map Value.text)
  | .returnStack view => view.shown (m.returns.reverse.map Nat.repr)
  | .cell offset index =>
    Value.slotText ((m.frames.getD index.toInt.toNat []).getD offset.toInt.toNat none)
  | .frame index => Frame.text (m.frames.getD index.toInt.toNat [])
  | .frameLength index => (m.frames.getD index.toInt.toNat []).length.repr
  | .frames => "\n".intercalate (frameLines m.frames)
  | .frameCount => m.frames.length.repr

/-- An answer that finds an index outside of the range which it gives. -/
def OutOfRange (answer : Except Fault String) : Prop :=
  ∃ subject index max, answer = .error (.queryOutOfRange subject index max) ∧
    (index < 0 ∨ max < index)

variable {subject : Subject} {index : Int64} {bound : Nat}

theorem bounded_of_inside (h : 0 ≤ index.toInt ∧ index.toInt < bound) :
    bounded subject index bound = .ok index.toInt.toNat :=
  if_pos h

theorem bounded_of_outside (h : ¬ (0 ≤ index.toInt ∧ index.toInt < bound)) :
    bounded subject index bound = .error (.queryOutOfRange subject index.toInt ((bound : Int) - 1)) :=
  if_neg h

theorem outOfRange_bounded (h : ¬ (0 ≤ index.toInt ∧ index.toInt < bound))
    (f : Nat → Except Fault String) : OutOfRange (bounded subject index bound >>= f) := by
  refine ⟨subject, index.toInt, (bound : Int) - 1, ?_, by omega⟩
  rw [bounded_of_outside h]
  rfl

/-- Items between two indices, one after another. -/
theorem map_getD_range' {α : Type} {xs : List α} {first last : Nat} (hlast : last ≤ xs.length)
    (d : α) : (List.range' first (last - first)).map (fun i => xs.getD i d)
      = (xs.take last).drop first := by
  apply List.ext_getElem
  · simp only [List.length_map, List.length_range', List.length_drop, List.length_take]
    omega
  · intro i hi _
    simp only [List.length_map, List.length_range'] at hi
    simp only [List.getElem_map, List.getElem_range', List.getElem_drop, List.getElem_take,
      Nat.one_mul]
    have hlt : first + i < xs.length := by omega
    rw [List.getD_eq_getElem?_getD, List.getElem?_eq_getElem hlt, Option.getD_some]

theorem answerStack_of_inRange {texts : List String} {view : StackView}
    (h : view.InRange texts.length) : answerStack subject texts view = .ok (view.shown texts) := by
  cases view with
  | all | length => rfl
  | item i =>
    rw [answerStack, bounded_of_inside h]
    rfl
  | slice first last =>
    obtain ⟨hfirst, hle, hlast⟩ := h
    -- The end is held against the length, and then the start against the end.
    have hend : bounded subject last (texts.length + 1) = .ok last.toInt.toNat :=
      bounded_of_inside ⟨by omega, by omega⟩
    have hstart : bounded subject first (last.toInt.toNat + 1) = .ok first.toInt.toNat :=
      bounded_of_inside ⟨hfirst, by omega⟩
    have hcount : (last.toInt - first.toInt).toNat = last.toInt.toNat - first.toInt.toNat := by omega
    have hitems := @map_getD_range' String texts first.toInt.toNat last.toInt.toNat (by omega) ""
    rw [answerStack, hend]
    change bounded subject first (last.toInt.toNat + 1) >>= _ = _
    rw [hstart, StackView.shown, hcount, hitems]
    rfl

theorem answerStack_of_not_inRange {texts : List String} {view : StackView}
    (h : ¬ view.InRange texts.length) : OutOfRange (answerStack subject texts view) := by
  cases view with
  | all | length => exact absurd trivial h
  | item i => exact outOfRange_bounded h _
  | slice first last =>
    by_cases hlast : 0 ≤ last.toInt ∧ last.toInt < (texts.length + 1 : Nat)
    · rw [answerStack, bounded_of_inside hlast]
      refine outOfRange_bounded (fun hfirst => h ⟨hfirst.1, ?_, ?_⟩) _
      · omega
      · omega
    · exact outOfRange_bounded hlast _

theorem answer_of_inRange {m : Machine} {q : Query} (h : q.InRange m) :
    q.answer m = .ok (q.shown m) := by
  cases q with
  | counter | frames | frameCount => rfl
  | workStack view =>
    refine answerStack_of_inRange ?_
    rw [List.length_map, List.length_reverse]
    exact h
  | returnStack view =>
    refine answerStack_of_inRange ?_
    rw [List.length_map, List.length_reverse]
    exact h
  | frame index | frameLength index =>
    rw [answer, bounded_of_inside h]
    rfl
  | cell offset index =>
    rw [answer, bounded_of_inside h.1]
    change bounded .location offset _ >>= _ = _
    rw [bounded_of_inside h.2]
    rfl

theorem answer_of_not_inRange {m : Machine} {q : Query} (h : ¬ q.InRange m) :
    OutOfRange (q.answer m) := by
  cases q with
  | counter | frames | frameCount => exact absurd trivial h
  | workStack view =>
    refine answerStack_of_not_inRange ?_
    rw [List.length_map, List.length_reverse]
    exact h
  | returnStack view =>
    refine answerStack_of_not_inRange ?_
    rw [List.length_map, List.length_reverse]
    exact h
  | frame index | frameLength index => exact outOfRange_bounded h _
  | cell offset index =>
    by_cases hindex : 0 ≤ index.toInt ∧ index.toInt < m.frames.length
    · rw [answer, bounded_of_inside hindex]
      exact outOfRange_bounded (fun hoffset => h ⟨hindex, hoffset⟩) _
    · exact outOfRange_bounded hindex _

end Query

theorem StackView.shown_slice_of_all {texts : List String} {first last : Int64}
    (hfirst : first.toInt = 0) (hlast : last.toInt = texts.length) :
    (slice first last).shown texts = StackView.all.shown texts := by
  have hitems := @Query.map_getD_range' String texts 0 texts.length (Nat.le_refl _) ""
  rw [Nat.sub_zero, List.take_length, List.drop_zero] at hitems
  simp only [shown, hfirst, hlast, Int.sub_zero, Int.toNat_natCast, Int.toNat_zero, hitems]

namespace Machine

theorem query_of_writtenAs (m : Machine) {text : String} {q : Query}
    (h : q.WrittenAs (trimBlanks text.toList)) : m.query text = q.answer m := by
  have hread : Query.read? (trimBlanks text.toList) = some q := Query.read?_eq_some_iff.mpr h
  unfold query
  simp only [hread]

theorem query_of_malformed (m : Machine) {text : String}
    (h : ¬ ∃ q : Query, q.WrittenAs (trimBlanks text.toList)) :
    m.query text = .error (.malformedQuery (String.ofList (trimBlanks text.toList))) := by
  have hread : Query.read? (trimBlanks text.toList) = none :=
    Option.eq_none_iff_forall_ne_some.mpr fun q hq => h ⟨q, Query.read?_eq_some_iff.mp hq⟩
  unfold query
  simp only [hread]

/-- A view of all of a stack is what is asked for by the stack's name. -/
theorem query_slice_of_all (m : Machine) {text name : String} {first last : Int64}
    {stack : StackView → Query} {texts : List String} {subject : Subject}
    (hanswer : ∀ view, (stack view).answer m = Query.answerStack subject texts view)
    (hname : (stack .all).WrittenAs (trimBlanks name.toList)) (hfirst : first.toInt = 0)
    (hlast : last.toInt = texts.length)
    (h : (stack (.slice first last)).WrittenAs (trimBlanks text.toList)) :
    m.query text = m.query name := by
  have hrange : (StackView.slice first last).InRange texts.length := ⟨by omega, by omega, by omega⟩
  rw [query_of_writtenAs m h, query_of_writtenAs m hname, hanswer, hanswer,
    Query.answerStack_of_inRange hrange, StackView.shown_slice_of_all hfirst hlast]
  rfl

/-- Queries are accepted exactly if they follow the grammar. A text that is no query, the blanks around
it apart, is malformed. Any other is answered if its indices are in range, and tells of an index that is
not if one is not. A stack's slice of all its values is the whole stack. -/
theorem query_follows_grammar (m : Machine) (text : String) :
    (∀ trimmed, m.query text = .error (.malformedQuery trimmed) ↔
      trimmed = String.ofList (trimBlanks text.toList) ∧
        ¬ ∃ q : Query, q.WrittenAs (trimBlanks text.toList)) ∧
    (∀ q : Query, q.WrittenAs (trimBlanks text.toList) →
      (q.InRange m → m.query text = .ok (q.shown m)) ∧
        (¬ q.InRange m → Query.OutOfRange (m.query text))) ∧
    ∀ first last : Int64, first.toInt = 0 →
      (last.toInt = m.stack.length →
        (Query.workStack (.slice first last)).WrittenAs (trimBlanks text.toList) →
          m.query text = m.query "workStack") ∧
      (last.toInt = m.returns.length →
        (Query.returnStack (.slice first last)).WrittenAs (trimBlanks text.toList) →
          m.query text = m.query "retStack") := by
  have hanswer {q : Query} (hq : q.WrittenAs (trimBlanks text.toList)) :
      (q.InRange m → m.query text = .ok (q.shown m)) ∧
        (¬ q.InRange m → Query.OutOfRange (m.query text)) := by
    rw [query_of_writtenAs m hq]
    exact ⟨Query.answer_of_inRange, Query.answer_of_not_inRange⟩
  refine ⟨fun trimmed => ⟨fun h => ?_, ?_⟩, fun q => hanswer, fun first last hfirst => ⟨?_, ?_⟩⟩
  · have hnone : ¬ ∃ q : Query, q.WrittenAs (trimBlanks text.toList) := by
      rintro ⟨q, hq⟩
      by_cases hrange : q.InRange m
      · rw [(hanswer hq).1 hrange] at h
        cases h
      · obtain ⟨subject, index, max, herror, _⟩ := (hanswer hq).2 hrange
        rw [herror] at h
        cases h
    rw [query_of_malformed m hnone] at h
    cases h
    exact ⟨rfl, hnone⟩
  · rintro ⟨rfl, hnone⟩
    exact query_of_malformed m hnone
  · intro hlast
    have hname : (Query.workStack .all).WrittenAs (trimBlanks "workStack".toList) :=
      Query.read?_eq_some_iff.mp rfl
    refine query_slice_of_all m (fun _ => rfl) hname hfirst ?_
    rw [List.length_map, List.length_reverse]
    exact hlast
  · intro hlast
    have hname : (Query.returnStack .all).WrittenAs (trimBlanks "retStack".toList) :=
      Query.read?_eq_some_iff.mp rfl
    refine query_slice_of_all m (fun _ => rfl) hname hfirst ?_
    rw [List.length_map, List.length_reverse]
    exact hlast

/-- A machine within three calls. -/
def called : Machine := { new .headless with returns := [9, 5, 3] }

theorem called_shows_returns :
    (Query.returnStack (.slice 0 3)).WrittenAs (trimBlanks "\tretStack[ 0 ..+3 ] ".toList) ∧
      called.query "\tretStack[ 0 ..+3 ] " = .ok "[3, 5, 9]" ∧
      called.query "\tretStack[ 0 ..+3 ] " = called.query "retStack" := by
  have hwritten :
      (Query.returnStack (.slice 0 3)).WrittenAs (trimBlanks "\tretStack[ 0 ..+3 ] ".toList) :=
    Query.read?_eq_some_iff.mp rfl
  have hrange : (Query.returnStack (.slice 0 3)).InRange called := ⟨by decide, by decide, by decide⟩
  have hshown : (Query.returnStack (.slice 0 3)).shown called = "[3, 5, 9]" := by decide +kernel
  obtain ⟨_, hanswer, hall⟩ := query_follows_grammar called "\tretStack[ 0 ..+3 ] "
  refine ⟨hwritten, ?_, (hall 0 3 rfl).2 rfl hwritten⟩
  rw [(hanswer _ hwritten).1 hrange, hshown]

end Machine

/-! Cells. -/

/-- How a query for a cell answers what a read of the cell comes to. -/
inductive CellAnswer (offset index : Int) : Except MemoryError Value → Except Fault String → Prop
  | value (v : Value) : CellAnswer offset index (.ok v) (.ok v.text)
  | empty : CellAnswer offset index (.error (.uninitialised offset index)) (.ok "undefined")
  | noFrame (max : Int) : CellAnswer offset index (.error (.frameOutOfBounds index max))
      (.error (.queryOutOfRange .frame index max))
  | noSlot (max : Int) : CellAnswer offset index (.error (.locationOutOfBounds offset max))
      (.error (.queryOutOfRange .location offset max))

namespace Query

/-- The bounds of a query are those of a read, and they are looked at in the same order. -/
theorem cellAnswer_answer (m : Machine) (offset index : Int64) :
    CellAnswer offset.toInt index.toInt (m.frames.read offset.toInt index.toInt)
      ((cell offset index).answer m) := by
  by_cases hindex : 0 ≤ index.toInt ∧ index.toInt < m.frames.length
  · obtain ⟨f, hf⟩ := FrameStack.exists_isFrame_iff.mpr hindex
    have hframe : m.frames.frameAt index.toInt = .ok (index.toInt.toNat, f) :=
      FrameStack.frameAt_eq_ok_iff.mpr ⟨hf, rfl⟩
    have hget : m.frames.getD index.toInt.toNat [] = f := by
      rw [List.getD_eq_getElem?_getD, hf.2, Option.getD_some]
    have hanswer : (cell offset index).answer m =
        bounded .location offset f.length >>= fun k => pure (Value.slotText (f.getD k none)) := by
      rw [answer, bounded_of_inside hindex, ← hget]
      rfl
    rw [FrameStack.read, hframe, hanswer]
    change CellAnswer _ _ (FrameStack.slotAt f offset.toInt >>= _) _
    by_cases hoffset : 0 ≤ offset.toInt ∧ offset.toInt < f.length
    · have hlt : offset.toInt.toNat < f.length := by omega
      have hslot : f[offset.toInt.toNat]? = some f[offset.toInt.toNat] :=
        List.getElem?_eq_getElem hlt
      have hfound : FrameStack.slotAt f offset.toInt =
          .ok (offset.toInt.toNat, f[offset.toInt.toNat]) :=
        FrameStack.slotAt_eq_ok_iff.mpr ⟨hoffset.1, hslot, rfl⟩
      have hshown : f.getD offset.toInt.toNat none = f[offset.toInt.toNat] := by
        rw [List.getD_eq_getElem?_getD, hslot, Option.getD_some]
      rw [hfound, bounded_of_inside hoffset]
      change CellAnswer _ _ _ (.ok (Value.slotText (f.getD offset.toInt.toNat none)))
      rw [hshown]
      rcases f[offset.toInt.toNat] with _ | v
      · exact .empty
      · exact .value v
    · rw [FrameStack.slotAt_of_missing hoffset, bounded_of_outside hoffset]
      exact .noSlot _
  · rw [FrameStack.read, FrameStack.frameAt_of_missing hindex, answer, bounded_of_outside hindex]
    exact .noFrame _

end Query

namespace Machine

/-- A query for a cell sees the memory that instructions see: what it answers is what a read of the cell
comes to, for every machine and all indices. An offset alone is within the innermost frame. -/
theorem cell_query_sees_memory (m : Machine) (offset index : Int64) :
    CellAnswer offset.toInt index.toInt (m.frames.read offset.toInt index.toInt)
      (m.query ("[" ++ offset.toInt.repr ++ ":" ++ index.toInt.repr ++ "]")) ∧
    m.query ("[" ++ offset.toInt.repr ++ "]") = m.query ("[" ++ offset.toInt.repr ++ ":0]") := by
  have hcell (i : Int64) : m.query ("[" ++ offset.toInt.repr ++ ":" ++ i.toInt.repr ++ "]")
      = (Query.cell offset i).answer m := by
    refine query_of_writtenAs m ?_
    change Query.WrittenAs _ (trimBlanks (Value.cellText offset i).toList)
    rw [trimBlanks_of_solid (cellText_solid offset i), toList_cellText]
    exact .cell (paddedLiteral_repr offset) (paddedLiteral_repr i)
  have hoffset : m.query ("[" ++ offset.toInt.repr ++ "]") = (Query.cell offset 0).answer m := by
    have htext : ("[" ++ offset.toInt.repr ++ "]").toList = bracketed offset.toInt.repr.toList := by
      simp [bracketed, String.toList_append]
    refine query_of_writtenAs m ?_
    rw [htext, trimBlanks_of_solid (bracketed_solid (intLiteral_repr offset.toInt).solid)]
    exact .innermostCell (paddedLiteral_repr offset)
  have hzero : "[" ++ offset.toInt.repr ++ ":0]"
      = "[" ++ offset.toInt.repr ++ ":" ++ (0 : Int64).toInt.repr ++ "]" := by
    simp only [String.append_assoc]
    rfl
  refine ⟨?_, ?_⟩
  · rw [hcell]
    exact Query.cellAnswer_answer m offset index
  · rw [hoffset, hzero, hcell]

end Machine
end PixelMachine
