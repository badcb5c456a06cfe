import PixelMachine.Machine.Query
import PixelMachine.Proofs.Literals

/-! The grammar of queries. A text that is no query is malformed; a query is answered, unless an index
of it is out of range. -/
namespace PixelMachine

/-- What is written after the name of a stack. -/
inductive StackView.WrittenAs : StackView → List Char → Prop
  | all : WrittenAs .all []
  | length : WrittenAs .length ".len".toList
  | item {part : List Char} {i : Int64} (h : PaddedLiteral part i) :
      WrittenAs (.item i) (bracketed part)
  | slice {left right : List Char} {first last : Int64} (hfirst : PaddedLiteral left first)
      (hlast : PaddedLiteral right last) :
      WrittenAs (.slice first last) (bracketed (left ++ ("..".toList ++ right)))

/-- The texts of a query. Blanks stand only inside of brackets, around the parts there. -/
inductive Query.WrittenAs : Query → List Char → Prop
  | counter : WrittenAs .counter "#PC".toList
  | workStack {view : StackView} {rest : List Char} (h : view.WrittenAs rest) :
      WrittenAs (.workStack view) ("workStack".toList ++ rest)
  | returnStack {view : StackView} {rest : List Char} (h : view.WrittenAs rest) :
      WrittenAs (.returnStack view) ("retStack".toList ++ rest)
  | cell {left right : List Char} {offset index : Int64} (hoffset : PaddedLiteral left offset)
      (hindex : PaddedLiteral right index) :
      WrittenAs (.cell offset index) (bracketed (left ++ ':' :: right))
  | innermostCell {part : List Char} {offset : Int64} (hoffset : PaddedLiteral part offset) :
      WrittenAs (.cell offset 0) (bracketed part)
  | frame {left right : List Char} {index : Int64} (hleft : AllBlank left)
      (hindex : PaddedLiteral right index) :
      WrittenAs (.frame index) (bracketed (left ++ ':' :: right))
  | frameLength {left right : List Char} {index : Int64} (hleft : AllBlank left)
      (hindex : PaddedLiteral right index) :
      WrittenAs (.frameLength index) (bracketed (left ++ ':' :: right) ++ ".len".toList)
  | frames {left right : List Char} (hleft : AllBlank left) (hright : AllBlank right) :
      WrittenAs .frames (bracketed (left ++ ':' :: right))
  | frameCount {left right : List Char} (hleft : AllBlank left) (hright : AllBlank right) :
      WrittenAs .frameCount (bracketed (left ++ ':' :: right) ++ ".len".toList)

namespace Query

theorem readIndex?_eq_some_iff {text : List Char} {i : Int64} :
    readIndex? text = some i ↔ PaddedLiteral text i :=
  readInt64?_trimBlanks_iff

theorem readIndex?_of_padded {text : List Char} {i : Int64} (h : PaddedLiteral text i) :
    readIndex? text = some i :=
  readIndex?_eq_some_iff.mpr h

/-! Stacks. -/

theorem writtenAs_of_readView? {text : List Char} {view : StackView}
    (h : readView? text = some view) : view.WrittenAs text := by
  unfold readView? at h
  split at h
  · next hall =>
    cases h
    rw [hall]
    exact .all
  · split at h
    · next hlength =>
      cases h
      rw [hlength]
      exact .length
    · obtain ⟨inner, hinner, h⟩ := Option.bind_eq_some_iff.mp h
      rw [bracketed?_eq_some_iff.mp hinner]
      split at h
      · next left right hcut =>
        obtain ⟨first, hfirst, h⟩ := Option.bind_eq_some_iff.mp h
        obtain ⟨last, hlast, h⟩ := Option.bind_eq_some_iff.mp h
        cases h
        rw [eq_append_of_cut? hcut]
        exact .slice (readIndex?_eq_some_iff.mp hfirst) (readIndex?_eq_some_iff.mp hlast)
      · obtain ⟨i, hi, h⟩ := Option.bind_eq_some_iff.mp h
        cases h
        exact .item (readIndex?_eq_some_iff.mp hi)

theorem readView?_bracketed (inner : List Char) : readView? (bracketed inner) =
    match cut? "..".toList inner with
    | some (first, last) => do return .slice (← readIndex? first) (← readIndex? last)
    | none => do return .item (← readIndex? inner) := by
  have hnil : bracketed inner ≠ [] := List.cons_ne_nil _ _
  have hlength : bracketed inner ≠ ".len".toList := fun heq => by cases heq
  unfold readView?
  rw [if_neg hnil, if_neg hlength, bracketed?_bracketed]
  rcases hcut : cut? "..".toList inner with _ | ⟨first, last⟩
  · simp only [hcut, Option.bind_eq_bind, Option.bind_some]
  · simp only [hcut, Option.bind_eq_bind, Option.bind_some]

theorem readView?_of_writtenAs {text : List Char} {view : StackView} (h : view.WrittenAs text) :
    readView? text = some view := by
  cases h with
  | all | length => rfl
  | @item part i h =>
    have hcut : cut? "..".toList part = none := cut?_eq_none (h.not_mem rfl) ['.']
    rw [readView?_bracketed, hcut]
    simp only [readIndex?_of_padded h, Option.bind_eq_bind, Option.bind_some, Option.pure_def]
  | @slice left right first last hfirst hlast =>
    have hcut : cut? "..".toList (left ++ ("..".toList ++ right)) = some (left, right) :=
      cut?_append_mark (hfirst.not_mem rfl) ['.'] right
    rw [readView?_bracketed, hcut]
    simp only [readIndex?_of_padded hfirst, readIndex?_of_padded hlast, Option.bind_eq_bind,
      Option.bind_some, Option.pure_def]

/-! Memory. -/

/-- The brackets of a query into memory, and `.len` behind them if its length is asked for. -/
def memoryText (length : Bool) (inner : List Char) : List Char :=
  bracketed inner ++ if length then ".len".toList else []

theorem memoryText_false (inner : List Char) : memoryText false inner = bracketed inner :=
  List.append_nil _

theorem writtenAs_of_readMemory? {length : Bool} {inner : List Char} {q : Query}
    (h : readMemory? length inner = some q) : q.WrittenAs (memoryText length inner) := by
  unfold readMemory? at h
  split at h
  · next left right hcut =>
    have hinner : inner = left ++ ':' :: right := eq_append_of_cut? hcut
    subst hinner
    split at h
    · next hleft =>
      have hleft : AllBlank left := trimBlanks_eq_nil_iff.mp (List.isEmpty_iff.mp hleft)
      split at h
      · next hright =>
        have hright : AllBlank right := trimBlanks_eq_nil_iff.mp (List.isEmpty_iff.mp hright)
        cases length with
        | false =>
          cases h
          rw [memoryText_false]
          exact .frames hleft hright
        | true =>
          cases h
          exact .frameCount hleft hright
      · obtain ⟨index, hindex, h⟩ := Option.bind_eq_some_iff.mp h
        have hindex := readIndex?_eq_some_iff.mp hindex
        cases length with
        | false =>
          cases h
          rw [memoryText_false]
          exact .frame hleft hindex
        | true =>
          cases h
          exact .frameLength hleft hindex
    · cases length with
      | false =>
        obtain ⟨offset, hoffset, h⟩ := Option.bind_eq_some_iff.mp h
        obtain ⟨index, hindex, h⟩ := Option.bind_eq_some_iff.mp h
        cases h
        rw [memoryText_false]
        exact .cell (readIndex?_eq_some_iff.mp hoffset) (readIndex?_eq_some_iff.mp hindex)
      | true => cases h
  · cases length with
    | false =>
      obtain ⟨offset, hoffset, h⟩ := Option.bind_eq_some_iff.mp h
      cases h
      rw [memoryText_false]
      exact .innermostCell (readIndex?_eq_some_iff.mp hoffset)
    | true => cases h

/-- A query that starts with a bracket is about memory. -/
theorem read?_memoryText (length : Bool) (inner : List Char) :
    read? (memoryText length inner) = readMemory? length inner := by
  have hwork : after? "workStack".toList (memoryText length inner) = none :=
    after?_cons_of_ne (by decide) _ _
  have hreturn : after? "retStack".toList (memoryText length inner) = none :=
    after?_cons_of_ne (by decide) _ _
  have hcounter : memoryText length inner ≠ "#PC".toList := fun heq => by cases heq
  rw [read?, if_neg hcounter, hwork]
  dsimp only
  rw [hreturn]
  -- A closing bracket at the end is not the end of `.len`.
  cases length with
  | false =>
    have hlength : before? ".len".toList (memoryText false inner) = none := by
      have hend : memoryText false inner = ('[' :: inner) ++ [']'] := List.append_nil _
      rw [hend]
      exact before?_append_of_ne (by decide) ".le".toList _
    rw [hlength, memoryText_false]
    dsimp only
    rw [bracketed?_bracketed]
    rfl
  | true =>
    have hlength : before? ".len".toList (memoryText true inner) = some (bracketed inner) :=
      before?_append _ _
    rw [hlength]
    dsimp only
    rw [bracketed?_bracketed]
    rfl

/-- What is written as a query is read as that query. -/
theorem read?_of_writtenAs {text : List Char} {q : Query} (h : q.WrittenAs text) :
    read? text = some q := by
  have hplain (inner : List Char) : read? (bracketed inner) = readMemory? false inner := by
    rw [← memoryText_false, read?_memoryText]
  have hlength (inner : List Char) :
      read? (bracketed inner ++ ".len".toList) = readMemory? true inner :=
    read?_memoryText true inner
  cases h with
  | counter => rfl
  | @workStack view rest h =>
    have hcounter : "workStack".toList ++ rest ≠ "#PC".toList := fun heq => by cases heq
    rw [read?, if_neg hcounter, after?_append]
    dsimp only
    rw [readView?_of_writtenAs h]
    rfl
  | @returnStack view rest h =>
    have hcounter : "retStack".toList ++ rest ≠ "#PC".toList := fun heq => by cases heq
    have hwork : after? "workStack".toList ("retStack".toList ++ rest) = none :=
      after?_cons_of_ne (by decide) _ _
    rw [read?, if_neg hcounter, hwork]
    dsimp only
    rw [after?_append]
    dsimp only
    rw [readView?_of_writtenAs h]
    rfl
  -- The first colon is the one between the parts: none stands in a literal or among blanks.
  | @cell left right offset index hoffset hindex =>
    rw [hplain, readMemory?, cut?_append (hoffset.not_mem rfl)]
    simp [hoffset.isEmpty_trimBlanks, readIndex?_of_padded hoffset, readIndex?_of_padded hindex]
  | @innermostCell part offset hoffset =>
    rw [hplain, readMemory?, cut?_eq_none (hoffset.not_mem rfl)]
    simp [readIndex?_of_padded hoffset]
  | @frame left right index hleft hindex =>
    rw [hplain, readMemory?, cut?_append (hleft.not_mem rfl)]
    simp [hleft.isEmpty_trimBlanks, hindex.isEmpty_trimBlanks, readIndex?_of_padded hindex]
  | @frameLength left right index hleft hindex =>
    rw [hlength, readMemory?, cut?_append (hleft.not_mem rfl)]
    simp [hleft.isEmpty_trimBlanks, hindex.isEmpty_trimBlanks, readIndex?_of_padded hindex]
  | @frames left right hleft hright =>
    rw [hplain, readMemory?, cut?_append (hleft.not_mem rfl)]
    simp [hleft.isEmpty_trimBlanks, hright.isEmpty_trimBlanks]
  | @frameCount left right hleft hright =>
    rw [hlength, readMemory?, cut?_append (hleft.not_mem rfl)]
    simp [hleft.isEmpty_trimBlanks, hright.isEmpty_trimBlanks]

/-- What is read as a query is written as it. -/
theorem writtenAs_of_read? {text : List Char} {q : Query} (h : read? text = some q) :
    q.WrittenAs text := by
  unfold read? at h
  split at h
  · next hcounter =>
    cases h
    rw [hcounter]
    exact .counter
  · split at h
    · next rest hrest =>
      obtain ⟨view, hview, hq⟩ := Option.map_eq_some_iff.mp h
      subst hq
      rw [after?_eq_some_iff.mp hrest]
      exact .workStack (writtenAs_of_readView? hview)
    · split at h
      · next rest hrest =>
        obtain ⟨view, hview, hq⟩ := Option.map_eq_some_iff.mp h
        subst hq
        rw [after?_eq_some_iff.mp hrest]
        exact .returnStack (writtenAs_of_readView? hview)
      · split at h
        · next address haddress =>
          obtain ⟨inner, hinner, h⟩ := Option.bind_eq_some_iff.mp h
          rw [before?_eq_some_iff.mp haddress, bracketed?_eq_some_iff.mp hinner]
          exact writtenAs_of_readMemory? h
        · obtain ⟨inner, hinner, h⟩ := Option.bind_eq_some_iff.mp h
          have hplain := writtenAs_of_readMemory? h
          rw [memoryText_false] at hplain
          rw [bracketed?_eq_some_iff.mp hinner]
          exact hplain

theorem read?_eq_some_iff {text : List Char} {q : Query} :
    read? text = some q ↔ q.WrittenAs text :=
  ⟨writtenAs_of_read?, read?_of_writtenAs⟩

end Query
end PixelMachine
