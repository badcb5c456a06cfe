import Mathlib.Data.Nat.Digits.Defs
import PixelMachine.Proofs.Literals

/-! The forms of operands: the texts of each form with their values, and the checks that look for the
forms that are neither numbers nor function names. -/
namespace PixelMachine

/-- What stands between the brackets of a cell: its offset, and its frame unless that is the innermost
one. -/
inductive CellLiteral : List Char → Int64 → Int64 → Prop
  | framed {left right : List Char} {offset frame : Int64} (hoffset : PaddedLiteral left offset)
      (hframe : PaddedLiteral right frame) : CellLiteral (left ++ ':' :: right) offset frame
  | innermost {part : List Char} {offset : Int64} (hoffset : PaddedLiteral part offset) :
      CellLiteral part offset 0

/-- Hexadecimal digits, the most significant one first, and the number that they write. -/
def HexLiteral (digits : List Char) (n : Nat) : Prop :=
  ∃ values : List Nat, digits.map hexDigit? = values.map some ∧ Nat.ofDigits 16 values.reverse = n

/-- The forms of operands. -/
inductive OperandForm where
  | number
  | colour
  | function
  | counterOffset
  | label
  | shiftedLabel
  deriving DecidableEq, Repr

/-- The texts of a form, each with its value. -/
inductive OperandForm.Writes : OperandForm → List Char → Value → Prop
  | number {text : List Char} {x : Float} (h : readNumber? text = some x) :
      Writes .number text (.number x)
  | colour {digits : List Char} {rgb : Nat} (hlength : digits.length = 6)
      (h : HexLiteral digits rgb) : Writes .colour ('#' :: digits) (.number (Float.ofNat rgb))
  | function {rest : List Char} (hne : rest ≠ []) (h : ∀ c ∈ rest, isNameChar c = true) :
      Writes .function ('.' :: rest) (.function (String.ofList ('.' :: rest)))
  | counterOffset {literal : List Char} {offset : Int64} (h : IntLiteral literal offset.toInt) :
      Writes .counterOffset ("#PC".toList ++ literal) (.counterOffset offset)
  | label {inner : List Char} {offset frame : Int64} (h : CellLiteral inner offset frame) :
      Writes .label (bracketed inner) (.label offset frame)
  | shiftedLabel {inner : List Char} {offset frame : Int64} (h : CellLiteral inner offset frame) :
      Writes .shiftedLabel ('+' :: bracketed inner) (.shiftedLabel offset frame)

/-! Cells. -/

theorem readCell?_eq_some_iff {inner : List Char} {offset frame : Int64} :
    readCell? inner = some (offset, frame) ↔ CellLiteral inner offset frame := by
  constructor
  · intro h
    unfold readCell? at h
    split at h
    · next left right hcut =>
      obtain ⟨o, hoffset, h⟩ := Option.bind_eq_some_iff.mp h
      obtain ⟨f, hframe, h⟩ := Option.bind_eq_some_iff.mp h
      cases h
      rw [eq_append_of_cut? hcut]
      exact .framed (readInt64?_trimBlanks_iff.mp hoffset) (readInt64?_trimBlanks_iff.mp hframe)
    · obtain ⟨o, hoffset, h⟩ := Option.map_eq_some_iff.mp h
      cases h
      exact .innermost (readInt64?_trimBlanks_iff.mp hoffset)
  · intro h
    cases h with
    | @framed left right _ _ hoffset hframe =>
      rw [readCell?, cut?_append (hoffset.not_mem rfl)]
      simp only [readInt64?_trimBlanks_iff.mpr hoffset, readInt64?_trimBlanks_iff.mpr hframe,
        Option.bind_eq_bind, Option.bind_some, Option.pure_def]
    | innermost hoffset =>
      rw [readCell?, cut?_eq_none (hoffset.not_mem rfl)]
      simp only [readInt64?_trimBlanks_iff.mpr hoffset, Option.map_some]

theorem readLocation_eq_ok_iff {text inner : List Char} {make : Int64 → Int64 → Value} {v : Value} :
    readLocation text inner make = .ok v ↔
      ∃ offset frame, CellLiteral inner offset frame ∧ make offset frame = v := by
  simp only [← readCell?_eq_some_iff]
  unfold readLocation
  rcases readCell? inner with _ | ⟨offset, frame⟩
  · simp
  · simp

/-! Colours. -/

theorem ofHexDigits_eq (values : List Nat) : ofHexDigits values = Nat.ofDigits 16 values.reverse := by
  rw [Nat.ofDigits_eq_foldr, List.foldr_reverse, ofHexDigits]
  congr 1
  funext n d
  exact Nat.add_comm _ _

theorem mapM_hexDigit?_eq_some_iff {cs : List Char} {values : List Nat} :
    cs.mapM hexDigit? = some values ↔ cs.map hexDigit? = values.map some := by
  induction cs generalizing values with
  | nil => cases values <;> simp
  | cons c cs ih =>
    cases values with
    | nil => simp [List.mapM_cons, Option.bind_eq_some_iff]
    | cons d values => simp [List.mapM_cons, ih, Option.bind_eq_some_iff]

theorem readHex?_eq_some_iff {cs : List Char} {n : Nat} :
    readHex? cs = some n ↔ HexLiteral cs n := by
  simp only [readHex?, Option.map_eq_some_iff, mapM_hexDigit?_eq_some_iff, ofHexDigits_eq, HexLiteral]

theorem isSome_hexDigit?_of_mem {digits : List Char} {n : Nat} (h : HexLiteral digits n) :
    ∀ c ∈ digits, (hexDigit? c).isSome = true := by
  obtain ⟨values, hvalues, _⟩ := h
  intro c hc
  have hmem : hexDigit? c ∈ values.map some := hvalues ▸ List.mem_map_of_mem hc
  obtain ⟨d, _, hd⟩ := List.mem_map.mp hmem
  rw [← hd]
  rfl

/-- A hexadecimal digit is one byte. -/
theorem utf8Size_of_isSome_hexDigit? {c : Char} (h : (hexDigit? c).isSome = true) :
    c.utf8Size = 1 := by
  have hbound {last : Char} (hc : c ≤ last) (hlast : last.val ≤ 127) : c.val ≤ 127 :=
    UInt32.le_trans hc hlast
  rw [Char.utf8Size_eq_one_iff]
  unfold hexDigit? at h
  split at h
  · next hdigit =>
    simp only [Char.isDigit, Bool.and_eq_true, decide_eq_true_eq] at hdigit
    exact UInt32.le_trans hdigit.2 (by decide)
  · split at h
    · next hlower => exact hbound hlower.2 (by decide)
    · split at h
      · next hupper => exact hbound hupper.2 (by decide)
      · cases h

theorem utf8ByteSize_ofList_cons (c : Char) (cs : List Char) :
    (String.ofList (c :: cs)).utf8ByteSize = c.utf8Size + (String.ofList cs).utf8ByteSize := by
  have hsplit : String.ofList (c :: cs) = String.singleton c ++ String.ofList cs := by
    rw [String.singleton_eq_ofList, ← String.ofList_append, List.singleton_append]
  rw [hsplit, String.utf8ByteSize_append, String.utf8ByteSize_singleton]

theorem utf8ByteSize_ofList_of_hex {cs : List Char} (h : ∀ c ∈ cs, (hexDigit? c).isSome = true) :
    (String.ofList cs).utf8ByteSize = cs.length := by
  induction cs with
  | nil => rfl
  | cons c cs ih =>
    obtain ⟨hc, hcs⟩ := List.forall_mem_cons.mp h
    rw [utf8ByteSize_ofList_cons, utf8Size_of_isSome_hexDigit? hc, ih hcs, List.length_cons,
      Nat.add_comm]

theorem readColour_eq_ok_iff {text : List Char} {rgb : Nat} : readColour text = .ok rgb ↔
    ∃ digits, text = '#' :: digits ∧ digits.length = 6 ∧ HexLiteral digits rgb := by
  have hmark (digits : List Char) : after? ['#'] text = some digits ↔ text = '#' :: digits :=
    after?_eq_some_iff
  simp only [← hmark, ← readHex?_eq_some_iff]
  unfold readColour
  rcases after? ['#'] text with _ | digits
  · simp
  · by_cases hlength : digits.length = 6
    · rcases hread : readHex? digits with _ | n <;> simp [hlength, hread]
    · simp [hlength]

/-! Names. -/

theorem isFunctionName_eq_true_iff {text : List Char} : isFunctionName text = true ↔
    ∃ rest, text = '.' :: rest ∧ rest ≠ [] ∧ ∀ c ∈ rest, isNameChar c = true := by
  unfold isFunctionName
  split
  · next rest => simp
  · next hdot =>
    simp only [Bool.false_eq_true, false_iff]
    rintro ⟨rest, rfl, _⟩
    exact hdot rest rfl

/-! Checks. -/

/-- The checks that follow those for numbers and function names. -/
inductive AddressCheck where
  | shiftedLabel
  | label
  | counterOffset
  | colour
  deriving DecidableEq, Repr

namespace AddressCheck

/-- The form that a check is for. -/
def form : AddressCheck → OperandForm
  | .shiftedLabel => .shiftedLabel
  | .label => .label
  | .counterOffset => .counterOffset
  | .colour => .colour

/-- The first character of the texts that a check looks into. -/
def lead : AddressCheck → Char
  | .shiftedLabel => '+'
  | .label => '['
  | .counterOffset | .colour => '#'

/-- What a check decides: nothing if the text does not look like its form, else a value or an error. -/
def verdict (text : List Char) : AddressCheck → Option (Except DecodeError Value)
  | .shiftedLabel => ((after? ['+'] text).bind bracketed?).map fun inner =>
      readLocation text inner .shiftedLabel
  | .label => (bracketed? text).map fun inner => readLocation text inner .label
  | .counterOffset => (after? ['#', 'P', 'C'] text).map fun rest =>
      match readInt64? rest with
      | some offset => .ok (.counterOffset offset)
      | none => .error (.invalidCounterOffset (String.ofList text))
  | .colour =>
      if (String.ofList text).utf8ByteSize = 7 ∧ text.head? = some '#' then
        some ((readColour text).map fun rgb => .number (Float.ofNat rgb))
      else none

/-- The checks in the order in which they are made. -/
def inOrder : List AddressCheck := [.shiftedLabel, .label, .counterOffset, .colour]

/-- The verdict of the first check that decides. -/
def firstVerdict (order : List AddressCheck) (text : List Char) : Except DecodeError Value :=
  (order.findSome? (verdict text)).getD (.error (.invalidOperand (String.ofList text)))

variable {text : List Char} {check : AddressCheck}

theorem readAddress_eq (text : List Char) : readAddress text = firstVerdict inOrder text := by
  unfold readAddress firstVerdict inOrder
  split
  · next inner h => simp only [List.findSome?_cons, verdict, h, Option.map_some, Option.getD_some]
  · next hshifted =>
    split
    · next inner h =>
      simp only [List.findSome?_cons, verdict, hshifted, h, Option.map_none, Option.map_some,
        Option.getD_some]
    · next hlabel =>
      split
      · next rest h =>
        rcases hread : readInt64? rest with _ | offset
        all_goals
          simp only [List.findSome?_cons, verdict, hshifted, hlabel, h, hread, Option.map_none,
            Option.map_some, Option.getD_some]
      · next hcounter =>
        simp only [List.findSome?_cons, List.findSome?_nil, verdict, hshifted, hlabel, hcounter,
          Option.map_none]
        split <;> rfl

theorem eq_or_of_lead_eq {c d : AddressCheck} (h : c.lead = d.lead) :
    c = d ∨ (c = .colour ∧ d = .counterOffset) ∨ (c = .counterOffset ∧ d = .colour) := by
  revert h
  cases c <;> cases d <;> decide

theorem head?_of_verdict {result : Except DecodeError Value} (h : verdict text check = some result) :
    text.head? = some check.lead := by
  cases check with
  | shiftedLabel =>
    obtain ⟨inner, hinner, _⟩ := Option.map_eq_some_iff.mp h
    obtain ⟨rest, hrest, _⟩ := Option.bind_eq_some_iff.mp hinner
    rw [after?_eq_some_iff.mp hrest]
    rfl
  | label =>
    obtain ⟨inner, hinner, _⟩ := Option.map_eq_some_iff.mp h
    rw [bracketed?_eq_some_iff.mp hinner]
    rfl
  | counterOffset =>
    obtain ⟨rest, hrest, _⟩ := Option.map_eq_some_iff.mp h
    rw [after?_eq_some_iff.mp hrest]
    rfl
  | colour =>
    simp only [verdict] at h
    split at h
    · next hlook => exact hlook.2
    · cases h

/-- A check accepts the texts of its form, with their values, and no others. -/
theorem verdict_eq_ok_iff {v : Value} :
    verdict text check = some (.ok v) ↔ check.form.Writes text v := by
  cases check with
  | shiftedLabel =>
    simp only [verdict, Option.map_eq_some_iff, Option.bind_eq_some_iff, after?_eq_some_iff,
      bracketed?_eq_some_iff, readLocation_eq_ok_iff, form]
    constructor
    · rintro ⟨inner, ⟨rest, rfl, rfl⟩, offset, frame, hcell, rfl⟩
      exact .shiftedLabel hcell
    · rintro (_ | _ | _ | _ | _ | hcell)
      exact ⟨_, ⟨_, rfl, rfl⟩, _, _, hcell, rfl⟩
  | label =>
    simp only [verdict, Option.map_eq_some_iff, bracketed?_eq_some_iff, readLocation_eq_ok_iff, form]
    constructor
    · rintro ⟨inner, rfl, offset, frame, hcell, rfl⟩
      exact .label hcell
    · rintro (_ | _ | _ | _ | hcell | _)
      exact ⟨_, rfl, _, _, hcell, rfl⟩
  | counterOffset =>
    simp only [verdict, Option.map_eq_some_iff, after?_eq_some_iff, form]
    constructor
    · rintro ⟨rest, rfl, h⟩
      split at h
      · next offset hoffset =>
        cases h
        exact .counterOffset (readInt64?_eq_some_iff.mp hoffset)
      · cases h
    · rintro (_ | _ | _ | hliteral | _ | _)
      refine ⟨_, rfl, ?_⟩
      rw [readInt64?_eq_some_iff.mpr hliteral]
  | colour =>
    simp only [verdict, form]
    constructor
    · intro h
      split at h
      · rcases hread : readColour text with e | rgb
        · rw [hread] at h
          cases h
        · rw [hread] at h
          cases h
          obtain ⟨digits, rfl, hlength, hhex⟩ := readColour_eq_ok_iff.mp hread
          exact .colour hlength hhex
      · cases h
    · rintro (_ | ⟨hlength, hhex⟩ | _ | _ | _ | _)
      rename_i digits rgb
      have hread : readColour ('#' :: digits) = .ok rgb :=
        readColour_eq_ok_iff.mpr ⟨digits, rfl, hlength, hhex⟩
      -- The length that the check looks at is in bytes, of which each digit is one.
      have hbytes : (String.ofList ('#' :: digits)).utf8ByteSize = 7 := by
        rw [utf8ByteSize_ofList_cons, utf8ByteSize_ofList_of_hex (isSome_hexDigit?_of_mem hhex), hlength]
        rfl
      rw [if_pos ⟨hbytes, rfl⟩, hread]
      rfl

/-- A colour does not begin like a counter offset, of which `P` is no hexadecimal digit. -/
theorem verdict_counterOffset_of_colour {v : Value} (h : OperandForm.colour.Writes text v) :
    verdict text .counterOffset = none := by
  rcases h with _ | ⟨_, hhex⟩
  rename_i digits rgb _
  refine Option.map_eq_none_iff.mpr (Option.eq_none_iff_forall_ne_some.mpr fun rest hrest => ?_)
  have htext : '#' :: digits = '#' :: 'P' :: 'C' :: rest := after?_eq_some_iff.mp hrest
  have hdigits : digits = 'P' :: 'C' :: rest := (List.cons.inj htext).2
  have hdigit : (hexDigit? 'P').isSome = true :=
    isSome_hexDigit?_of_mem hhex 'P' (hdigits ▸ List.mem_cons_self)
  exact absurd hdigit (by decide)

/-- What a check decides is the outcome, unless the check for counter offsets comes before. -/
theorem readAddress_of_verdict {result : Except DecodeError Value}
    (h : verdict text check = some result)
    (hfirst : check = .colour → verdict text .counterOffset = none) : readAddress text = result := by
  have hother (other : AddressCheck) (hne : other.lead ≠ check.lead) : verdict text other = none :=
    Option.eq_none_iff_forall_ne_some.mpr fun r hr =>
      hne (Option.some.inj ((head?_of_verdict hr).symm.trans (head?_of_verdict h)))
  rw [readAddress_eq, firstVerdict, inOrder]
  cases check with
  | shiftedLabel => simp only [List.findSome?_cons, h, Option.getD_some]
  | label =>
    simp only [List.findSome?_cons, hother .shiftedLabel (by decide), h, Option.getD_some]
  | counterOffset =>
    simp only [List.findSome?_cons, hother .shiftedLabel (by decide), hother .label (by decide), h,
      Option.getD_some]
  | colour =>
    simp only [List.findSome?_cons, hother .shiftedLabel (by decide), hother .label (by decide),
      hfirst rfl, h, Option.getD_some]

theorem readAddress_of_writes {v : Value} (h : check.form.Writes text v) :
    readAddress text = .ok v := by
  refine readAddress_of_verdict (verdict_eq_ok_iff.mpr h) ?_
  rintro rfl
  exact verdict_counterOffset_of_colour h

theorem readAddress_eq_ok_iff {v : Value} :
    readAddress text = .ok v ↔ ∃ check : AddressCheck, check.form.Writes text v := by
  constructor
  · intro h
    rw [readAddress_eq, firstVerdict] at h
    rcases hfind : inOrder.findSome? (verdict text) with _ | result
    · rw [hfind] at h
      cases h
    · rw [hfind, Option.getD_some] at h
      obtain ⟨check, _, hcheck⟩ := List.exists_of_findSome?_eq_some hfind
      rw [h] at hcheck
      exact ⟨check, verdict_eq_ok_iff.mp hcheck⟩
  · rintro ⟨check, h⟩
    exact readAddress_of_writes h

end AddressCheck

end PixelMachine
