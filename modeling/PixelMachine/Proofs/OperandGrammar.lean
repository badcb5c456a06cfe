import Mathlib.Data.List.Basic
import PixelMachine.Proofs.FloatLiterals
import PixelMachine.Proofs.OperandForms

/-! The grammar of operands: the texts that are accepted are those of the forms, and no two forms other
than number and function name share a text, whatever the order in which they are looked for. -/
namespace PixelMachine

/-! Other orders. -/

namespace AddressCheck

variable {text : List Char} {order : List AddressCheck}

/-- The value of the first check that accepts. -/
def firstAccepted (order : List AddressCheck) (text : List Char) : Except DecodeError Value :=
  (order.findSome? fun check => (verdict text check).filter (·.isOk)).getD
    (.error (.invalidOperand (String.ofList text)))

/-- The texts that are accepted are the same in any order of the checks, and so are their values. -/
theorem firstAccepted_eq_ok_iff (horder : ∀ check, check ∈ order) {v : Value} :
    firstAccepted order text = .ok v ↔ readAddress text = .ok v := by
  have haccepts {c : AddressCheck} {result : Except DecodeError Value} :
      (verdict text c).filter (·.isOk) = some result ↔
        ∃ w, result = .ok w ∧ c.form.Writes text w := by
    rw [Option.filter_eq_some_iff]
    constructor
    · rintro ⟨hverdict, hok⟩
      rcases result with e | w
      · cases hok
      · exact ⟨w, rfl, verdict_eq_ok_iff.mp hverdict⟩
    · rintro ⟨w, rfl, hw⟩
      exact ⟨verdict_eq_ok_iff.mpr hw, rfl⟩
  unfold firstAccepted
  constructor
  · intro h
    rcases hfind : order.findSome? fun c => (verdict text c).filter (·.isOk) with _ | result
    · rw [hfind] at h
      cases h
    · rw [hfind, Option.getD_some] at h
      obtain ⟨c, _, hc⟩ := List.exists_of_findSome?_eq_some hfind
      obtain ⟨w, rfl, hw⟩ := haccepts.mp hc
      rw [← h]
      exact readAddress_of_writes hw
  · intro h
    obtain ⟨c, hc⟩ := readAddress_eq_ok_iff.mp h
    rcases hfind : order.findSome? fun c => (verdict text c).filter (·.isOk) with _ | result
    · have hnone := List.findSome?_eq_none_iff.mp hfind c (horder c)
      rw [haccepts.mpr ⟨v, rfl, hc⟩] at hnone
      cases hnone
    · obtain ⟨d, _, hd⟩ := List.exists_of_findSome?_eq_some hfind
      obtain ⟨w, rfl, hw⟩ := haccepts.mp hd
      rw [hfind, Option.getD_some, ← h]
      exact (readAddress_of_writes hw).symm

theorem readColour_eq_error {e : DecodeError} (h : readColour text = .error e) :
    e = .invalidColour (String.ofList text) := by
  unfold readColour at h
  split at h
  · split at h
    · split at h <;> cases h
      rfl
    · cases h
      rfl
  · cases h
    rfl

/-- The text begins like a counter offset and has the length of a colour, so that two checks look into
it. -/
def Contested (text : List Char) : Prop :=
  (∃ rest, text = "#PC".toList ++ rest) ∧ (String.ofList text).utf8ByteSize = 7

theorem verdict_counterOffset_of_contested (h : Contested text) :
    ∃ result, verdict text .counterOffset = some result := by
  obtain ⟨⟨rest, hrest⟩, _⟩ := h
  have hafter : after? ['#', 'P', 'C'] text = some rest := after?_eq_some_iff.mpr hrest
  simp only [verdict, hafter, Option.map_some, Option.some.injEq, exists_eq']

/-- A contested text is no colour. -/
theorem verdict_colour_of_contested (h : Contested text) :
    verdict text .colour = some (.error (.invalidColour (String.ofList text))) := by
  obtain ⟨r, hr⟩ := verdict_counterOffset_of_contested h
  obtain ⟨⟨rest, rfl⟩, hbytes⟩ := h
  have hverdict : verdict ("#PC".toList ++ rest) .colour =
      some ((readColour ("#PC".toList ++ rest)).map fun rgb => .number (Float.ofNat rgb)) :=
    if_pos ⟨hbytes, rfl⟩
  rcases hread : readColour ("#PC".toList ++ rest) with e | rgb
  · rw [hverdict, hread, readColour_eq_error hread]
    rfl
  · rw [hread] at hverdict
    have hnone := verdict_counterOffset_of_colour (verdict_eq_ok_iff.mp hverdict)
    rw [hr] at hnone
    cases hnone

/-- Where the check for colours decides, so does the one for counter offsets only if the text is
contested. -/
theorem contested_of_verdict {result : Except DecodeError Value}
    (h : verdict text .colour = some result) (hcounter : verdict text .counterOffset ≠ none) :
    Contested text := by
  obtain ⟨r, hr⟩ := Option.ne_none_iff_exists'.mp hcounter
  obtain ⟨rest, hrest, _⟩ := Option.map_eq_some_iff.mp hr
  simp only [verdict] at h
  split at h
  · next hlook => exact ⟨⟨rest, after?_eq_some_iff.mp hrest⟩, hlook.1⟩
  · cases h

/-- The outcome is what some check decides, and none that is made before it decides anything. -/
theorem exists_first {result : Except DecodeError Value}
    (h : order.findSome? (verdict text) = some result) :
    ∃ c, verdict text c = some result ∧
      ∀ d, order.idxOf d < order.idxOf c → verdict text d = none := by
  obtain ⟨older, c, newer, rfl, hc, holder⟩ := List.findSome?_eq_some_iff.mp h
  refine ⟨c, hc, fun d hd => ?_⟩
  by_cases hmem : d ∈ older
  · exact holder d hmem
  · -- It is not made earlier, since the first check `c` is found right after those that are.
    have hlate : (older ++ c :: newer).idxOf d = older.length + (c :: newer).idxOf d :=
      List.idxOf_append_of_notMem hmem
    have hfirst : (older ++ c :: newer).idxOf c ≤ older.length := by
      by_cases hc : c ∈ older
      · rw [List.idxOf_append_of_mem hc]
        exact List.idxOf_le_length
      · rw [List.idxOf_append_of_notMem hc, List.idxOf_cons_self]
        exact Nat.le_refl _
    omega

/-- The outcome is the same in every order of the checks in which that for counter offsets is made
before that for colours, and in every order unless the text is contested. -/
theorem firstVerdict_eq (horder : ∀ check, check ∈ order)
    (h : order.idxOf .counterOffset < order.idxOf .colour ∨ ¬ Contested text) :
    firstVerdict order text = readAddress text := by
  unfold firstVerdict
  rcases hfind : order.findSome? (verdict text) with _ | result
  · have hnone : inOrder.findSome? (verdict text) = none :=
      List.findSome?_eq_none_iff.mpr fun c _ => List.findSome?_eq_none_iff.mp hfind c (horder c)
    rw [readAddress_eq, firstVerdict, hnone]
  · obtain ⟨c, hc, hbefore⟩ := exists_first hfind
    rw [Option.getD_some]
    -- Only the checks for counter offsets and for colours look into texts with one first character.
    refine (readAddress_of_verdict hc ?_).symm
    rintro rfl
    rcases h with hfirst | hclear
    · exact hbefore .counterOffset hfirst
    · by_contra hcounter
      exact hclear (contested_of_verdict hc hcounter)

/-- Where the check for colours is made first it rejects the contested texts. -/
theorem firstVerdict_of_contested (horder : ∀ check, check ∈ order) (htext : Contested text)
    (h : order.idxOf .colour < order.idxOf .counterOffset) :
    firstVerdict order text = .error (.invalidColour (String.ofList text)) := by
  have hcolour := verdict_colour_of_contested htext
  unfold firstVerdict
  rcases hfind : order.findSome? (verdict text) with _ | result
  · rw [List.findSome?_eq_none_iff.mp hfind .colour (horder .colour)] at hcolour
    cases hcolour
  · obtain ⟨c, hc, hbefore⟩ := exists_first hfind
    have hlead : AddressCheck.colour.lead = c.lead :=
      Option.some.inj ((head?_of_verdict hcolour).symm.trans (head?_of_verdict hc))
    rcases eq_or_of_lead_eq hlead with rfl | ⟨_, rfl⟩ | ⟨hcontra, _⟩
    · rw [hcolour] at hc
      rw [Option.getD_some, ← Option.some.inj hc]
    · rw [hbefore .colour h] at hcolour
      cases hcolour
    · cases hcontra

end AddressCheck

/-! Operands. -/

namespace OperandForm

variable {text : List Char} {v w : Value}

/-- A form is that of numbers, that of function names, or that of a check. -/
theorem number_or_function_or_check (form : OperandForm) :
    form = .number ∨ form = .function ∨ ∃ check : AddressCheck, check.form = form := by
  cases form with
  | number => exact .inl rfl
  | function => exact .inr (.inl rfl)
  | colour => exact .inr (.inr ⟨.colour, rfl⟩)
  | counterOffset => exact .inr (.inr ⟨.counterOffset, rfl⟩)
  | label => exact .inr (.inr ⟨.label, rfl⟩)
  | shiftedLabel => exact .inr (.inr ⟨.shiftedLabel, rfl⟩)

theorem number_writes_iff : Writes .number text v ↔ ∃ x, readNumber? text = some x ∧ v = .number x := by
  constructor
  · rintro ⟨h⟩
    exact ⟨_, h, rfl⟩
  · rintro ⟨x, h, rfl⟩
    exact .number h

theorem function_writes_iff : Writes .function text v ↔
    isFunctionName text = true ∧ v = .function (String.ofList text) := by
  rw [isFunctionName_eq_true_iff]
  constructor
  · rintro (_ | _ | ⟨hne, h⟩ | _ | _ | _)
    exact ⟨⟨_, rfl, hne, h⟩, rfl⟩
  · rintro ⟨⟨rest, rfl, hne, h⟩, rfl⟩
    exact .function hne h

/-- The texts that a check accepts are no numbers: a bracket or `#` stands in them. -/
theorem readNumber?_of_check {check : AddressCheck} (h : check.form.Writes text v) :
    readNumber? text = none := by
  cases check with
  | shiftedLabel =>
    rcases h with _ | _ | _ | _ | _ | _
    exact readNumber?_eq_none (c := '[') (by simp [bracketed]) rfl
  | label =>
    rcases h with _ | _ | _ | _ | _ | _
    exact readNumber?_eq_none (c := '[') (by simp [bracketed]) rfl
  | counterOffset =>
    rcases h with _ | _ | _ | _ | _ | _
    exact readNumber?_eq_none (c := '#') (by simp) rfl
  | colour =>
    rcases h with _ | _ | _ | _ | _ | _
    exact readNumber?_eq_none (c := '#') (by simp) rfl

theorem head?_of_check {check : AddressCheck} (h : check.form.Writes text v) :
    text.head? = some check.lead :=
  AddressCheck.head?_of_verdict (AddressCheck.verdict_eq_ok_iff.mpr h)

theorem head?_of_function (h : Writes .function text v) : text.head? = some '.' := by
  rcases h with _ | _ | _ | _ | _ | _
  rfl

theorem check_not_function {check : AddressCheck} (h : check.form.Writes text v) :
    text.head? ≠ some '.' := by
  rw [head?_of_check h]
  cases check <;> decide

/-- No text has the forms of two checks. -/
theorem check_unique {c d : AddressCheck} (hc : c.form.Writes text v) (hd : d.form.Writes text w) :
    c = d := by
  have hlead : c.lead = d.lead := Option.some.inj ((head?_of_check hc).symm.trans (head?_of_check hd))
  have hpair {u u' : Value} (hcolour : AddressCheck.colour.form.Writes text u)
      (hcounter : AddressCheck.counterOffset.form.Writes text u') : False := by
    have hnone := AddressCheck.verdict_counterOffset_of_colour hcolour
    rw [AddressCheck.verdict_eq_ok_iff.mpr hcounter] at hnone
    cases hnone
  rcases AddressCheck.eq_or_of_lead_eq hlead with rfl | ⟨rfl, rfl⟩ | ⟨rfl, rfl⟩
  · rfl
  · exact (hpair hc hd).elim
  · exact (hpair hd hc).elim

/-- A text has one value in a form. Its form is the only one, unless it is both a number and a function
name. -/
theorem disjoint {form other : OperandForm} (h : form.Writes text v) (h' : other.Writes text w) :
    (form = other ∧ v = w) ∨ (form = .number ∧ other = .function) ∨
      (form = .function ∧ other = .number) := by
  -- What a check accepts is no number, since `[` or `#` stands in it, and does not start with a dot.
  rcases number_or_function_or_check form with rfl | rfl | ⟨c, rfl⟩ <;>
    rcases number_or_function_or_check other with rfl | rfl | ⟨d, rfl⟩
  · obtain ⟨x, hx, rfl⟩ := number_writes_iff.mp h
    obtain ⟨y, hy, rfl⟩ := number_writes_iff.mp h'
    rw [hx] at hy
    cases hy
    exact .inl ⟨rfl, rfl⟩
  · exact .inr (.inl ⟨rfl, rfl⟩)
  · obtain ⟨x, hx, rfl⟩ := number_writes_iff.mp h
    rw [readNumber?_of_check h'] at hx
    cases hx
  · exact .inr (.inr ⟨rfl, rfl⟩)
  · exact .inl ⟨rfl, (function_writes_iff.mp h).2.trans (function_writes_iff.mp h').2.symm⟩
  · exact absurd (head?_of_function h) (check_not_function h')
  · obtain ⟨x, hx, rfl⟩ := number_writes_iff.mp h'
    rw [readNumber?_of_check h] at hx
    cases hx
  · exact absurd (head?_of_function h') (check_not_function h)
  · have hvalue : Except.ok v = Except.ok w :=
      (AddressCheck.readAddress_of_writes h).symm.trans (AddressCheck.readAddress_of_writes h')
    exact .inl ⟨congrArg AddressCheck.form (check_unique h h'), Except.ok.inj hvalue⟩

/-- The texts that are accepted as operands, with their values: a text that is a number is no function
name. -/
theorem readOperand_eq_ok_iff : readOperand text = .ok v ↔
    ∃ form : OperandForm, form.Writes text v ∧ (form = .function → readNumber? text = none) := by
  have hcheck (hnumber : readNumber? text = none) (hdot : text.head? ≠ some '.') :
      readOperand text = readAddress text := by
    unfold readOperand
    rw [hnumber]
    exact if_neg hdot
  constructor
  · intro h
    unfold readOperand at h
    split at h
    · next x hx =>
      cases h
      exact ⟨.number, .number hx, nofun⟩
    · next hnumber =>
      split at h
      · split at h
        · next hname =>
          cases h
          exact ⟨.function, function_writes_iff.mpr ⟨hname, rfl⟩, fun _ => hnumber⟩
        · cases h
      · obtain ⟨c, hc⟩ := AddressCheck.readAddress_eq_ok_iff.mp h
        refine ⟨c.form, hc, fun _ => hnumber⟩
  · rintro ⟨form, h, hfunction⟩
    rcases number_or_function_or_check form with rfl | rfl | ⟨c, rfl⟩
    · obtain ⟨x, hx, rfl⟩ := number_writes_iff.mp h
      unfold readOperand
      rw [hx]
    · obtain ⟨hname, rfl⟩ := function_writes_iff.mp h
      unfold readOperand
      rw [hfunction rfl]
      dsimp only
      rw [if_pos (head?_of_function h), if_pos hname]
    · rw [hcheck (readNumber?_of_check h) (check_not_function h)]
      exact AddressCheck.readAddress_of_writes h

theorem isNaN_of_readOperand {x : Float} (h : readOperand text = .ok (.number x)) :
    x.isNaN = false := by
  obtain ⟨form, hwrites, _⟩ := readOperand_eq_ok_iff.mp h
  rcases hwrites with hnumber | _
  · exact isNaN_of_readNumber? hnumber
  · exact isNaN_ofNat _

end OperandForm

/-- The value of an operand when the checks after those for numbers and function names are made in
another way. -/
def readOperandWith (address : List Char → Except DecodeError Value) (text : List Char) :
    Except DecodeError Value :=
  match readNumber? text with
  | some x => .ok (.number x)
  | none =>
    if text.head? = some '.' then
      if isFunctionName text then .ok (.function (String.ofList text))
      else .error (.invalidFunctionName (String.ofList text))
    else address text

namespace AddressCheck

variable {text : List Char} {order : List AddressCheck}

theorem readOperandWith_eq_or (address : List Char → Except DecodeError Value) (text : List Char) :
    readOperandWith address text = readOperand text ∨
      (readOperandWith address text = address text ∧ readOperand text = readAddress text) := by
  unfold readOperandWith readOperand
  rcases readNumber? text with _ | x
  · dsimp only
    by_cases hdot : text.head? = some '.'
    · rw [if_pos hdot, if_pos hdot]
      exact .inl rfl
    · rw [if_neg hdot, if_neg hdot]
      exact .inr ⟨rfl, rfl⟩
  · exact .inl rfl

theorem mem_inOrder (check : AddressCheck) : check ∈ inOrder := by
  cases check <;> decide

theorem readOperandWith_inOrder (text : List Char) :
    readOperandWith (firstVerdict inOrder) text = readOperand text := by
  rcases readOperandWith_eq_or (firstVerdict inOrder) text with h | ⟨h, haddress⟩
  · exact h
  · rw [h, haddress, readAddress_eq]

theorem readOperandWith_firstAccepted (horder : ∀ check, check ∈ order) {v : Value} :
    readOperandWith (firstAccepted order) text = .ok v ↔ readOperand text = .ok v := by
  rcases readOperandWith_eq_or (firstAccepted order) text with h | ⟨h, haddress⟩
  · rw [h]
  · rw [h, haddress, firstAccepted_eq_ok_iff horder]

theorem readOperandWith_firstVerdict (horder : ∀ check, check ∈ order)
    (h : order.idxOf .counterOffset < order.idxOf .colour ∨ ¬ Contested text) :
    readOperandWith (firstVerdict order) text = readOperand text := by
  rcases readOperandWith_eq_or (firstVerdict order) text with hsame | ⟨hread, haddress⟩
  · exact hsame
  · rw [hread, haddress]
    exact firstVerdict_eq horder h

theorem readOperandWith_of_contested (horder : ∀ check, check ∈ order) (htext : Contested text)
    (h : order.idxOf .colour < order.idxOf .counterOffset) :
    readOperandWith (firstVerdict order) text = .error (.invalidColour (String.ofList text)) := by
  -- What begins with `#` is no number and no function name.
  have hread : readOperandWith (firstVerdict order) text = firstVerdict order text := by
    obtain ⟨⟨rest, rfl⟩, _⟩ := htext
    have hnumber : readNumber? ("#PC".toList ++ rest) = none :=
      readNumber?_eq_none (c := '#') (by simp) rfl
    unfold readOperandWith
    rw [hnumber]
    exact if_neg (by simp)
  rw [hread]
  exact firstVerdict_of_contested horder htext h

end AddressCheck

open AddressCheck in
/-- Operands are accepted exactly if they follow the grammar, and its alternatives do not compete. A
text has one form and one value, but a number may look like a function name. The checks that follow may
be made in another order, or each leave to the others what it does not accept, and the same texts are
accepted, with the same values; only if the check for colours is made before the one for counter
offsets it rejects what has the length of a colour. No operand is NaN. -/
theorem readOperand_follows_grammar (text : List Char) :
    (∀ v, readOperand text = .ok v ↔
      ∃ form : OperandForm, form.Writes text v ∧ (form = .function → readNumber? text = none)) ∧
    ((∃ e, readOperand text = .error e) ↔ ¬ ∃ (form : OperandForm) (v : Value), form.Writes text v) ∧
    (∀ (form other : OperandForm) (v w : Value), form.Writes text v → other.Writes text w →
      (form = other ∧ v = w) ∨ (form = .number ∧ other = .function) ∨
        (form = .function ∧ other = .number)) ∧
    readOperandWith (firstVerdict inOrder) text = readOperand text ∧
    (∀ order : List AddressCheck, order.Perm inOrder →
      (∀ v, readOperandWith (firstAccepted order) text = .ok v ↔ readOperand text = .ok v) ∧
      (order.idxOf .counterOffset < order.idxOf .colour ∨ ¬ Contested text →
        readOperandWith (firstVerdict order) text = readOperand text) ∧
      (order.idxOf .colour < order.idxOf .counterOffset → Contested text →
        readOperandWith (firstVerdict order) text = .error (.invalidColour (String.ofList text)))) ∧
    ∀ x, readOperand text = .ok (.number x) → x.isNaN = false := by
  have hreads {form : OperandForm} {v : Value} (h : form.Writes text v) :
      ∃ w, readOperand text = .ok w := by
    rcases hnumber : readNumber? text with _ | x
    · exact ⟨v, OperandForm.readOperand_eq_ok_iff.mpr ⟨form, h, fun _ => hnumber⟩⟩
    · exact ⟨.number x, OperandForm.readOperand_eq_ok_iff.mpr ⟨.number, .number hnumber, nofun⟩⟩
  refine ⟨fun v => OperandForm.readOperand_eq_ok_iff, ⟨?_, ?_⟩, fun form other v w =>
    OperandForm.disjoint, readOperandWith_inOrder text, fun order hperm => ?_, fun x =>
    OperandForm.isNaN_of_readOperand⟩
  · rintro ⟨e, he⟩ ⟨form, v, h⟩
    obtain ⟨w, hw⟩ := hreads h
    rw [he] at hw
    cases hw
  · intro hnone
    rcases hread : readOperand text with e | v
    · exact ⟨e, rfl⟩
    · obtain ⟨form, h, _⟩ := OperandForm.readOperand_eq_ok_iff.mp hread
      exact absurd ⟨form, v, h⟩ hnone
  · have horder (check : AddressCheck) : check ∈ order := hperm.mem_iff.mpr (mem_inOrder check)
    refine ⟨fun v => readOperandWith_firstAccepted horder, readOperandWith_firstVerdict horder, ?_⟩
    intro hfirst htext
    exact readOperandWith_of_contested horder htext hfirst

open AddressCheck in
/-- Two orders of the checks: with the one for counter offsets before the one for colours `#PC1234` is
read, and it is rejected the other way round. -/
theorem counter_read_before_colour :
    [counterOffset, colour, label, shiftedLabel].Perm inOrder ∧
      readOperandWith (firstVerdict [counterOffset, colour, label, shiftedLabel]) "#PC1234".toList
        = .ok (.counterOffset 1234) ∧
      [colour, counterOffset, label, shiftedLabel].Perm inOrder ∧ Contested "#PC1234".toList ∧
      readOperandWith (firstVerdict [colour, counterOffset, label, shiftedLabel]) "#PC1234".toList
        = .error (.invalidColour "#PC1234") ∧
      readOperandWith (firstAccepted [colour, counterOffset, label, shiftedLabel]) "#PC1234".toList
        = .ok (.counterOffset 1234) ∧
      (∀ (form : OperandForm) (v : Value), form.Writes "#PC1234".toList v →
        form = .counterOffset ∧ v = .counterOffset 1234) ∧
      readOperand ".5".toList = .ok (.number 0.5) ∧ Float.isNaN 0.5 = false := by
  have hlater : [counterOffset, colour, label, shiftedLabel].Perm inOrder := List.isPerm_iff.mp rfl
  have hfirst : [colour, counterOffset, label, shiftedLabel].Perm inOrder := List.isPerm_iff.mp rfl
  have htext : "#PC1234".toList = "#PC".toList ++ "1234".toList := rfl
  have hcontested : Contested "#PC1234".toList := ⟨⟨_, htext⟩, by decide +kernel⟩
  have hliteral : IntLiteral "1234".toList (1234 : Int64).toInt :=
    readInt64?_eq_some_iff.mp (by decide +kernel)
  have hwrites : OperandForm.counterOffset.Writes "#PC1234".toList (.counterOffset 1234) :=
    htext ▸ .counterOffset hliteral
  have hhalf : readOperand ".5".toList = .ok (.number 0.5) :=
    OperandForm.readOperand_eq_ok_iff.mpr ⟨.number, .number (by decide +kernel), nofun⟩
  obtain ⟨hread, _, hdisjoint, _, horders, _⟩ := readOperand_follows_grammar "#PC1234".toList
  obtain ⟨haccepted, _, hrejected⟩ := horders _ hfirst
  have hcounter : readOperand "#PC1234".toList = .ok (.counterOffset 1234) :=
    (hread _).mpr ⟨.counterOffset, hwrites, nofun⟩
  refine ⟨hlater, ?_, hfirst, hcontested, hrejected (by decide) hcontested,
    (haccepted _).mpr hcounter, fun form v h => ?_, hhalf, ?_⟩
  · rw [(horders _ hlater).2.1 (.inl (by decide)), hcounter]
  · rcases hdisjoint _ _ _ _ hwrites h with ⟨rfl, rfl⟩ | ⟨hform, _⟩ | ⟨hform, _⟩
    · exact ⟨rfl, rfl⟩
    · cases hform
    · cases hform
  · obtain ⟨_, _, _, _, _, hnumber⟩ := readOperand_follows_grammar ".5".toList
    exact hnumber _ hhalf

open AddressCheck in
/-- The order of the checks matters: a counter offset is lost where the check for colours is made
before the one for counter offsets. -/
theorem counter_lost_after_colour :
    [colour, counterOffset, label, shiftedLabel].Perm inOrder ∧
      readOperand "#PC1234".toList = .ok (.counterOffset 1234) ∧
      ¬ ∃ v, readOperandWith (firstVerdict [colour, counterOffset, label, shiftedLabel])
        "#PC1234".toList = .ok v := by
  have hread : readOperand "#PC1234".toList = .ok (.counterOffset 1234) := rfl
  have hlost : readOperandWith (firstVerdict [colour, counterOffset, label, shiftedLabel])
      "#PC1234".toList = .error (.invalidColour "#PC1234") := rfl
  refine ⟨List.isPerm_iff.mp rfl, hread, ?_⟩
  rintro ⟨v, hv⟩
  rw [hlost] at hv
  cases hv

end PixelMachine
