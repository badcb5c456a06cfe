import PixelMachine.Proofs.Cuts
import PixelMachine.Proofs.Numerals

/-! The literals of whole numbers: which texts they are, and that exactly these are read, with or
without blanks around them. -/
namespace PixelMachine

/-- A nonempty run of decimal digits. -/
structure IsDigits (cs : List Char) : Prop where
  nonempty : cs ≠ []
  digits : ∀ c ∈ cs, c.isDigit = true

/-- The literals of a whole number: decimal digits with an optional sign. -/
inductive IntLiteral : List Char → Int → Prop
  | plain {ds : List Char} (h : IsDigits ds) : IntLiteral ds (Nat.ofDigitChars 10 ds 0 : Nat)
  | plus {ds : List Char} (h : IsDigits ds) :
      IntLiteral ('+' :: ds) (Nat.ofDigitChars 10 ds 0 : Nat)
  | minus {ds : List Char} (h : IsDigits ds) :
      IntLiteral ('-' :: ds) (-(Nat.ofDigitChars 10 ds 0 : Nat))

/-- A literal in the range of a 64-bit word, with blanks around it. -/
def PaddedLiteral (text : List Char) (n : Int64) : Prop :=
  ∃ left literal right, text = left ++ (literal ++ right) ∧ AllBlank left ∧
    IntLiteral literal n.toInt ∧ AllBlank right

/-- The characters of literals and of the blanks around them. -/
def isPadded (c : Char) : Bool := isBlank c || c.isDigit || c == '+' || c == '-'

theorem readDigits?_eq_some_iff {cs : List Char} {n : Nat} :
    readDigits? cs = some n ↔ IsDigits cs ∧ Nat.ofDigitChars 10 cs 0 = n := by
  constructor
  · intro h
    obtain ⟨hne, hdigits⟩ := readDigits?_eq_some h
    have hall : (!cs.isEmpty && cs.all Char.isDigit) = true := by
      simpa [hne] using hdigits
    rw [readDigits?, if_pos hall] at h
    exact ⟨⟨hne, hdigits⟩, Option.some.inj h⟩
  · rintro ⟨⟨hne, hdigits⟩, rfl⟩
    have hall : (!cs.isEmpty && cs.all Char.isDigit) = true := by
      simpa [hne] using hdigits
    rw [readDigits?, if_pos hall]

theorem IsDigits.readDigits? {cs : List Char} (h : IsDigits cs) :
    readDigits? cs = some (Nat.ofDigitChars 10 cs 0) :=
  readDigits?_eq_some_iff.mpr ⟨h, rfl⟩

/-- Digits do not start with a sign. -/
theorem IsDigits.ne_cons {cs : List Char} (h : IsDigits cs) {c : Char} (hc : c.isDigit = false)
    (ds : List Char) : cs ≠ c :: ds := by
  rintro rfl
  have hdigit := h.digits c List.mem_cons_self
  rw [hc] at hdigit
  cases hdigit

/-- Whole numbers are read from their literals, and from nothing else. -/
theorem readInt?_eq_some_iff {cs : List Char} {n : Int} : readInt? cs = some n ↔ IntLiteral cs n := by
  constructor
  · intro h
    by_cases hminus : ∃ ds, cs = '-' :: ds
    · obtain ⟨ds, rfl⟩ := hminus
      rw [readInt?_minus] at h
      obtain ⟨k, hk, rfl⟩ := Option.map_eq_some_iff.mp h
      obtain ⟨hdigits, rfl⟩ := readDigits?_eq_some_iff.mp hk
      exact .minus hdigits
    · by_cases hplus : ∃ ds, cs = '+' :: ds
      · obtain ⟨ds, rfl⟩ := hplus
        rw [readInt?_plus] at h
        obtain ⟨k, hk, rfl⟩ := Option.map_eq_some_iff.mp h
        obtain ⟨hdigits, rfl⟩ := readDigits?_eq_some_iff.mp hk
        exact .plus hdigits
      · rw [readInt?_unsigned (fun ds hds => hminus ⟨ds, hds⟩) fun ds hds => hplus ⟨ds, hds⟩] at h
        obtain ⟨k, hk, rfl⟩ := Option.map_eq_some_iff.mp h
        obtain ⟨hdigits, rfl⟩ := readDigits?_eq_some_iff.mp hk
        exact .plain hdigits
  · intro h
    cases h with
    | plain h => rw [readInt?_unsigned (h.ne_cons rfl) (h.ne_cons rfl), h.readDigits?, Option.map_some]
    | plus h => rw [readInt?_plus, h.readDigits?, Option.map_some]
    | minus h => rw [readInt?_minus, h.readDigits?, Option.map_some]

theorem readInt64?_eq_some_iff {cs : List Char} {n : Int64} :
    readInt64? cs = some n ↔ IntLiteral cs n.toInt := by
  rw [← readInt?_eq_some_iff]
  constructor
  · intro h
    unfold readInt64? at h
    split at h
    · next k hk =>
      split at h
      · next hfits =>
        have hvalue : (Int64.ofInt k).toInt = k := Int64.toInt_ofInt_of_le hfits.1 hfits.2
        cases h
        rw [hvalue]
        exact hk
      · cases h
    · cases h
  · exact readInt64?_of_readInt?

/-- The digits and the sign of a literal. -/
theorem IntLiteral.chars {cs : List Char} {n : Int} (h : IntLiteral cs n) :
    ∀ c ∈ cs, c.isDigit = true ∨ c = '+' ∨ c = '-' := by
  cases h with
  | plain h => exact fun c hc => .inl (h.digits c hc)
  | plus h => exact List.forall_mem_cons.mpr ⟨.inr (.inl rfl), fun c hc => .inl (h.digits c hc)⟩
  | minus h => exact List.forall_mem_cons.mpr ⟨.inr (.inr rfl), fun c hc => .inl (h.digits c hc)⟩

theorem IntLiteral.solid {cs : List Char} {n : Int} (h : IntLiteral cs n) :
    ∀ c ∈ cs, isBlank c = false := by
  intro c hc
  rcases h.chars c hc with hdigit | rfl | rfl
  · exact isBlank_of_isNumeral (isNumeral_of_isDigit hdigit)
  · rfl
  · rfl

theorem IntLiteral.ne_nil {cs : List Char} {n : Int} (h : IntLiteral cs n) : cs ≠ [] := by
  cases h with
  | plain h => exact h.nonempty
  | plus h | minus h => exact List.cons_ne_nil _ _

/-- The text that is printed of a whole number is one of its literals. -/
theorem intLiteral_repr (n : Int) : IntLiteral n.repr.toList n :=
  readInt?_eq_some_iff.mp (readInt?_repr n)

/-- Trimmed text is read if it is a literal with blanks around it. -/
theorem readInt64?_trimBlanks_iff {text : List Char} {n : Int64} :
    readInt64? (trimBlanks text) = some n ↔ PaddedLiteral text n := by
  rw [readInt64?_eq_some_iff]
  constructor
  · intro h
    obtain ⟨left, right, htext, hleft, hright⟩ := exists_eq_append_trimBlanks text
    exact ⟨left, trimBlanks text, right, htext, hleft, h, hright⟩
  · rintro ⟨left, literal, right, rfl, hleft, hliteral, hright⟩
    rw [trimBlanks_append hleft hliteral.solid hright]
    exact hliteral

theorem paddedLiteral_repr (n : Int64) : PaddedLiteral n.toInt.repr.toList n := by
  refine ⟨[], n.toInt.repr.toList, [], ?_, nofun, intLiteral_repr n.toInt, nofun⟩
  rw [List.append_nil, List.nil_append]

namespace PaddedLiteral

variable {text : List Char} {n : Int64}

/-- Other characters do not stand in a literal or in the blanks around it. -/
theorem not_mem (h : PaddedLiteral text n) {c : Char} (hc : isPadded c = false) : c ∉ text := by
  obtain ⟨left, literal, right, rfl, hleft, hliteral, hright⟩ := h
  have hpadded : ∀ d ∈ left ++ (literal ++ right), isPadded d = true := by
    intro d hd
    simp only [List.mem_append] at hd
    rcases hd with hd | hd | hd
    · simp [isPadded, hleft d hd]
    · rcases hliteral.chars d hd with hdigit | rfl | rfl
      · simp [isPadded, hdigit]
      · rfl
      · rfl
    · simp [isPadded, hright d hd]
  intro hmem
  rw [hpadded c hmem] at hc
  cases hc

/-- A literal is not all blanks. -/
theorem isEmpty_trimBlanks (h : PaddedLiteral text n) : (trimBlanks text).isEmpty = false := by
  rw [← readInt64?_trimBlanks_iff, readInt64?_eq_some_iff] at h
  exact List.isEmpty_eq_false_iff.mpr h.ne_nil

end PaddedLiteral

/-! Cells. -/

theorem toList_cellText (offset frame : Int64) : (Value.cellText offset frame).toList
    = bracketed (offset.toInt.repr.toList ++ ':' :: frame.toInt.repr.toList) := by
  simp [Value.cellText, bracketed, String.toList_append]

theorem cellText_solid (offset frame : Int64) :
    ∀ c ∈ (Value.cellText offset frame).toList, isBlank c = false := by
  have hsolid (n : Int64) : ∀ c ∈ n.toInt.repr.toList, isBlank c = false :=
    (intLiteral_repr n.toInt).solid
  rw [toList_cellText]
  exact bracketed_solid <|
    List.forall_mem_append.mpr ⟨hsolid offset, List.forall_mem_cons.mpr ⟨rfl, hsolid frame⟩⟩

end PixelMachine
