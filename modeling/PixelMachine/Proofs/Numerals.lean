import PixelMachine.Number.Text
import PixelMachine.Program.Operand

/-! Numbers as text. What is printed of a whole number reads back as that number, and a text that reads
as a number consists of the characters of numerals. -/
namespace PixelMachine

/-- The characters of numerals. -/
def isNumeral (c : Char) : Bool :=
  c.isDigit || c == '.' || c == 'e' || c == 'E' || c == '+' || c == '-'

theorem isNumeral_of_isDigit {c : Char} (h : c.isDigit = true) : isNumeral c = true := by
  simp [isNumeral, h]

theorem isBlank_of_isNumeral {c : Char} (h : isNumeral c = true) : isBlank c = false := by
  simp only [isNumeral, Char.isDigit, Bool.or_eq_true, Bool.and_eq_true, decide_eq_true_eq,
    beq_iff_eq] at h
  rcases h with ((((⟨hlow, hhigh⟩ | rfl) | rfl) | rfl) | rfl) | rfl
  · have hlow : 48 ≤ c.toNat := hlow
    have hhigh : c.toNat ≤ 57 := hhigh
    simp only [isBlank, Bool.or_eq_false_iff, Bool.and_eq_false_iff, decide_eq_false_iff_not,
      beq_eq_false_iff_ne]
    omega
  all_goals decide

theorem readDigits?_eq_some {cs : List Char} {n : Nat} (h : readDigits? cs = some n) :
    cs ≠ [] ∧ ∀ c ∈ cs, c.isDigit = true := by
  unfold readDigits? at h
  split at h
  · next hdigits => simpa using hdigits
  · cases h

theorem readInt?_minus (ds : List Char) :
    readInt? ('-' :: ds) = (readDigits? ds).map fun (n : Nat) => -(n : Int) := by
  have hbranch : ∀ found : Option Nat,
      (do let n ← found; pure (n : Int)).map (fun n => -n) = found.map fun (n : Nat) => -(n : Int) :=
    fun found => by cases found <;> rfl
  exact hbranch (readDigits? ds)

theorem readInt?_plus (ds : List Char) :
    readInt? ('+' :: ds) = (readDigits? ds).map fun (n : Nat) => (n : Int) := by
  have hbranch : ∀ found : Option Nat,
      (do let n ← found; pure (n : Int)).map (fun n => n) = found.map fun (n : Nat) => (n : Int) :=
    fun found => by cases found <;> rfl
  exact hbranch (readDigits? ds)

/-- A text without a sign in front is digits. -/
theorem readInt?_unsigned {cs : List Char} (hminus : ∀ ds, cs ≠ '-' :: ds)
    (hplus : ∀ ds, cs ≠ '+' :: ds) :
    readInt? cs = (readDigits? cs).map fun (n : Nat) => (n : Int) := by
  unfold readInt?
  split
  · exact absurd rfl (hminus _)
  · exact absurd rfl (hplus _)
  · exact readInt?_plus cs

/-- A whole number is read from a nonempty run of numerals. -/
theorem readInt?_eq_some {cs : List Char} {n : Int} (h : readInt? cs = some n) :
    cs ≠ [] ∧ ∀ c ∈ cs, isNumeral c = true := by
  have hdigits {ds : List Char} {f : Nat → Int} (hd : (readDigits? ds).map f = some n) :
      ds ≠ [] ∧ ∀ c ∈ ds, isNumeral c = true := by
    obtain ⟨k, hk, _⟩ := Option.map_eq_some_iff.mp hd
    obtain ⟨hne, hall⟩ := readDigits?_eq_some hk
    exact ⟨hne, fun c hc => isNumeral_of_isDigit (hall c hc)⟩
  by_cases hminus : ∃ ds, cs = '-' :: ds
  · obtain ⟨ds, rfl⟩ := hminus
    rw [readInt?_minus] at h
    exact ⟨by simp, List.forall_mem_cons.mpr ⟨rfl, (hdigits h).2⟩⟩
  · by_cases hplus : ∃ ds, cs = '+' :: ds
    · obtain ⟨ds, rfl⟩ := hplus
      rw [readInt?_plus] at h
      exact ⟨by simp, List.forall_mem_cons.mpr ⟨rfl, (hdigits h).2⟩⟩
    · rw [readInt?_unsigned (fun ds hds => hminus ⟨ds, hds⟩) fun ds hds => hplus ⟨ds, hds⟩] at h
      exact hdigits h

theorem readExponent?_eq_some {cs : List Char} {n : Int} (h : readExponent? cs = some n) :
    ∀ c ∈ cs, isNumeral c = true := by
  unfold readExponent? at h
  split at h
  · simp
  · exact List.forall_mem_cons.mpr ⟨rfl, (readInt?_eq_some h).2⟩
  · exact List.forall_mem_cons.mpr ⟨rfl, (readInt?_eq_some h).2⟩
  · cases h

theorem isNumeral_of_mem_takeWhile {c : Char} {cs : List Char}
    (h : c ∈ cs.takeWhile Char.isDigit) : isNumeral c = true :=
  isNumeral_of_isDigit (List.all_eq_true.mp List.all_takeWhile c h)

theorem readMagnitude?_eq_some {negative : Bool} {cs : List Char} {x : Float}
    (h : readMagnitude? negative cs = some x) : cs ≠ [] ∧ ∀ c ∈ cs, isNumeral c = true := by
  have hsplit : cs.takeWhile Char.isDigit ++ cs.dropWhile Char.isDigit = cs :=
    List.takeWhile_append_dropWhile
  refine ⟨?_, fun c hc => ?_⟩
  · rintro rfl
    simp [readMagnitude?] at h
  · rw [← hsplit] at hc
    unfold readMagnitude? at h
    dsimp only at h
    generalize cs.dropWhile Char.isDigit = rest at h hc
    -- The digits before the point come first, then what the point or the exponent begins.
    rcases List.mem_append.mp hc with hc | hc
    · exact isNumeral_of_mem_takeWhile hc
    · split at h
      · next tail hc =>
        split at h
        · cases h
        · obtain ⟨_, hexponent, _⟩ := Option.map_eq_some_iff.mp h
          rcases List.mem_cons.mp hc with rfl | hc
          · rfl
          · rw [← @List.takeWhile_append_dropWhile _ Char.isDigit tail] at hc
            rcases List.mem_append.mp hc with hc | hc
            · exact isNumeral_of_mem_takeWhile hc
            · exact readExponent?_eq_some hexponent c hc
      · split at h
        · cases h
        · obtain ⟨_, hexponent, _⟩ := Option.map_eq_some_iff.mp h
          exact readExponent?_eq_some hexponent c hc

/-- A number is read from a nonempty run of numerals. -/
theorem readFloat?_eq_some {cs : List Char} {x : Float} (h : readFloat? cs = some x) :
    cs ≠ [] ∧ ∀ c ∈ cs, isNumeral c = true := by
  unfold readFloat? at h
  split at h
  · exact ⟨by simp, List.forall_mem_cons.mpr ⟨rfl, (readMagnitude?_eq_some h).2⟩⟩
  · exact ⟨by simp, List.forall_mem_cons.mpr ⟨rfl, (readMagnitude?_eq_some h).2⟩⟩
  · exact readMagnitude?_eq_some h

theorem readNumber?_eq_some {cs : List Char} {x : Float} (h : readNumber? cs = some x) :
    cs ≠ [] ∧ ∀ c ∈ cs, isNumeral c = true := by
  unfold readNumber? at h
  split at h
  · cases h
  · exact readFloat?_eq_some h

theorem readNumber?_eq_none {cs : List Char} {c : Char} (hc : c ∈ cs) (h : isNumeral c = false) :
    readNumber? cs = none := by
  rcases hread : readNumber? cs with _ | x
  · rfl
  · have hnumeral := (readNumber?_eq_some hread).2 c hc
    rw [h] at hnumeral
    cases hnumeral

theorem isDigit_of_mem_toDigits {n : Nat} {c : Char} (h : c ∈ Nat.toDigits 10 n) :
    c.isDigit = true :=
  Nat.isDigit_of_mem_toDigits (by omega) (by omega) h

theorem readDigits?_toDigits (n : Nat) : readDigits? (Nat.toDigits 10 n) = some n := by
  have hne : Nat.toDigits 10 n ≠ [] := Nat.toDigits_ne_nil
  have hall : (Nat.toDigits 10 n).all Char.isDigit = true :=
    List.all_eq_true.mpr fun c => isDigit_of_mem_toDigits
  unfold readDigits?
  rw [if_pos (by simp [hne, hall]), Nat.ofDigitChars_ten_toDigits]

/-- Digits without a sign. -/
theorem readInt?_toDigits (n : Nat) : readInt? (Nat.toDigits 10 n) = some (n : Int) := by
  have hsign {c : Char} (hc : c.isDigit = false) (ds : List Char) : Nat.toDigits 10 n ≠ c :: ds := by
    intro hds
    have hdigit := @isDigit_of_mem_toDigits n c (by simp [hds])
    rw [hc] at hdigit
    cases hdigit
  rw [readInt?_unsigned (hsign rfl) (hsign rfl), readDigits?_toDigits]
  rfl

theorem toList_repr_nat (n : Nat) : n.repr.toList = Nat.toDigits 10 n := by
  rw [Nat.repr_eq_ofList_toDigits, String.toList_ofList]

/-- The decimal text of a whole number: its digits, with a sign only if it is negative. -/
theorem toList_repr_int (n : Int) : n.repr.toList =
    if 0 ≤ n then Nat.toDigits 10 n.toNat else '-' :: Nat.toDigits 10 (-n).toNat := by
  rw [Int.repr_eq_if]
  split
  · exact toList_repr_nat _
  · rw [String.toList_append, toList_repr_nat]
    rfl

/-- Decimal text reads back. -/
theorem readInt?_repr (n : Int) : readInt? n.repr.toList = some n := by
  rw [toList_repr_int]
  split
  · next hpos =>
    have hvalue : ((n.toNat : Nat) : Int) = n := by omega
    rw [readInt?_toDigits, hvalue]
  · next hneg =>
    have hvalue : -(((-n).toNat : Nat) : Int) = n := by omega
    rw [readInt?_minus, readDigits?_toDigits, Option.map_some, hvalue]

theorem fitsInt64_toInt (n : Int64) : FitsInt64 n.toInt := by
  have hlow := Int64.le_toInt n
  have hhigh := Int64.toInt_lt n
  unfold FitsInt64
  omega

theorem readInt64?_of_readInt? {cs : List Char} {n : Int64} (h : readInt? cs = some n.toInt) :
    readInt64? cs = some n := by
  unfold readInt64?
  simp only [h]
  rw [if_pos (fitsInt64_toInt n), Int64.ofInt_toInt]

/-- The decimal text of a word reads back. -/
theorem readInt64?_repr (n : Int64) : readInt64? n.toInt.repr.toList = some n :=
  readInt64?_of_readInt? (readInt?_repr n.toInt)

/-- So does the text that always shows a sign. -/
theorem readInt64?_signedText (n : Int64) : readInt64? (Value.signedText n).toList = some n := by
  unfold Value.signedText
  split
  · exact readInt64?_repr n
  · next hpos =>
    have hpos : 0 ≤ n.toInt := by
      rw [Int64.lt_iff_toInt_lt] at hpos
      simpa using hpos
    have hvalue : ((n.toInt.toNat : Nat) : Int) = n.toInt := by omega
    have htext : ("+" ++ n.toInt.repr).toList = '+' :: Nat.toDigits 10 n.toInt.toNat := by
      rw [String.toList_append, toList_repr_int, if_pos hpos]
      rfl
    apply readInt64?_of_readInt?
    rw [htext, readInt?_plus, readDigits?_toDigits, Option.map_some, hvalue]

end PixelMachine
