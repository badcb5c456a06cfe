import Mathlib.Data.List.Induction
import PixelMachine.Proofs.OperandForms

/-! Literals of colours and packed colours go over into each other: a literal comes back in lower case,
a colour as itself, and no other texts and numbers have a counterpart. -/
namespace PixelMachine

/-- The hexadecimal digits of ASCII. -/
abbrev IsHexDigit (c : Char) : Prop :=
  ('0' ≤ c ∧ c ≤ '9') ∨ ('a' ≤ c ∧ c ≤ 'f') ∨ ('A' ≤ c ∧ c ≤ 'F')

theorem isSome_hexDigit?_iff {c : Char} : (hexDigit? c).isSome = true ↔ IsHexDigit c := by
  have hdecimal : c.isDigit = true ↔ '0' ≤ c ∧ c ≤ '9' := by
    simp only [Char.isDigit, Bool.and_eq_true, decide_eq_true_eq]
    rfl
  unfold hexDigit? IsHexDigit
  rw [← hdecimal]
  split
  · next h => simp [h]
  · next h =>
    split
    · next h' => simp [h']
    · next h' =>
      split
      · next h'' => simp [h'']
      · next h'' => simp [h, h', h'']

/-- A digit that is read is below sixteen, and it is written in lower case. -/
theorem digitChar_of_hexDigit? {c : Char} {d : Nat} (h : hexDigit? c = some d) :
    d < 16 ∧ Nat.digitChar d = c.toLower := by
  have hascii : ∀ n < 128, ∀ d ∈ hexDigit? (Char.ofNat n),
      d < 16 ∧ Nat.digitChar d = (Char.ofNat n).toLower := by
    decide
  have hsize : c.utf8Size = 1 := utf8Size_of_isSome_hexDigit? (by rw [h]; rfl)
  have hval : c.toNat ≤ 127 := UInt32.le_iff_toNat_le.mp (Char.utf8Size_eq_one_iff.mp hsize)
  have hc := hascii c.toNat (by omega) d
  rw [Char.ofNat_toNat] at hc
  exact hc h

theorem hexDigit?_digitChar {d : Nat} (h : d < 16) : hexDigit? (Nat.digitChar d) = some d := by
  have hall : ∀ d < 16, hexDigit? (Nat.digitChar d) = some d := by decide
  exact hall d h

/-- The last digit counts once, and those before it sixteen times. -/
theorem readHex?_concat (cs : List Char) (c : Char) :
    readHex? (cs ++ [c]) = (readHex? cs).bind fun n => (hexDigit? c).map fun d => 16 * n + d := by
  unfold readHex?
  rw [List.mapM_append]
  rcases cs.mapM hexDigit? with _ | ds
  · rfl
  · rcases hc : hexDigit? c with _ | d
    · simp [hc]
    · simp [hc, ofHexDigits, List.foldl_append]

@[simp] theorem length_hexDigits (width n : Nat) : (hexDigits width n).length = width := by
  induction width generalizing n with
  | zero => rfl
  | succ width ih => rw [hexDigits, List.length_append, ih, List.length_singleton]

/-- Digits that are written read back as what fits into them. -/
theorem readHex?_hexDigits (width n : Nat) :
    readHex? (hexDigits width n) = some (n % 16 ^ width) := by
  induction width generalizing n with
  | zero =>
    rw [Nat.pow_zero, Nat.mod_one]
    rfl
  | succ width ih =>
    have hdigit : n % 16 < 16 := Nat.mod_lt n (by decide)
    have hvalue : n % 16 ^ (width + 1) = 16 * (n / 16 % 16 ^ width) + n % 16 := by
      rw [Nat.pow_succ, Nat.mul_comm, Nat.mod_mul, Nat.add_comm]
    rw [hexDigits, readHex?_concat, ih, hexDigit?_digitChar hdigit, hvalue]
    rfl

/-- Digits that are read are written back in lower case, and as many of them. -/
theorem hexDigits_of_readHex? {cs : List Char} {n : Nat} (h : readHex? cs = some n) :
    n < 16 ^ cs.length ∧ hexDigits cs.length n = cs.map Char.toLower := by
  -- The last digit is the remainder by sixteen, and those before it are the quotient.
  induction cs using List.reverseRecOn generalizing n with
  | nil =>
    cases h
    exact ⟨by decide, rfl⟩
  | append_singleton cs c ih =>
    rw [readHex?_concat] at h
    obtain ⟨m, hm, h⟩ := Option.bind_eq_some_iff.mp h
    obtain ⟨d, hd, rfl⟩ := Option.map_eq_some_iff.mp h
    obtain ⟨hbound, hdigits⟩ := ih hm
    obtain ⟨hsmall, hchar⟩ := digitChar_of_hexDigit? hd
    have hquotient : (16 * m + d) / 16 = m := by omega
    have hremainder : (16 * m + d) % 16 = d := by omega
    rw [List.length_append, List.length_singleton, Nat.pow_succ, hexDigits, hquotient, hremainder,
      hdigits, hchar, List.map_append]
    exact ⟨by omega, rfl⟩

theorem exists_readHex?_iff {cs : List Char} :
    (∃ n, readHex? cs = some n) ↔ ∀ c ∈ cs, IsHexDigit c := by
  constructor
  · rintro ⟨n, h⟩ c hc
    exact isSome_hexDigit?_iff.mp (isSome_hexDigit?_of_mem (readHex?_eq_some_iff.mp h) c hc)
  · intro h
    induction cs using List.reverseRecOn with
    | nil => exact ⟨0, rfl⟩
    | append_singleton cs c ih =>
      obtain ⟨hfront, hlast⟩ := List.forall_mem_append.mp h
      obtain ⟨n, hn⟩ := ih hfront
      have hc := isSome_hexDigit?_iff.mpr (hlast c (List.mem_singleton_self c))
      obtain ⟨d, hd⟩ := Option.isSome_iff_exists.mp hc
      exact ⟨16 * n + d, by rw [readHex?_concat, hn, Option.bind_some, hd, Option.map_some]⟩

theorem colourText_eq_ok_iff {n : Int} {text : String} : colourText n = .ok text ↔
    (0 ≤ n ∧ n ≤ colourLimit) ∧ text = String.ofList ('#' :: hexDigits 6 n.toNat) := by
  unfold colourText
  split
  · next h => simp [h, eq_comm]
  · next h => simp [h]

/-- A literal that is read is written back in lower case. -/
theorem colourText_of_readColour {text : String} {rgb : Nat} (h : readColour text.toList = .ok rgb) :
    colourText rgb = .ok text.toLower := by
  obtain ⟨digits, htext, hlength, hhex⟩ := readColour_eq_ok_iff.mp h
  obtain ⟨hbound, hdigits⟩ := hexDigits_of_readHex? (readHex?_eq_some_iff.mpr hhex)
  rw [hlength] at hbound hdigits
  have hlower : text.toLower = String.ofList ('#' :: digits.map Char.toLower) := by
    apply String.toList_inj.mp
    change (text.map Char.toLower).toList = _
    rw [String.toList_map, htext, String.toList_ofList]
    rfl
  rw [colourText_eq_ok_iff, hlower, ← hdigits]
  refine ⟨⟨Int.natCast_nonneg rgb, ?_⟩, rfl⟩
  unfold colourLimit
  omega

/-- A colour that is written is read back; its literal is as long in bytes as in characters. -/
theorem readColour_of_colourText {n : Int} {text : String} (h : colourText n = .ok text) :
    (text.length = 7 ∧ text.utf8ByteSize = 7) ∧ readColour text.toList = .ok n.toNat := by
  obtain ⟨⟨hpos, hle⟩, rfl⟩ := colourText_eq_ok_iff.mp h
  have hbound : n.toNat % 16 ^ 6 = n.toNat := by
    unfold colourLimit at hle
    omega
  have hhex : HexLiteral (hexDigits 6 n.toNat) n.toNat := by
    rw [← readHex?_eq_some_iff, readHex?_hexDigits, hbound]
  refine ⟨⟨?_, ?_⟩, ?_⟩
  · rw [String.length_ofList, List.length_cons, length_hexDigits]
  · rw [utf8ByteSize_ofList_cons, utf8ByteSize_ofList_of_hex (isSome_hexDigit?_of_mem hhex),
      length_hexDigits]
    rfl
  · rw [String.toList_ofList, readColour_eq_ok_iff]
    exact ⟨_, rfl, length_hexDigits 6 _, hhex⟩

/-- Literals and colours go over into each other. A text is read just if it is a mark with six
hexadecimal digits, and what is read is written as that text in lower case. A number is written just if
it is a packed colour, in seven characters of one byte that are read as the number. -/
theorem colour_literals_round_trip :
    (∀ text : String, (∃ rgb, readColour text.toList = .ok rgb) ↔
      ∃ digits, text.toList = '#' :: digits ∧ digits.length = 6 ∧ ∀ c ∈ digits, IsHexDigit c) ∧
    (∀ (text : String) (rgb : Nat), readColour text.toList = .ok rgb →
      colourText rgb = .ok text.toLower) ∧
    (∀ n : Int, (∃ text, colourText n = .ok text) ↔ 0 ≤ n ∧ n ≤ 0xFFFFFF) ∧
    ∀ (n : Int) (text : String), colourText n = .ok text →
      (text.length = 7 ∧ text.utf8ByteSize = 7) ∧
        ∃ rgb : Nat, rgb = n ∧ readColour text.toList = .ok rgb := by
  refine ⟨?_, ?_, ?_, ?_⟩
  · intro text
    constructor
    · rintro ⟨rgb, h⟩
      obtain ⟨digits, htext, hlength, hhex⟩ := readColour_eq_ok_iff.mp h
      exact ⟨digits, htext, hlength, exists_readHex?_iff.mp ⟨rgb, readHex?_eq_some_iff.mpr hhex⟩⟩
    · rintro ⟨digits, htext, hlength, hhex⟩
      obtain ⟨rgb, hrgb⟩ := exists_readHex?_iff.mpr hhex
      exact ⟨rgb, readColour_eq_ok_iff.mpr ⟨digits, htext, hlength, readHex?_eq_some_iff.mp hrgb⟩⟩
  · intro text rgb h
    exact colourText_of_readColour h
  · intro n
    constructor
    · rintro ⟨text, h⟩
      exact (colourText_eq_ok_iff.mp h).1
    · intro h
      exact ⟨_, colourText_eq_ok_iff.mpr ⟨h, rfl⟩⟩
  · intro n text h
    obtain ⟨hlength, hread⟩ := readColour_of_colourText h
    obtain ⟨⟨hpos, _⟩, _⟩ := colourText_eq_ok_iff.mp h
    exact ⟨hlength, n.toNat, Int.toNat_of_nonneg hpos, hread⟩

/-- A literal in both letter cases, its colour and the literal of that. -/
theorem sky_round_trips :
    readColour "#00aBfF".toList = .ok 44031 ∧ colourText (44031 : Nat) = .ok "#00aBfF".toLower ∧
      ("#00abff".length = 7 ∧ "#00abff".utf8ByteSize = 7) ∧
      ∃ rgb : Nat, (rgb : Int) = 44031 ∧ readColour "#00abff".toList = .ok rgb := by
  obtain ⟨_, hliteral, _, hcolour⟩ := colour_literals_round_trip
  have hread : readColour "#00aBfF".toList = .ok 44031 := by decide
  have hwritten : colourText 44031 = .ok "#00abff" := by decide
  exact ⟨hread, hliteral _ _ hread, hcolour _ _ hwritten⟩

end PixelMachine
