import PixelMachine.Proofs.Cuts
import PixelMachine.Proofs.Decoding
import PixelMachine.Proofs.Numerals
import PixelMachine.Proofs.Tables

/-! Program text reads back: the lines that a program prints decode to that program, and whatever line
decodes to an instruction, the line which the instruction prints decodes to it too. -/
namespace PixelMachine

/-- A run of characters that is not split at blanks. -/
structure IsWord (cs : List Char) : Prop where
  nonempty : cs ≠ []
  solid : ∀ c ∈ cs, isBlank c = false

/-- Characters that are not blank are put to the word that is being read. -/
theorem wordsFrom_append {cs : List Char} (h : ∀ c ∈ cs, isBlank c = false) (word rest : List Char) :
    wordsFrom word (cs ++ rest) = wordsFrom (cs.reverse ++ word) rest := by
  induction cs generalizing word with
  | nil => rfl
  | cons c cs ih =>
    obtain ⟨hc, hcs⟩ := List.forall_mem_cons.mp h
    simp only [List.cons_append, wordsFrom, hc, Bool.false_eq_true, if_false, ih hcs,
      List.reverse_cons, List.append_assoc, List.nil_append]

theorem IsWord.addWord {cs : List Char} (h : IsWord cs) (rest : List (List Char)) :
    PixelMachine.addWord cs rest = cs :: rest := by
  unfold PixelMachine.addWord
  rw [if_neg (by simpa using h.nonempty)]

theorem IsWord.words_eq {cs : List Char} (h : IsWord cs) : words cs = [cs] := by
  have hend : wordsFrom cs.reverse [] = PixelMachine.addWord cs.reverse.reverse [] := rfl
  have hsolid := wordsFrom_append h.solid [] []
  rw [List.append_nil, List.append_nil] at hsolid
  rw [words, hsolid, hend, List.reverse_reverse, h.addWord]

theorem IsWord.words_append {cs ds : List Char} (hcs : IsWord cs) (hds : IsWord ds) :
    words (cs ++ ' ' :: ds) = [cs, ds] := by
  have hblank : wordsFrom cs.reverse (' ' :: ds)
      = PixelMachine.addWord cs.reverse.reverse (wordsFrom [] ds) := rfl
  have hrest : wordsFrom [] ds = [ds] := hds.words_eq
  rw [words, wordsFrom_append hcs.solid, List.append_nil, hblank, hrest, List.reverse_reverse,
    hcs.addWord]

/-! Operands. -/

theorem cellLiteral_repr (offset frame : Int64) :
    CellLiteral (offset.toInt.repr.toList ++ ':' :: frame.toInt.repr.toList) offset frame :=
  .framed (paddedLiteral_repr offset) (paddedLiteral_repr frame)

theorem readOperand_label (offset frame : Int64) :
    readOperand (Value.cellText offset frame).toList = .ok (.label offset frame) := by
  rw [toList_cellText]
  exact OperandForm.readOperand_eq_ok_iff.mpr ⟨.label, .label (cellLiteral_repr offset frame), nofun⟩

theorem toList_shiftedText (offset frame : Int64) : ("+" ++ Value.cellText offset frame).toList
    = '+' :: (Value.cellText offset frame).toList := by
  rw [String.toList_append]
  rfl

theorem readOperand_shiftedLabel (offset frame : Int64) :
    readOperand ("+" ++ Value.cellText offset frame).toList = .ok (.shiftedLabel offset frame) := by
  rw [toList_shiftedText, toList_cellText]
  exact OperandForm.readOperand_eq_ok_iff.mpr
    ⟨.shiftedLabel, .shiftedLabel (cellLiteral_repr offset frame), nofun⟩

theorem toList_counterText (offset : Int64) : ("#PC" ++ Value.signedText offset).toList
    = "#PC".toList ++ (Value.signedText offset).toList :=
  String.toList_append

theorem intLiteral_signedText (offset : Int64) :
    IntLiteral (Value.signedText offset).toList offset.toInt :=
  readInt64?_eq_some_iff.mp (readInt64?_signedText offset)

theorem readOperand_counterOffset (offset : Int64) :
    readOperand ("#PC" ++ Value.signedText offset).toList = .ok (.counterOffset offset) := by
  rw [toList_counterText]
  exact OperandForm.readOperand_eq_ok_iff.mpr
    ⟨.counterOffset, .counterOffset (intLiteral_signedText offset), nofun⟩

/-- A function name comes after the numbers. -/
theorem readOperand_function {name : String} (hname : isFunctionName name.toList = true)
    (hnumber : readNumber? name.toList = none) :
    readOperand name.toList = .ok (.function name) := by
  have hwrites : OperandForm.function.Writes name.toList (.function name) :=
    OperandForm.function_writes_iff.mpr ⟨hname, by rw [String.ofList_toList]⟩
  exact OperandForm.readOperand_eq_ok_iff.mpr ⟨.function, hwrites, fun _ => hnumber⟩

/-- The number that a number's text reads as equals it. A zero's text shows no sign. -/
def readsBackAsText (x : Float) : Bool := (readNumber? (outputNumber x).toList).any (· == x)

theorem readNumber?_of_readsBackAsText {x : Float} (h : readsBackAsText x = true) :
    ∃ y, readNumber? (outputNumber x).toList = some y ∧ (y == x) = true := by
  unfold readsBackAsText at h
  rcases hread : readNumber? (outputNumber x).toList with _ | y
  · rw [hread] at h
    cases h
  · rw [hread] at h
    exact ⟨y, rfl, h⟩

/-- The operands that program text can write. A function name must not read as a number. -/
def Value.Writable : Value → Prop
  | .number x => readsBackAsText x = true
  | .function name => isFunctionName name.toList = true ∧ readNumber? name.toList = none
  | .label _ _ | .shiftedLabel _ _ | .counterOffset _ => True
  | .array _ => False

/-- The text of a writable operand reads as the operand. Only of a number may something be lost. -/
theorem readOperand_text {v : Value} (h : v.Writable) : ∃ w, readOperand v.text.toList = .ok w ∧
    w.same v = true ∧
      ((∀ x, v = .number x → readNumber? (outputNumber x).toList = some x) → w = v) := by
  cases v with
  | number x =>
    obtain ⟨y, hread, hsame⟩ := readNumber?_of_readsBackAsText h
    refine ⟨.number y, ?_, hsame, fun hexact => ?_⟩
    · rw [Value.text, readOperand, hread]
    · have hy : some y = some x := hread.symm.trans (hexact x rfl)
      cases hy
      rfl
  | label offset frame =>
    exact ⟨_, readOperand_label offset frame, by simp [Value.same], fun _ => rfl⟩
  | shiftedLabel offset frame =>
    exact ⟨_, readOperand_shiftedLabel offset frame, by simp [Value.same], fun _ => rfl⟩
  | counterOffset offset =>
    exact ⟨_, readOperand_counterOffset offset, by simp [Value.same], fun _ => rfl⟩
  | function name =>
    refine ⟨.function name, ?_, by simp [Value.same], fun _ => rfl⟩
    rw [Value.text]
    exact readOperand_function h.1 h.2
  | array slots => exact h.elim

theorem isBlank_of_isNameChar {c : Char} (h : isNameChar c = true) : isBlank c = false := by
  delta isNameChar Char.isAlphanum Char.isAlpha Char.isUpper Char.isLower Char.isDigit at h
  simp only [Bool.or_eq_true, Bool.and_eq_true, decide_eq_true_eq, beq_iff_eq] at h
  simp only [isBlank, Bool.or_eq_false_iff, Bool.and_eq_false_iff, decide_eq_false_iff_not,
    beq_eq_false_iff_ne]
  rcases h with ((⟨hlow, hhigh⟩ | ⟨hlow, hhigh⟩) | ⟨hlow, hhigh⟩) | rfl
  · have hlow : 65 ≤ c.toNat := hlow
    have hhigh : c.toNat ≤ 90 := hhigh
    omega
  · have hlow : 97 ≤ c.toNat := hlow
    have hhigh : c.toNat ≤ 122 := hhigh
    omega
  · have hlow : 48 ≤ c.toNat := hlow
    have hhigh : c.toNat ≤ 57 := hhigh
    omega
  · decide

theorem isWord_of_isFunctionName {cs : List Char} (h : isFunctionName cs = true) : IsWord cs := by
  obtain ⟨rest, rfl, _, hchars⟩ := isFunctionName_eq_true_iff.mp h
  exact ⟨List.cons_ne_nil _ _,
    List.forall_mem_cons.mpr ⟨rfl, fun c hc => isBlank_of_isNameChar (hchars c hc)⟩⟩

theorem isWord_cellText (offset frame : Int64) : IsWord (Value.cellText offset frame).toList := by
  refine ⟨?_, cellText_solid offset frame⟩
  rw [toList_cellText]
  exact List.cons_ne_nil _ _

theorem isWord_counterText (offset : Int64) :
    IsWord ("#PC" ++ Value.signedText offset).toList := by
  rw [toList_counterText]
  have hmark : "#PC".toList = ['#', 'P', 'C'] := rfl
  rw [hmark]
  refine ⟨List.cons_ne_nil _ _, List.forall_mem_append.mpr ⟨?_, ?_⟩⟩
  · simp [isBlank]
  · exact (intLiteral_signedText offset).solid

/-- The text of a writable operand is one word of a line. -/
theorem Value.Writable.isWord {v : Value} (h : v.Writable) : IsWord v.text.toList := by
  cases v with
  | number x =>
    obtain ⟨y, hread, _⟩ := readNumber?_of_readsBackAsText h
    obtain ⟨hne, hnumeral⟩ := readNumber?_eq_some hread
    exact ⟨hne, fun c hc => isBlank_of_isNumeral (hnumeral c hc)⟩
  | label offset frame => exact isWord_cellText offset frame
  | shiftedLabel offset frame =>
    rw [Value.text, toList_shiftedText]
    exact ⟨List.cons_ne_nil _ _, List.forall_mem_cons.mpr ⟨rfl, cellText_solid offset frame⟩⟩
  | counterOffset offset => exact isWord_counterText offset
  | function name => exact isWord_of_isFunctionName h.1
  | array slots => exact h.elim

/-! Instructions. -/

theorem isWord_mnemonic (op : Opcode) : IsWord op.mnemonic.toList := by
  have hsolid : op.mnemonic.toList.all (fun c => !isBlank c) = true := by
    cases op <;> rfl
  refine ⟨?_, fun c hc => ?_⟩
  · cases op <;> decide
  · simpa using List.all_eq_true.mp hsolid c hc

theorem Opcode.ofWord?_mnemonic (op : Opcode) : ofWord? op.mnemonic.toList = some op := by
  cases op <;> rfl

theorem Opcode.takesOperand_iff {op : Opcode} :
    op.takesOperand = true ↔ op = .push ∨ op = .pusha := by
  cases op <;> decide

namespace Instruction

/-- Instructions that program text can write. -/
structure WellFormed (i : Instruction) : Prop where
  operand : i.operand.isSome = true ↔ i.opcode = .push ∨ i.opcode = .pusha
  location : i.opcode = .pusha → ∃ offset frame, i.operand = some (.label offset frame)
  writable : i.opcode = .push → ∀ v, i.operand = some v → v.Writable

theorem WellFormed.takesOperand {i : Instruction} (h : i.WellFormed) :
    i.opcode.takesOperand = i.operand.isSome := by
  rw [Bool.eq_iff_iff, Opcode.takesOperand_iff]
  exact h.operand.symm

theorem WellFormed.writable_operand {i : Instruction} (h : i.WellFormed) {v : Value}
    (hv : i.operand = some v) : v.Writable := by
  rcases h.operand.mp (by rw [hv]; rfl) with hop | hop
  · exact h.writable hop v hv
  · obtain ⟨offset, frame, hlabel⟩ := h.location hop
    rw [hv] at hlabel
    cases hlabel
    trivial

theorem wellFormed_push {v : Value} (h : v.Writable) : WellFormed ⟨.push, some v⟩ where
  operand := by simp
  location := nofun
  writable _ w hw := by
    cases hw
    exact h

theorem wellFormed_pusha (offset frame : Int64) :
    WellFormed ⟨.pusha, some (.label offset frame)⟩ where
  operand := by simp
  location _ := ⟨offset, frame, rfl⟩
  writable := nofun

theorem wellFormed_plain {op : Opcode} (h : op.takesOperand = false) : WellFormed ⟨op, none⟩ where
  operand := by simp [← Opcode.takesOperand_iff, h]
  location hop := by
    cases hop
    cases h
  writable _ := nofun

/-- Instructions are the same as the program sees them: numbers compare as floats do. -/
def same (i j : Instruction) : Bool :=
  i.opcode == j.opcode && match i.operand, j.operand with
    | none, none => true
    | some v, some w => v.same w
    | _, _ => false

/-- The number of the operand, if it is one, is read from its text in every bit. -/
def ExactText (i : Instruction) : Prop :=
  ∀ x, i.operand = some (.number x) → readNumber? (outputNumber x).toList = some x

theorem toList_text {op : Opcode} {v : Value} :
    (text ⟨op, some v⟩).toList = op.mnemonic.toList ++ ' ' :: v.text.toList := by
  rw [text, String.toList_append, String.toList_append, List.append_assoc]
  rfl

/-- A word for an opcode and a word for its operand, as `withOperand` reads them. -/
theorem ofLine_of_words {line : String} {head operand : List Char} {op : Opcode}
    (hline : words line.toList = [head, operand]) (hop : Opcode.ofWord? head = some op)
    (htakes : op.takesOperand = true) : ofLine line = withOperand op operand := by
  unfold ofLine
  simp only [hline, hop, htakes, if_true]

/-- The line that a well-formed instruction prints decodes to the instruction. -/
theorem ofLine_text {i : Instruction} (h : i.WellFormed) :
    ∃ j, ofLine i.text = .ok j ∧ j.same i = true ∧ (i.ExactText → j = i) := by
  obtain ⟨op, operand⟩ := i
  have htakes : op.takesOperand = operand.isSome := h.takesOperand
  cases operand with
  | none =>
    refine ⟨⟨op, none⟩, ?_, by simp [same], fun _ => rfl⟩
    have hwords : words op.mnemonic.toList = [op.mnemonic.toList] := (isWord_mnemonic op).words_eq
    unfold ofLine text
    simp only [hwords, Opcode.ofWord?_mnemonic, htakes, Option.isSome_none, Bool.false_eq_true,
      if_false]
  | some v =>
    have hv : v.Writable := h.writable_operand rfl
    obtain ⟨w, hread, hsame, hexact⟩ := readOperand_text hv
    have hwords : words (text ⟨op, some v⟩).toList = [op.mnemonic.toList, v.text.toList] := by
      rw [toList_text, (isWord_mnemonic op).words_append hv.isWord]
    have hline := ofLine_of_words hwords (Opcode.ofWord?_mnemonic op) htakes
    refine ⟨⟨op, some w⟩, ?_, by simp [same, hsame], fun hnumber => ?_⟩
    · rw [hline]
      rcases h.operand.mp rfl with hop | hop
      · have hop : op = .push := hop
        subst hop
        simp only [withOperand, hread]
      · have hop : op = .pusha := hop
        subst hop
        obtain ⟨offset, frame, hlabel⟩ := h.location rfl
        have hlabel : some v = some (.label offset frame) := hlabel
        cases hlabel
        have hw : w = .label offset frame := hexact nofun
        subst hw
        simp only [withOperand, hread]
    · have hw : w = v := hexact fun x hx => hnumber x (by rw [hx])
      rw [hw]

end Instruction

/-! Lines. -/

/-- Every operand that is read and is no number can be written. -/
theorem writable_of_readOperand {text : List Char} {v : Value} (h : readOperand text = .ok v)
    (hnumber : ∀ x, v ≠ .number x) : v.Writable := by
  obtain ⟨form, hwrites, hfunction⟩ := OperandForm.readOperand_eq_ok_iff.mp h
  cases hwrites with
  | number | colour => exact absurd rfl (hnumber _)
  | @function rest hne hchars =>
    have htext : (String.ofList ('.' :: rest)).toList = '.' :: rest := String.toList_ofList
    change isFunctionName (String.ofList ('.' :: rest)).toList = true
      ∧ readNumber? (String.ofList ('.' :: rest)).toList = none
    rw [htext]
    exact ⟨isFunctionName_eq_true_iff.mpr ⟨rest, rfl, hne, hchars⟩, hfunction rfl⟩
  | counterOffset | label | shiftedLabel => trivial

namespace Instruction

theorem withOperand_eq_ok {op : Opcode} {text : List Char} {i : Instruction}
    (h : withOperand op text = .ok i) : ∃ v, i = ⟨op, some v⟩ ∧ readOperand text = .ok v := by
  unfold withOperand at h
  split at h
  · next hread =>
    cases h
    exact ⟨_, rfl, hread⟩
  · cases h
  · next hread =>
    cases h
    exact ⟨_, rfl, hread⟩
  · cases h

/-- A line has an opcode in front, and its operand behind it if it takes one. -/
theorem ofLine_eq_ok {line : String} {i : Instruction} (h : ofLine line = .ok i) :
    (i.opcode.takesOperand = false ∧ i.operand = none) ∨
    (i.opcode.takesOperand = true ∧ ∃ v text, i.operand = some v ∧ readOperand text = .ok v) := by
  unfold ofLine at h
  split at h
  · cases h
  · split at h
    · cases h
    · split at h
      · next htakes =>
        split at h
        · cases h
        · obtain ⟨v, rfl, hread⟩ := withOperand_eq_ok h
          exact .inr ⟨htakes, v, _, rfl, hread⟩
        · cases h
      · next htakes =>
        split at h
        · cases h
          exact .inl ⟨by simpa using htakes, rfl⟩
        · cases h

theorem isSome_operand_of_ofLine {line : String} {i : Instruction} (h : ofLine line = .ok i) :
    i.operand.isSome = true ↔ i.opcode = .push ∨ i.opcode = .pusha := by
  rw [← Opcode.takesOperand_iff]
  rcases ofLine_eq_ok h with ⟨htakes, hnone⟩ | ⟨htakes, v, _, hv, _⟩
  · simp [htakes, hnone]
  · simp [htakes, hv]

/-- An instruction that a line writes can be written again, unless its operand is a number. -/
theorem wellFormed_of_ofLine {line : String} {i : Instruction} (h : ofLine line = .ok i)
    (hnumber : ∀ x, i.operand ≠ some (.number x)) : i.WellFormed := by
  refine ⟨isSome_operand_of_ofLine h, (written_of_ofLine h).pusha, fun _ v hv => ?_⟩
  rcases ofLine_eq_ok h with ⟨_, hnone⟩ | ⟨_, w, text, hw, hread⟩
  · rw [hnone] at hv
    cases hv
  · have hvw : some w = some v := hw.symm.trans hv
    cases hvw
    exact writable_of_readOperand hread fun x hx => hnumber x (by rw [hw, hx])

/-- Lines of the same words, the letter case of the first one apart. -/
def SameWords (line line' : String) : Prop :=
  ∃ head head' operands, words line.toList = head :: operands ∧
    words line'.toList = head' :: operands ∧ head.map Char.toLower = head'.map Char.toLower

theorem ofLine_of_sameWords {line line' : String} {i : Instruction} (h : ofLine line = .ok i)
    (hwords : SameWords line line') : ofLine line' = .ok i := by
  obtain ⟨head, head', operands, hline, hline', hcase⟩ := hwords
  have hop : Opcode.ofWord? head' = Opcode.ofWord? head := by
    unfold Opcode.ofWord?
    rw [hcase]
  unfold ofLine at h ⊢
  rw [hline']
  rw [hline] at h
  dsimp only at h ⊢
  rw [hop]
  rcases hfound : Opcode.ofWord? head with _ | op
  · rw [hfound] at h
    cases h
  · rw [hfound] at h
    exact h

end Instruction

namespace Program

/-- The lines that a program prints. -/
def lines (p : Program) : List String := p.instructions.toList.map Instruction.text

/-- Programs are the same as they see themselves: numbers compare as floats do. -/
structure Same (p q : Program) : Prop where
  instructions : p.instructions.toList.isEqv q.instructions.toList Instruction.same = true
  functions : p.functions = q.functions

theorem decodeLines_text {is : List Instruction} (h : ∀ i ∈ is, i.WellFormed) (done : Nat) :
    ∃ js, decodeLines done (is.map Instruction.text) = .ok js ∧
      js.isEqv is Instruction.same = true ∧ ((∀ i ∈ is, i.ExactText) → js = is) := by
  induction is generalizing done with
  | nil => exact ⟨[], rfl, rfl, fun _ => rfl⟩
  | cons i is ih =>
    obtain ⟨hi, his⟩ := List.forall_mem_cons.mp h
    obtain ⟨j, hj, hsame, hexact⟩ := Instruction.ofLine_text hi
    obtain ⟨js, hjs, hsames, hexacts⟩ := ih his (done + 1)
    refine ⟨j :: js, ?_, ?_, fun hall => ?_⟩
    · simp only [List.map_cons, decodeLines, hj, hjs]
    · rw [List.isEqv, hsame, hsames, Bool.and_self]
    · obtain ⟨hi, his⟩ := List.forall_mem_cons.mp hall
      rw [hexact hi, hexacts his]

theorem checkNames_eq_ok {es : List (String × UInt64)}
    (h : ∀ e ∈ es, checkFunctionName e.1 = .ok ()) : checkNames es = .ok () := by
  induction es with
  | nil => rfl
  | cons e es ih =>
    obtain ⟨he, hes⟩ := List.forall_mem_cons.mp h
    simp only [checkNames, he, ih hes]

/-- Program text reads back. The lines and the function table of a well-formed program give the
program; only the sign of a zero may be lost. An instruction that a line decodes to has the operand it
needs, does not depend on the case of the mnemonic or the amount of blanks, and is what its own text
decodes to. -/
theorem text_readsBack :
    (∀ p : Program, (∀ i ∈ p.instructions, i.WellFormed) →
      (∀ e ∈ p.functions.entries, checkFunctionName e.1 = .ok ()) →
      ∃ q, ofLines p.lines p.functions.entries = .ok q ∧ q.Same p ∧
        ((∀ i ∈ p.instructions, i.ExactText) → q = p)) ∧
    (∀ line i, Instruction.ofLine line = .ok i →
      (i.operand.isSome = true ↔ i.opcode = .push ∨ i.opcode = .pusha) ∧
      (i.opcode = .pusha → ∃ offset frame, i.operand = some (.label offset frame)) ∧
      (∀ slots, i.operand ≠ some (.array slots)) ∧
      ((∀ x, i.operand ≠ some (.number x)) → Instruction.ofLine i.text = .ok i) ∧
      ∀ line', Instruction.SameWords line line' → Instruction.ofLine line' = .ok i) := by
  constructor
  · intro p hinstructions hnames
    have hlist : ∀ i ∈ p.instructions.toList, i.WellFormed :=
      fun i hi => hinstructions i (Array.mem_toList_iff.mp hi)
    obtain ⟨js, hjs, hsame, hexact⟩ := decodeLines_text hlist 0
    refine ⟨⟨js.toArray, Table.ofList p.functions.entries⟩, ?_, ⟨?_, ?_⟩, fun hall => ?_⟩
    · rw [lines, ofLines, hjs, checkNames_eq_ok hnames]
    · simpa using hsame
    · exact Table.ofList_entries p.functions
    · have hjs : js = p.instructions.toList :=
        hexact fun i hi => hall i (Array.mem_toList_iff.mp hi)
      rw [hjs, Array.toArray_toList, Table.ofList_entries]
  · intro line i h
    have hwritten := Instruction.written_of_ofLine h
    refine ⟨Instruction.isSome_operand_of_ofLine h, hwritten.pusha, ?_, ?_, ?_⟩
    · intro slots hslots
      exact hwritten.noArray _ hslots rfl
    · intro hnumber
      have hwell := Instruction.wellFormed_of_ofLine h hnumber
      obtain ⟨j, hj, _, hexact⟩ := Instruction.ofLine_text hwell
      have hji : j = i := hexact fun x hx => absurd hx (hnumber x)
      rw [hj, hji]
    · intro line' hwords
      exact Instruction.ofLine_of_sameWords h hwords

/-- A program with an operand of every kind that program text has. -/
def everyOperand : Program :=
  ⟨#[⟨.push, some (.number 0.1)⟩, ⟨.push, some (.label Int64.minValue 1)⟩,
    ⟨.push, some (.shiftedLabel 2 (-3))⟩, ⟨.push, some (.counterOffset 4)⟩,
    ⟨.push, some (.function ".main")⟩, ⟨.pusha, some (.label 0 0)⟩, ⟨.halt, none⟩],
    Table.ofList [(".main", 0)]⟩

theorem wellFormed_everyOperand : ∀ i ∈ everyOperand.instructions, i.WellFormed := by
  intro i hi
  have hpush {v : Value} (hv : v.Writable) : Instruction.WellFormed ⟨.push, some v⟩ :=
    Instruction.wellFormed_push hv
  simp only [everyOperand, List.mem_toArray, List.mem_cons, List.not_mem_nil, or_false] at hi
  rcases hi with rfl | rfl | rfl | rfl | rfl | rfl | rfl
  · exact hpush (show readsBackAsText 0.1 = true by decide +kernel)
  · exact hpush trivial
  · exact hpush trivial
  · exact hpush trivial
  · exact hpush (show isFunctionName ".main".toList = true ∧ readNumber? ".main".toList = none from
      ⟨by decide, rfl⟩)
  · exact Instruction.wellFormed_pusha 0 0
  · exact Instruction.wellFormed_plain rfl

theorem text_readsBack_everyOperand :
    (∀ i ∈ everyOperand.instructions, i.WellFormed) ∧
    (∀ e ∈ everyOperand.functions.entries, checkFunctionName e.1 = .ok ()) ∧
    (∃ q, ofLines everyOperand.lines everyOperand.functions.entries = .ok q ∧ q.Same everyOperand) ∧
    Instruction.ofLine " PuSh\t.main " = .ok ⟨.push, some (.function ".main")⟩ ∧
    Instruction.SameWords " PuSh\t.main " "push .main" ∧
    Instruction.ofLine "push .main" = .ok ⟨.push, some (.function ".main")⟩ := by
  have hnames : ∀ e ∈ everyOperand.functions.entries, checkFunctionName e.1 = .ok () := by
    intro e he
    cases List.mem_singleton.mp he
    rfl
  have hline : Instruction.ofLine " PuSh\t.main " = .ok ⟨.push, some (.function ".main")⟩ := rfl
  have hwords : Instruction.SameWords " PuSh\t.main " "push .main" :=
    ⟨_, _, _, rfl, rfl, by decide⟩
  obtain ⟨q, hq, hsame, _⟩ := text_readsBack.1 everyOperand wellFormed_everyOperand hnames
  obtain ⟨_, _, _, _, hcase⟩ := text_readsBack.2 _ _ hline
  exact ⟨wellFormed_everyOperand, hnames, ⟨q, hq, hsame⟩, hline, hwords, hcase _ hwords⟩

end Program

end PixelMachine
