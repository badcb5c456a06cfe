import PixelMachine.Proofs.OperandForms
import PixelMachine.Proofs.ProgramText
import PixelMachine.Proofs.Steps

/-! Declared functions are called by name. A name that is a decimal number is that number, since numbers
come first; any other is the function's name, and pushing it pushes the function's address. -/
namespace PixelMachine

/-- Function names that are numbers: a dot with digits, and an exponent without a sign if there is
one. -/
inductive DecimalName : List Char → Prop
  | plain {digits : List Char} (h : IsDigits digits) : DecimalName ('.' :: digits)
  | scaled {digits power : List Char} {mark : Char} (hmark : mark = 'e' ∨ mark = 'E')
      (hdigits : IsDigits digits) (hpower : IsDigits power) :
      DecimalName ('.' :: (digits ++ mark :: power))

/-- A number that starts with a point has digits behind it, and an exponent behind these if there is
more. -/
theorem isSome_readFloat?_dot (rest : List Char) : (readFloat? ('.' :: rest)).isSome = true ↔
    rest.takeWhile Char.isDigit ≠ [] ∧ ∃ n, readExponent? (rest.dropWhile Char.isDigit) = some n := by
  have hread : readFloat? ('.' :: rest) =
      if (rest.takeWhile Char.isDigit).isEmpty then none
      else (readExponent? (rest.dropWhile Char.isDigit)).map fun exponent =>
        ofDecimal false (Nat.ofDigitChars 10 (rest.takeWhile Char.isDigit) 0)
          (exponent - (rest.takeWhile Char.isDigit).length) := rfl
  rw [hread]
  by_cases hempty : rest.takeWhile Char.isDigit = []
  · simp [hempty]
  · simp [hempty, Option.isSome_iff_exists]

theorem exists_readExponent?_iff {tail : List Char} :
    (∃ n, readExponent? tail = some n) ↔
      tail = [] ∨ ∃ mark power n, (mark = 'e' ∨ mark = 'E') ∧ tail = mark :: power ∧
        IntLiteral power n := by
  constructor
  · rintro ⟨n, h⟩
    unfold readExponent? at h
    split at h
    · exact .inl rfl
    · exact .inr ⟨_, _, n, .inl rfl, rfl, readInt?_eq_some_iff.mp h⟩
    · exact .inr ⟨_, _, n, .inr rfl, rfl, readInt?_eq_some_iff.mp h⟩
    · cases h
  · rintro (rfl | ⟨mark, power, n, rfl | rfl, rfl, hpower⟩)
    · exact ⟨0, rfl⟩
    · exact ⟨n, readInt?_eq_some_iff.mpr hpower⟩
    · exact ⟨n, readInt?_eq_some_iff.mpr hpower⟩

/-- An exponent without a sign is written in digits. -/
theorem isDigits_of_intLiteral {cs : List Char} {n : Int} (h : IntLiteral cs n)
    (hname : ∀ c ∈ cs, isNameChar c = true) : IsDigits cs := by
  cases h with
  | plain h => exact h
  | plus _ =>
    have hplus := hname '+' List.mem_cons_self
    cases hplus
  | minus _ =>
    have hminus := hname '-' List.mem_cons_self
    cases hminus

theorem isAlpha_of_isDigit {c : Char} (h : c.isDigit = true) : c.isAlpha = false := by
  have hdigit : c.val ≤ 57 := of_decide_eq_true (Bool.and_eq_true_iff.mp h).2
  have hnot {low : UInt32} (hlow : 57 < low) : ¬ low ≤ c.val := fun hle =>
    UInt32.lt_irrefl 57 (UInt32.lt_of_lt_of_le hlow (UInt32.le_trans hle hdigit))
  refine Bool.eq_false_iff.mpr fun halpha => ?_
  rcases Bool.or_eq_true_iff.mp halpha with hupper | hlower
  · have hlow : 65 ≤ c.val := (of_decide_eq_true hupper).1
    exact hnot (by decide) hlow
  · have hlow : 97 ≤ c.val := of_decide_eq_true (Bool.and_eq_true_iff.mp hlower).1
    exact hnot (by decide) hlow

theorem DecimalName.any_isAlpha {name : List Char} (h : DecimalName name) :
    name.any (fun c => c.isAlpha && c != 'e' && c != 'E') = false := by
  have hdigits {ds : List Char} (hds : IsDigits ds) :
      ds.any (fun c => c.isAlpha && c != 'e' && c != 'E') = false := by
    refine List.any_eq_false.mpr fun c hc => ?_
    simp [isAlpha_of_isDigit (hds.digits c hc)]
  cases h with
  | plain h => rw [List.any_cons, hdigits h]; rfl
  | scaled hmark hds hpower =>
    rw [List.any_cons, List.any_append, List.any_cons, hdigits hds, hdigits hpower]
    rcases hmark with rfl | rfl <;> rfl

theorem IsDigits.takeWhile_append {digits : List Char} (h : IsDigits digits) {tail : List Char}
    (htail : tail.takeWhile Char.isDigit = []) :
    (digits ++ tail).takeWhile Char.isDigit = digits := by
  rw [List.takeWhile_append_of_pos h.digits, htail, List.append_nil]

theorem IsDigits.dropWhile_append {digits : List Char} (h : IsDigits digits) {tail : List Char}
    (htail : tail.dropWhile Char.isDigit = tail) :
    (digits ++ tail).dropWhile Char.isDigit = tail := by
  rw [List.dropWhile_append_of_pos h.digits, htail]

theorem DecimalName.isSome_readFloat? {name : List Char} (h : DecimalName name) :
    (readFloat? name).isSome = true := by
  cases h with
  | @plain digits h =>
    rw [isSome_readFloat?_dot, exists_readExponent?_iff, ← List.append_nil digits,
      h.takeWhile_append rfl, h.dropWhile_append rfl]
    exact ⟨h.nonempty, .inl rfl⟩
  | @scaled digits power mark hmark hdigits hpower =>
    have hnondigit : mark.isDigit = false := by rcases hmark with rfl | rfl <;> rfl
    have htake : (mark :: power).takeWhile Char.isDigit = [] :=
      List.takeWhile_cons_of_neg (by simp [hnondigit])
    have hdrop : (mark :: power).dropWhile Char.isDigit = mark :: power :=
      List.dropWhile_cons_of_neg (by simp [hnondigit])
    rw [isSome_readFloat?_dot, exists_readExponent?_iff, hdigits.takeWhile_append htake,
      hdigits.dropWhile_append hdrop]
    exact ⟨hdigits.nonempty, .inr ⟨mark, power, _, hmark, rfl, .plain hpower⟩⟩

/-- Of the function names the decimal ones are numbers, and no others. -/
theorem isSome_readNumber?_iff {name : List Char} (hname : isFunctionName name = true) :
    (readNumber? name).isSome = true ↔ DecimalName name := by
  obtain ⟨rest, rfl, _, hchars⟩ := isFunctionName_eq_true_iff.mp hname
  constructor
  · intro h
    have hfloat : (readFloat? ('.' :: rest)).isSome = true := by
      unfold readNumber? at h
      split at h
      · cases h
      · exact h
    obtain ⟨hne, hexponent⟩ := (isSome_readFloat?_dot rest).mp hfloat
    have hdigits : IsDigits (rest.takeWhile Char.isDigit) :=
      ⟨hne, fun c hc => List.all_eq_true.mp List.all_takeWhile c hc⟩
    rw [← @List.takeWhile_append_dropWhile _ Char.isDigit rest]
    rcases exists_readExponent?_iff.mp hexponent with htail | ⟨mark, power, n, hmark, htail, hpower⟩
    · rw [htail, List.append_nil]
      exact .plain hdigits
    · rw [htail]
      -- No sign stands in a name, so that the exponent is digits only.
      refine .scaled hmark hdigits (isDigits_of_intLiteral hpower fun c hc => hchars c ?_)
      have hmem : c ∈ rest.dropWhile Char.isDigit := htail ▸ List.mem_cons_of_mem mark hc
      exact List.dropWhile_sublist _ |>.mem hmem
  · intro h
    unfold readNumber?
    rw [if_neg (by rw [h.any_isAlpha]; exact Bool.false_ne_true)]
    exact h.isSome_readFloat?

theorem checkFunctionName_eq_ok_iff {name : String} :
    checkFunctionName name = .ok () ↔ isFunctionName name.toList = true := by
  unfold checkFunctionName
  rcases isFunctionName name.toList with _ | _
  · simp
  · simp

/-! Decoding. -/

/-- What `push` has for an operand if that is written as a function name. -/
def namedOperand (name : String) : Value :=
  match readNumber? name.toList with
  | some x => .number x
  | none => .function name

theorem namedOperand_eq_function_iff {name : String} (h : isFunctionName name.toList = true) :
    namedOperand name = .function name ↔ ¬ DecimalName name.toList := by
  rw [← isSome_readNumber?_iff h]
  unfold namedOperand
  rcases readNumber? name.toList with _ | x
  · simp
  · simp

theorem readOperand_of_name {name : String} (h : isFunctionName name.toList = true) :
    readOperand name.toList = .ok (namedOperand name) := by
  unfold namedOperand
  rcases hnumber : readNumber? name.toList with _ | x
  · exact readOperand_function h hnumber
  · unfold readOperand
    rw [hnumber]

namespace Instruction

theorem ofLine_push {name : String} (h : isFunctionName name.toList = true) :
    ofLine ("push " ++ name) = .ok ⟨.push, some (namedOperand name)⟩ := by
  have hline : ("push " ++ name).toList = "push".toList ++ ' ' :: name.toList := by
    rw [String.toList_append]
    rfl
  have hwords : words ("push " ++ name).toList = ["push".toList, name.toList] := by
    rw [hline]
    exact (isWord_mnemonic .push).words_append (isWord_of_isFunctionName h)
  rw [ofLine_of_words hwords (Opcode.ofWord?_mnemonic .push) rfl]
  unfold withOperand
  simp only [readOperand_of_name h]

end Instruction

namespace Program

theorem instruction_of_decodeLines {done : Nat} {lines : List String} {is : List Instruction}
    (h : decodeLines done lines = .ok is) {k : Nat} {line : String} (hline : lines[k]? = some line) :
    ∃ i, Instruction.ofLine line = .ok i ∧ is[k]? = some i := by
  induction lines generalizing done is k with
  | nil => simp at hline
  | cons first lines ih =>
    unfold decodeLines at h
    split at h
    · cases h
    · next i hi =>
      split at h
      · cases h
      · next rest hrest =>
        cases h
        cases k with
        | zero =>
          cases hline
          exact ⟨i, hi, rfl⟩
        | succ k => exact ih hrest hline

/-- The instruction of a line is at the line's place. -/
theorem instruction?_of_ofLines {lines : List String} {functions : List (String × UInt64)} {p : Program}
    (h : ofLines lines functions = .ok p) {k : Nat} {line : String} (hline : lines[k]? = some line) :
    ∃ i, Instruction.ofLine line = .ok i ∧ p.instruction? k = some i := by
  unfold ofLines at h
  split at h
  · cases h
  · next is his =>
    split at h
    · cases h
    · cases h
      obtain ⟨i, hi, hk⟩ := instruction_of_decodeLines his hline
      exact ⟨i, hi, by rw [instruction?, List.getElem?_toArray, hk]⟩

end Program

namespace Machine

/-- Pushing a function pushes its address, and changes nothing but the trace besides. -/
theorem step_push_function {m : Machine} {index : Nat} {name : String} {address : UInt64}
    (hrunning : m.halted = false) (hcurrent : m.current = .ok (index, ⟨.push, some (.function name)⟩))
    (haddress : m.program.address? name = some address) :
    m.step = some (.ok (), measured { m.begun index ⟨.push, some (.function name)⟩
      (.number address.toFloat :: m.stack) with counter := m.counter + 1 }) := by
  have hplan : plan m index ⟨.push, some (.function name)⟩ m.stack
      = .ok (.next, .number address.toFloat :: m.stack) := by
    have hresolve : resolve m index (.function name) m.stack
        = .ok (.number address.toFloat, m.stack) := by
      unfold resolve
      simp only [haddress]
      rfl
    exact Operands.bind_eq_ok.mpr ⟨_, _, hresolve, rfl⟩
  exact step_eq_some_iff.mpr (.done hrunning hcurrent hplan rfl)

/-- A declared function is called by its name: unless that is a decimal number, `push` with the name is
the instruction that pushes the function, and in a program that has an address for the name it pushes
that address, as a number. -/
theorem declared_function_is_pushed (name : String) (hname : checkFunctionName name = .ok ()) :
    (Instruction.ofLine ("push " ++ name) = .ok ⟨.push, some (.function name)⟩ ↔
      ¬ DecimalName name.toList) ∧
    ∀ (lines : List String) (functions : List (String × UInt64)) (p : Program) (address : UInt64)
      (m : Machine), ¬ DecimalName name.toList → Program.ofLines lines functions = .ok p →
      p.address? name = some address → m.program = p → m.halted = false → 0 ≤ m.counter →
      lines[m.counter.toNat]? = some ("push " ++ name) →
      ∃ m', m.step = some (.ok (), m') ∧ m'.stack = .number address.toFloat :: m.stack ∧
        m'.counter = m.counter + 1 ∧ m'.frames = m.frames ∧ m'.returns = m.returns := by
  have hvalid := checkFunctionName_eq_ok_iff.mp hname
  have hdecoded := Instruction.ofLine_push hvalid
  have hfunction := namedOperand_eq_function_iff hvalid
  refine ⟨?_, fun lines functions p address m hdecimal hlines haddress hprogram hrunning hpos hline => ?_⟩
  · rw [hdecoded, ← hfunction]
    simp
  · obtain ⟨i, hi, hat⟩ := Program.instruction?_of_ofLines hlines hline
    rw [hdecoded, hfunction.mpr hdecimal] at hi
    cases hi
    rw [← hprogram] at hat haddress
    have hcurrent := current_of_instruction hpos hat
    exact ⟨_, step_push_function hrunning hcurrent haddress, rfl, rfl, rfl, rfl⟩

/-- The program that pushes its only function. -/
def pushingMain : Program := ⟨#[⟨.push, some (.function ".main")⟩], Table.ofList [(".main", 7)]⟩

theorem main_is_pushed :
    Program.ofLines ["push .main"] [(".main", 7)] = .ok pushingMain ∧
      pushingMain.address? ".main" = some 7 ∧ ¬ DecimalName ".main".toList ∧
      ∃ m', step { new .headless with program := pushingMain, halted := false } = some (.ok (), m') ∧
        m'.stack = [.number (UInt64.toFloat 7)] ∧ m'.counter = 1 := by
  have hname : checkFunctionName ".main" = .ok () := rfl
  have hlines : Program.ofLines ["push .main"] [(".main", 7)] = .ok pushingMain := rfl
  have haddress : pushingMain.address? ".main" = some 7 := by decide +kernel
  have hdecimal : ¬ DecimalName ".main".toList := by
    rw [← isSome_readNumber?_iff (by decide)]
    decide +kernel
  obtain ⟨m', hstep, hstack, hcounter, _⟩ := (declared_function_is_pushed ".main" hname).2 _ _ _ 7
    { new .headless with program := pushingMain, halted := false } hdecimal hlines haddress rfl rfl
    (by decide) rfl
  exact ⟨hlines, haddress, hdecimal, m', hstep, hstack, hcounter⟩

/-- A function may be declared with a name that is a number; `push` takes it for the number. -/
theorem half_is_not_pushed_as_function :
    checkFunctionName ".5" = .ok () ∧
      Instruction.ofLine ("push " ++ ".5") = .ok ⟨.push, some (.number 0.5)⟩ ∧
      Instruction.ofLine ("push " ++ ".5") ≠ .ok ⟨.push, some (.function ".5")⟩ ∧
      ∃ p, Program.ofLines ["push " ++ ".5"] [(".5", 7)] = .ok p ∧ p.address? ".5" = some 7 ∧
        p.instruction? 0 = some ⟨.push, some (.number 0.5)⟩ := by
  have hoperand : namedOperand ".5" = .number 0.5 := by
    have hnumber : readNumber? ".5".toList = some 0.5 := by decide +kernel
    unfold namedOperand
    rw [hnumber]
  have hline : Instruction.ofLine ("push " ++ ".5") = .ok ⟨.push, some (.number 0.5)⟩ := by
    rw [Instruction.ofLine_push rfl, hoperand]
  refine ⟨rfl, hline, fun hfunction => ?_, ⟨#[⟨.push, some (.number 0.5)⟩], Table.ofList [(".5", 7)]⟩,
    ?_, by decide +kernel, rfl⟩
  · rw [hline] at hfunction
    cases hfunction
  · unfold Program.ofLines Program.decodeLines
    rw [hline]
    rfl

end Machine

end PixelMachine
