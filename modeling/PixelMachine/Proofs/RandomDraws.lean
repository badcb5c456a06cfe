import Mathlib.Data.Rat.Floor
import Mathlib.Tactic.Linarith
import PixelMachine.Proofs.Steps
import PixelMachine.Screen.Scalar

/-! Random whole numbers. In exact arithmetic every draw is below its bound, and it is negative only for
bounds below one half, when a sample is large enough. -/
namespace PixelMachine

namespace Scalar

variable {α : Type} [Scalar α] [LT α] [DecidableLT α]

/-- What `irnd` pushes for a sample; it takes no bounds but those above zero. -/
def draw? (sample bound : α) : Option α :=
  if ofNat 0 < bound then some (draw sample bound) else none

end Scalar

/-! Exact arithmetic. -/

section

variable {sample bound : ℚ}

theorem draw?_rat (sample bound : ℚ) : Scalar.draw? sample bound =
    if 0 < bound then some (⌊sample * (bound - 1) + 1 / 2⌋ : ℚ) else none := rfl

/-- The scaled sample lies above minus one, and below the bound by more than the half that rounding
adds, unless it is not positive. -/
theorem scaled_sample_bounds (hpos : 0 ≤ sample) (hlt : sample < 1) (hbound : 0 < bound) :
    -1 < sample * (bound - 1) ∧ (sample * (bound - 1) ≤ 0 ∨ sample * (bound - 1) + 1 / 2 < bound) := by
  constructor
  · have hsample : sample * bound ≥ 0 := mul_nonneg hpos hbound.le
    linarith
  · rcases le_or_gt bound 1 with hle | hgt
    · exact .inl (mul_nonpos_of_nonneg_of_nonpos hpos (by linarith))
    · have hscaled : sample * (bound - 1) ≤ 1 * (bound - 1) :=
        mul_le_mul_of_nonneg_right hlt.le (by linarith)
      exact .inr (by linarith)

theorem floor_lt_bound (hpos : 0 ≤ sample) (hlt : sample < 1) (hbound : 0 < bound) :
    (⌊sample * (bound - 1) + 1 / 2⌋ : ℚ) < bound := by
  obtain ⟨_, hsmall | hbelow⟩ := scaled_sample_bounds hpos hlt hbound
  · -- Rounding adds less than one to a number that is not positive.
    have hfloor : ⌊sample * (bound - 1) + 1 / 2⌋ < 1 := by
      rw [Int.floor_lt]
      push_cast
      linarith
    have hle : (⌊sample * (bound - 1) + 1 / 2⌋ : ℚ) ≤ 0 := by exact_mod_cast Int.lt_add_one_iff.mp hfloor
    exact hle.trans_lt hbound
  · exact (Int.floor_le _).trans_lt hbelow

theorem neg_one_le_floor (hpos : 0 ≤ sample) (hlt : sample < 1) (hbound : 0 < bound) :
    -1 ≤ ⌊sample * (bound - 1) + 1 / 2⌋ := by
  obtain ⟨hlow, _⟩ := scaled_sample_bounds hpos hlt hbound
  rw [Int.le_floor]
  push_cast
  linarith

/-- A draw is negative if what the bound lacks to one takes more than one half of the sample's scale. -/
theorem floor_nonneg_iff :
    0 ≤ ⌊sample * (bound - 1) + 1 / 2⌋ ↔ sample * (1 - bound) ≤ 1 / 2 := by
  have hflip : sample * (bound - 1) = -(sample * (1 - bound)) := by
    rw [← mul_neg, neg_sub]
  rw [Int.floor_nonneg, hflip]
  constructor
  · intro h
    linarith
  · intro h
    linarith

theorem lack_le_half (hpos : 0 ≤ sample) (hlt : sample < 1) (hhalf : 1 / 2 ≤ bound) :
    sample * (1 - bound) ≤ 1 / 2 := by
  have hscaled : sample * (1 - bound) ≤ sample * (1 / 2) :=
    mul_le_mul_of_nonneg_left (by linarith) hpos
  linarith

end

namespace Machine

/-- The next step replaces a bound by what `draw?` gives for it and the next sample of the random
source, or fails and takes no sample where that gives nothing. -/
def DrawsBelow (m : Machine) (bound : Float) (rest : List Value) : Prop :=
  match Scalar.draw? m.random.sample.1 bound with
  | some r => ∃ m', m.step = some (.ok (), m') ∧ m'.stack = .number r :: rest ∧
      m'.random = m.random.sample.2
  | none => ∃ m', m.step = some (.error (.randomBound bound), m') ∧ m'.stack = rest ∧
      m'.random = m.random

theorem drawsBelow_of_irnd {m : Machine} {index : Nat} {operand : Option Value} {bound : Float}
    {rest : List Value} (hrunning : m.halted = false)
    (hcurrent : m.current = .ok (index, ⟨.irnd, operand⟩)) (hstack : m.stack = .number bound :: rest) :
    m.DrawsBelow bound rest := by
  have hzero : (Scalar.ofNat 0 : Float) = 0.0 := by decide +kernel
  unfold DrawsBelow Scalar.draw?
  rw [hzero]
  by_cases hpos : 0.0 < bound
  · have hplan : plan m index ⟨.irnd, operand⟩ m.stack = .ok (.roll m.random.sample.2,
        .number (Scalar.draw m.random.sample.1 bound) :: rest) := by
      rw [hstack]
      refine Operands.bind_eq_ok.mpr ⟨bound, rest, rfl, ?_⟩
      rw [if_pos hpos]
      rfl
    rw [if_pos hpos]
    exact ⟨_, step_eq_some_iff.mpr (.done hrunning hcurrent hplan rfl), rfl, rfl⟩
  · have hplan : plan m index ⟨.irnd, operand⟩ m.stack = .error (.randomBound bound, rest) := by
      rw [hstack]
      refine Operands.bind_eq_error.mpr (.inr ⟨bound, rest, rfl, ?_⟩)
      rw [if_neg hpos]
      rfl
    rw [if_neg hpos]
    exact ⟨_, step_eq_some_iff.mpr (.failed hrunning hcurrent hplan), rfl, rfl⟩

/-- Random whole numbers are below their bounds. `irnd` is `draw?` at floats. In exact arithmetic only
bounds above zero are taken, and what is drawn is a whole number from minus one on and below the bound.
It is negative only where the sample, scaled by what the bound lacks to one, exceeds one half; from a
bound of one half on it never is. -/
theorem draws_stay_below_bound :
    (∀ (m : Machine) (index : Nat) (operand : Option Value) (bound : Float) (rest : List Value),
      m.halted = false → m.current = .ok (index, ⟨.irnd, operand⟩) → m.stack = .number bound :: rest →
      m.DrawsBelow bound rest) ∧
    ∀ sample bound : ℚ, 0 ≤ sample → sample < 1 →
      (Scalar.draw? sample bound = none ↔ bound ≤ 0) ∧
      ∀ r, Scalar.draw? sample bound = some r → ∃ n : ℤ, r = n ∧ (n : ℚ) < bound ∧ -1 ≤ n ∧
        (0 ≤ n ↔ sample * (1 - bound) ≤ 1 / 2) ∧ (1 / 2 ≤ bound → 0 ≤ n) := by
  constructor
  · intro m index operand bound rest hrunning hcurrent hstack
    exact drawsBelow_of_irnd hrunning hcurrent hstack
  · intro sample bound hpos hlt
    rw [draw?_rat]
    by_cases hbound : 0 < bound
    · rw [if_pos hbound]
      refine ⟨by simp [hbound], ?_⟩
      rintro r ⟨rfl⟩
      refine ⟨_, rfl, floor_lt_bound hpos hlt hbound, neg_one_le_floor hpos hlt hbound,
        floor_nonneg_iff, ?_⟩
      intro hhalf
      exact floor_nonneg_iff.mpr (lack_le_half hpos hlt hhalf)
    · rw [if_neg hbound]
      exact ⟨by simpa using hbound, nofun⟩

/-- A machine about to draw below a bound, from the source of a seed. -/
def drawing (bound : Float) : Machine :=
  { new .headless with
    program := ⟨#[⟨.irnd, none⟩], .empty⟩, random := .ofSeed 0, stack := [.number bound], halted := false }

/-- Below two and a half a one is drawn, and from the sample three quarters as well. -/
theorem one_drawn_below_two_and_half :
    (∃ m', (drawing 2.5).step = some (.ok (), m') ∧ m'.stack = [.number 1.0]) ∧
      Scalar.draw? (3 / 4 : ℚ) (5 / 2) = some 1 ∧ ∃ n : ℤ, (1 : ℚ) = n ∧ (n : ℚ) < 5 / 2 ∧ 0 ≤ n := by
  obtain ⟨hsteps, hexact⟩ := draws_stay_below_bound
  have hdrawn : Scalar.draw? (drawing 2.5).random.sample.1 2.5 = some 1.0 := by decide +kernel
  have hstep := hsteps (drawing 2.5) 0 none 2.5 [] rfl rfl rfl
  unfold DrawsBelow at hstep
  rw [hdrawn] at hstep
  obtain ⟨m', hm, hstack, _⟩ := hstep
  have hone : Scalar.draw? (3 / 4 : ℚ) (5 / 2) = some 1 := by decide +kernel
  obtain ⟨n, hn, hbelow, _, _, hnonneg⟩ := (hexact (3 / 4) (5 / 2) (by norm_num) (by norm_num)).2 1 hone
  exact ⟨⟨m', hm, hstack⟩, hone, n, hn, hbelow, hnonneg (by norm_num)⟩

/-- Below a tenth minus one may be drawn: from the sample three quarters in exact arithmetic, and by a
machine from the first sample of its source. -/
theorem minus_one_drawn_below_tenth :
    ((0 : ℚ) ≤ 3 / 4 ∧ (3 / 4 : ℚ) < 1 ∧ (0 : ℚ) < 1 / 10) ∧
      Scalar.draw? (3 / 4 : ℚ) (1 / 10) = some (-1) ∧ ¬ (0 : ℚ) ≤ -1 ∧
      ∃ m', (drawing 0.1).step = some (.ok (), m') ∧ m'.stack = [.number (-1.0)] := by
  have hdrawn : Scalar.draw? (drawing 0.1).random.sample.1 0.1 = some (-1.0) := by decide +kernel
  have hstep := @drawsBelow_of_irnd (drawing 0.1) 0 none 0.1 [] rfl rfl rfl
  unfold DrawsBelow at hstep
  rw [hdrawn] at hstep
  obtain ⟨m', hm, hstack, _⟩ := hstep
  exact ⟨by norm_num, by decide +kernel, by norm_num, m', hm, hstack⟩

end Machine

end PixelMachine
