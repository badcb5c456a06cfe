import PixelMachine.Program.Operand

/-! Numbers that are read are numbers: no text gives NaN, neither as a float literal nor as a colour.
Multiplication and division by a power of ten, rounding and packing are followed through the model of
floats. -/
namespace PixelMachine

open Float.Model

variable {spec : Format} {u v : UnpackedFloat}

/-- Only what has the largest exponent and a mantissa that is not zero encodes NaN. -/
theorem isNaN_unpack {b : BitVec spec.numBits}
    (h : UnpackedFloat.unpackExponent b = -1#_ → UnpackedFloat.unpackMantissa b = 0#_) :
    (UnpackedFloat.unpack spec b).isNaN = false := by
  by_cases hlargest : UnpackedFloat.unpackExponent b = -1#_
  · have hunpack : UnpackedFloat.unpack spec b = .infinity _ :=
      (if_pos hlargest).trans (if_pos (h hlargest))
    rw [hunpack]
    rfl
  · by_cases hsmallest : UnpackedFloat.unpackExponent b = 0#_
    · by_cases hmantissa : UnpackedFloat.unpackMantissa b = 0#_
      · have hunpack : UnpackedFloat.unpack spec b = .zero _ :=
          (if_neg hlargest).trans ((if_pos hsmallest).trans (dif_pos hmantissa))
        rw [hunpack]
        rfl
      · have hunpack : UnpackedFloat.unpack spec b = .finite _ _ _ _ :=
          (if_neg hlargest).trans ((if_pos hsmallest).trans (dif_neg hmantissa))
        rw [hunpack]
        rfl
    · have hunpack : UnpackedFloat.unpack spec b = .finite _ _ _ _ :=
        (if_neg hlargest).trans (if_neg hsmallest)
      rw [hunpack]
      rfl

theorem isNaN_unpack_packComponents {sign : UnpackedFloat.Sign} {exponent : BitVec spec.exponentBits}
    {mantissa : BitVec spec.mantissaBitsWithoutImplicit}
    (h : exponent = -1#_ → mantissa = 0#_) :
    (UnpackedFloat.unpack spec (UnpackedFloat.packComponents spec sign exponent mantissa)).isNaN
      = false := by
  refine isNaN_unpack fun hlargest => ?_
  rw [UnpackedFloat.unpackExponent_packComponents] at hlargest
  rw [UnpackedFloat.unpackMantissa_packComponents]
  exact h hlargest

/-- Packing makes a NaN of NaN only. -/
theorem isNaN_unpack_pack (h : u.isNaN = false) :
    (UnpackedFloat.unpack spec (UnpackedFloat.pack spec u)).isNaN = false := by
  have hzero : 0#(spec.exponentBits) ≠ -1#_ := by
    intro heq
    have hpos := Nat.two_pow_pos spec.exponentBits
    have hbits := Nat.pow_le_pow_right (n := 2) (by decide) spec.he
    have hnat := congrArg BitVec.toNat heq
    rw [BitVec.neg_one_eq_allOnes, BitVec.toNat_allOnes, BitVec.toNat_ofNat, Nat.zero_mod] at hnat
    omega
  fun_cases UnpackedFloat.pack spec u with
  | case1 => cases h
  | case2 s | case4 s =>
    unfold UnpackedFloat.packedInfinity
    exact isNaN_unpack_packComponents fun _ => rfl
  | case3 s =>
    unfold UnpackedFloat.packedZero
    exact isNaN_unpack_packComponents fun _ => rfl
  | case5 s m e hm bits biased hbiased hbits =>
    refine isNaN_unpack_packComponents fun heq => ?_
    have hnat := congrArg BitVec.toNat heq
    rw [BitVec.neg_one_eq_allOnes, BitVec.toNat_allOnes, BitVec.toNat_ofNat,
      Nat.mod_eq_of_lt (by omega)] at hnat
    omega
  | case6 s m e hm bits biased => exact isNaN_unpack_packComponents fun heq => absurd heq hzero

theorem isNaN_roundWithAccuracy {sign : UnpackedFloat.Sign} {mantissa : Nat} {exponent : Int}
    {accuracy : UnpackedFloat.Accuracy} :
    (UnpackedFloat.roundWithAccuracy spec sign mantissa exponent accuracy).isNaN = false := by
  have hrounded (n : Nat) (e : Int) : UnpackedFloat.isNaN (if h : n = 0 then .zero sign
      else .finite sign n e (Nat.pos_of_ne_zero h)) = false := by
    by_cases h : n = 0
    · rw [dif_pos h]
      rfl
    · rw [dif_neg h]
      rfl
  exact hrounded _ _

theorem isNaN_ofInt (n : Int) : (UnpackedFloat.ofInt spec n).isNaN = false := by
  unfold UnpackedFloat.ofInt UnpackedFloat.normalize
  split
  · exact isNaN_roundWithAccuracy
  · rfl
  · exact isNaN_roundWithAccuracy

/-- Neither infinite nor zero nor NaN. -/
def isOrdinary : UnpackedFloat → Bool
  | .finite .. => true
  | _ => false

theorem isNaN_mul_ordinary (hu : u.isNaN = false) (hv : isOrdinary v = true) :
    (UnpackedFloat.mul spec u v).isNaN = false := by
  cases v with
  | notANumber | infinity _ | zero _ => cases hv
  | finite s m e hm =>
    cases u with
    | notANumber => cases hu
    | infinity s | zero s => rfl
    | finite s m e hm => exact isNaN_roundWithAccuracy

theorem isNaN_div_ordinary (hu : u.isNaN = false) (hv : isOrdinary v = true) :
    (UnpackedFloat.div spec u v).isNaN = false := by
  cases v with
  | notANumber | infinity _ | zero _ => cases hv
  | finite s m e hm =>
    cases u with
    | notANumber => cases hu
    | infinity s | zero s => rfl
    | finite s m e hm => exact isNaN_roundWithAccuracy

theorem isNaN_unpackedOfScientific (m : Nat) (e : Int) :
    (UnpackedFloat.ofScientific spec m e).isNaN = false := by
  by_cases hm : m = 0
  · have hvalue : UnpackedFloat.ofScientific spec m e = .zero .positive := dif_pos hm
    rw [hvalue]
    rfl
  · by_cases hlarge : e > 2 ^ spec.exponentBits
    · have hvalue : UnpackedFloat.ofScientific spec m e = .infinity .positive :=
        (dif_neg hm).trans (if_pos hlarge)
      rw [hvalue]
      rfl
    · by_cases hsmall : e < -((2 ^ spec.exponentBits : Int) + m.log2)
      · have hvalue : UnpackedFloat.ofScientific spec m e = .zero .positive :=
          (dif_neg hm).trans ((if_neg hlarge).trans (if_pos hsmall))
        rw [hvalue]
        rfl
      · by_cases hpower : 0 ≤ e
        · have hvalue : UnpackedFloat.ofScientific spec m e
              = UnpackedFloat.mul spec (.finite _ _ _ _) (.finite _ _ _ _) :=
            (dif_neg hm).trans ((if_neg hlarge).trans ((if_neg hsmall).trans (if_pos hpower)))
          rw [hvalue]
          exact isNaN_mul_ordinary rfl rfl
        · have hvalue : UnpackedFloat.ofScientific spec m e
              = UnpackedFloat.div spec (.finite _ _ _ _) (.finite _ _ _ _) :=
            (dif_neg hm).trans ((if_neg hlarge).trans ((if_neg hsmall).trans (if_neg hpower)))
          rw [hvalue]
          exact isNaN_div_ordinary rfl rfl

theorem isOrdinary_powerOfTen {e : Nat} (h : e < Float.exactlyRepresentablePowersOfTen.size) :
    isOrdinary Float.exactlyRepresentablePowersOfTen[e].toModel.unpack = true := by
  have hall : Float.exactlyRepresentablePowersOfTen.all
      (fun power => isOrdinary power.toModel.unpack) = true := by
    decide +kernel
  exact Array.all_eq_true.mp hall e h

/-- No decimal number is NaN. -/
theorem isNaN_ofScientific (m : Nat) (s : Bool) (e : Nat) :
    (Float.ofScientific m s e).isNaN = false := by
  unfold Float.ofScientific
  -- Digits and exponents that floats hold exactly are multiplied or divided as floats.
  split
  · have hm : m.toUInt64.toFloat.toModel.unpack.isNaN = false := isNaN_unpack_pack (isNaN_ofInt _)
    split
    · exact isNaN_unpack_pack (isNaN_div_ordinary hm (isOrdinary_powerOfTen _))
    · exact isNaN_unpack_pack (isNaN_mul_ordinary hm (isOrdinary_powerOfTen _))
  · exact isNaN_unpack_pack (isNaN_unpackedOfScientific _ _)

theorem isNaN_ofNat (n : Nat) : (Float.ofNat n).isNaN = false :=
  isNaN_ofScientific n false 0

theorem isNaN_neg {x : Float} (h : x.isNaN = false) : (-x).isNaN = false := by
  have hneg : x.toModel.unpack.neg.isNaN = false := by
    change x.toModel.unpack.isNaN = false at h
    cases hx : x.toModel.unpack with
    | notANumber =>
      rw [hx] at h
      cases h
    | infinity s | zero s | finite s m e hm => rfl
  exact isNaN_unpack_pack hneg

/-! Texts. -/

theorem isNaN_ofDecimal (negative : Bool) (digits : Nat) (exponent : Int) :
    (ofDecimal negative digits exponent).isNaN = false := by
  have hmagnitude := isNaN_ofScientific digits (exponent < 0) exponent.natAbs
  cases negative with
  | false => exact hmagnitude
  | true => exact isNaN_neg hmagnitude

theorem isNaN_of_readMagnitude? {negative : Bool} {cs : List Char} {x : Float}
    (h : readMagnitude? negative cs = some x) : x.isNaN = false := by
  unfold readMagnitude? at h
  dsimp only at h
  split at h
  all_goals
    split at h
    · cases h
    · obtain ⟨_, _, rfl⟩ := Option.map_eq_some_iff.mp h
      exact isNaN_ofDecimal _ _ _

theorem isNaN_of_readFloat? {cs : List Char} {x : Float} (h : readFloat? cs = some x) :
    x.isNaN = false := by
  unfold readFloat? at h
  split at h <;> exact isNaN_of_readMagnitude? h

/-- A number that is an operand is not NaN. -/
theorem isNaN_of_readNumber? {cs : List Char} {x : Float} (h : readNumber? cs = some x) :
    x.isNaN = false := by
  unfold readNumber? at h
  split at h
  · cases h
  · exact isNaN_of_readFloat? h

end PixelMachine
