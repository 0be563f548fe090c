import HostSheet.Decimal.Binary
import Mathlib

/-!
# Doubles that digits write

Digits never write a NaN. Rounding makes none, nor does a quotient by a power of ten, and no double
becomes one by being packed into its bits.
-/

namespace HostSheet.Decimal

open Float.Model Float.Model.UnpackedFloat

-- ---------------------------------------------------------------------------
-- Unpacked doubles
-- ---------------------------------------------------------------------------

section
variable (spec : Format)

theorem isNaN_roundWithAccuracy (sign : Sign) (mantissa : Nat) (exponent : Int)
    (accuracy : Accuracy) :
    (roundWithAccuracy spec sign mantissa exponent accuracy).isNaN = false := by
  unfold roundWithAccuracy
  simp only
  split <;> rfl

theorem isNaN_ofNat (n : Nat) : (UnpackedFloat.ofNat spec n).isNaN = false := by
  unfold UnpackedFloat.ofNat UnpackedFloat.ofInt UnpackedFloat.normalize
  split
  · exact isNaN_roundWithAccuracy ..
  · rfl
  · exact isNaN_roundWithAccuracy ..

def isDivisor : UnpackedFloat → Bool
  | .finite .. => true
  | _ => false

theorem isNaN_div {u v : UnpackedFloat} (hu : u.isNaN = false) (hv : isDivisor v = true) :
    (UnpackedFloat.div spec u v).isNaN = false := by
  cases v with
  | finite =>
    cases u with
    | notANumber => cases hu
    | infinity => rfl
    | zero => rfl
    | finite => exact isNaN_roundWithAccuracy ..
  | _ => cases hv

theorem isNaN_ofScientific (m : Nat) (e : Int) :
    (UnpackedFloat.ofScientific spec m e).isNaN = false := by
  unfold UnpackedFloat.ofScientific
  split
  · rfl
  split
  · rfl
  split
  · rfl
  split
  · exact isNaN_roundWithAccuracy ..
  · exact isNaN_div spec rfl rfl

theorem isNaN_neg (u : UnpackedFloat) : u.neg.isNaN = u.isNaN := by
  cases u <;> rfl

end

-- ---------------------------------------------------------------------------
-- Packed doubles
-- ---------------------------------------------------------------------------

/-- The highest exponent is that of the infinite doubles, which have no mantissa. -/
theorem unpackMantissa_pack {spec : Format} {u : UnpackedFloat} (h : u.isNaN = false)
    (hexponent : unpackExponent (UnpackedFloat.pack spec u) = -1#_) :
    unpackMantissa (UnpackedFloat.pack spec u) = 0#_ := by
  revert hexponent
  fun_cases UnpackedFloat.pack spec u with
  | case1 => cases h
  | case2 s => simp [packedInfinity]
  | case3 s => simp [packedZero]
  | case4 s m e hm biased hlarge => simp [packedInfinity]
  | case5 s m e hm bits biased hlarge hnormal =>
    intro hexponent
    rw [unpackExponent_packComponents, BitVec.neg_one_eq_allOnes, ← BitVec.toNat_inj,
      BitVec.toNat_ofNat, BitVec.toNat_allOnes, Nat.mod_eq_of_lt (by omega)] at hexponent
    omega
  | case6 s m e hm bits biased hlarge hnormal =>
    intro hexponent
    rw [unpackExponent_packComponents] at hexponent
    have := spec.he
    simp at hexponent
    omega

theorem isNaN_unpack_pack {u : UnpackedFloat} (h : u.isNaN = false) :
    (UnpackedFloat.unpack .binary64 (UnpackedFloat.pack .binary64 u)).isNaN = false := by
  rw [← Bool.not_eq_true, isNaN_unpack_iff_of_valid valid_pack]
  intro hnan
  have hbits : isNaNBits (packedNaN .binary64) = true := isNaNBits_packedNaN
  rw [← hnan, isNaNBits, decide_eq_true_eq] at hbits
  exact hbits.2 (unpackMantissa_pack h hbits.1)

-- ---------------------------------------------------------------------------
-- Doubles
-- ---------------------------------------------------------------------------

theorem isNaN_ofModel_pack {u : UnpackedFloat} (h : u.isNaN = false) :
    (Float.ofModel (Float.Model.pack u)).isNaN = false :=
  isNaN_unpack_pack h

theorem isNaN_toFloat (n : UInt64) : n.toFloat.isNaN = false :=
  isNaN_ofModel_pack (isNaN_ofNat Format.binary64 n.toNat)

theorem isDivisor_powerOfTen : ∀ e : Fin 23,
    isDivisor Float.exactlyRepresentablePowersOfTen[e].toModel.unpack = true := by
  decide +kernel

theorem isNaN_negated {x : Float} (h : x.isNaN = false) : (-x).isNaN = false :=
  isNaN_ofModel_pack ((isNaN_neg _).trans h)

theorem isNaN_scientific (m e : Nat) : (Float.ofScientific m true e).isNaN = false := by
  unfold Float.ofScientific
  split
  · rename_i hfast
    exact isNaN_ofModel_pack (isNaN_div _ (isNaN_toFloat _) (isDivisor_powerOfTen ⟨e, by omega⟩))
  · exact isNaN_ofModel_pack (isNaN_ofScientific ..)

theorem isNaN_nearest (negative : Bool) (integer fraction : List Char) :
    (nearest negative integer fraction).isNaN = false := by
  have hmagnitude := isNaN_scientific (ofDigits (integer ++ fraction)) fraction.length
  cases negative with
  | true => exact isNaN_negated hmagnitude
  | false => exact hmagnitude

end HostSheet.Decimal
