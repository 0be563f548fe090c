import HostSheet.Decimal.Binary
import Mathlib

/-!
# Rounding to places

A double is read as a rational number. Rounding to places gives a multiple of a power of ten that is
nowhere further away than half a step, and the even one of two that are as near. There is only one
such number.
-/

namespace HostSheet.Decimal

-- ---------------------------------------------------------------------------
-- Exact values
-- ---------------------------------------------------------------------------

def signed (negative : Bool) (q : ℚ) : ℚ :=
  if negative then -q else q

def exactValue (x : Float) : ℚ :=
  match Binary.ofFloat x with
  | .finite negative mantissa exponent => signed negative (mantissa * 2 ^ exponent)
  | _ => 0

def value (d : Decimal) : ℚ :=
  signed d.negative (d.coefficient / 10 ^ d.places)

theorem ratio_value (mantissa : Nat) (exponent : Int) :
    ((ratio mantissa exponent).1 : ℚ) / (ratio mantissa exponent).2 = mantissa * 2 ^ exponent := by
  cases exponent with
  | ofNat e =>
    change ((mantissa * 2 ^ e : ℕ) : ℚ) / ((1 : ℕ) : ℚ) = mantissa * 2 ^ (e : ℤ)
    rw [Nat.cast_one, div_one, zpow_natCast]
    push_cast
    rfl
  | negSucc e =>
    change (mantissa : ℚ) / ((2 ^ (e + 1) : ℕ) : ℚ) = mantissa * 2 ^ Int.negSucc e
    rw [zpow_negSucc, ← div_eq_mul_inv]
    push_cast
    rfl

theorem dropZeroSign_value (d : Decimal) : d.dropZeroSign.value = d.value := by
  by_cases hzero : d.coefficient = 0
  · simp [value, dropZeroSign, signed, hzero]
  · have hcoefficient : (d.coefficient != 0) = true := by simpa using hzero
    rw [value, dropZeroSign, hcoefficient, Bool.and_true, value]

-- ---------------------------------------------------------------------------
-- Rounding
-- ---------------------------------------------------------------------------

/-- `n` is a whole number nearest to `t`, the even one of two. -/
def NearestEven (t : ℚ) (n : ℤ) : Prop :=
  |t - n| ≤ 1 / 2 ∧ (|t - n| = 1 / 2 → Even n)

namespace NearestEven

variable {t : ℚ} {n m : ℤ}

theorem neg (h : NearestEven t n) : NearestEven (-t) (-n) := by
  have hdistance : |-t - (-n : ℤ)| = |t - n| := by
    rw [← abs_neg]
    congr 1
    push_cast
    ring
  rw [NearestEven, hdistance]
  exact ⟨h.1, fun htie => (h.2 htie).neg⟩

/-- Two nearest numbers are half a step away from `t` on both sides, and one of them is odd. -/
theorem le (hn : NearestEven t n) (hm : NearestEven t m) : m ≤ n := by
  by_contra hgt
  have hlt := not_le.1 hgt
  have hstep : (n : ℚ) + 1 ≤ m := by exact_mod_cast hlt
  have habove := (abs_le.1 hn.1).2
  have hbelow := (abs_le.1 hm.1).1
  have hleft : t - n = 1 / 2 := by linarith
  have hright : t - m = -(1 / 2) := by linarith
  have hnext : m = n + 1 := by
    have : (m : ℚ) = n + 1 := by linarith
    exact_mod_cast this
  have heven : Even n := hn.2 (by rw [hleft]; norm_num)
  have heven' : Even m := hm.2 (by rw [hright]; norm_num)
  rw [hnext] at heven'
  exact Int.not_even_iff_odd.2 heven.add_one heven'

theorem unique (hn : NearestEven t n) (hm : NearestEven t m) : n = m :=
  le_antisymm (hm.le hn) (hn.le hm)

end NearestEven

section
variable (q : Nat) {part : ℚ}

theorem nearestEven_low (hpart : 0 ≤ part) (hlow : part < 1 / 2) : NearestEven (q + part) q := by
  rw [NearestEven, Int.cast_natCast, add_sub_cancel_left, abs_of_nonneg hpart]
  exact ⟨hlow.le, fun htie => absurd htie hlow.ne⟩

theorem nearestEven_high (hhigh : 1 / 2 < part) (hpart : part < 1) :
    NearestEven (q + part) (q + 1 : ℕ) := by
  have hdistance : |(q : ℚ) + part - ((q + 1 : ℕ) : ℤ)| = 1 - part := by
    rw [Int.cast_natCast, Nat.cast_add_one, add_sub_add_left_eq_sub, abs_sub_comm,
      abs_of_pos (sub_pos.2 hpart)]
  rw [NearestEven, hdistance]
  exact ⟨by linarith, fun htie => absurd htie (by linarith)⟩

theorem nearestEven_tie : NearestEven (q + 1 / 2) (q + q % 2 : ℕ) := by
  have heven : Even (q + q % 2) := by
    rw [Nat.even_iff]
    omega
  have hdistance : |(q : ℚ) + 1 / 2 - ((q + q % 2 : ℕ) : ℤ)| = 1 / 2 := by
    rw [Int.cast_natCast, Nat.cast_add, add_sub_add_left_eq_sub]
    rcases Nat.mod_two_eq_zero_or_one q with h | h <;> rw [h] <;> norm_num
  rw [NearestEven, hdistance]
  exact ⟨le_rfl, fun _ => (Int.even_coe_nat _).2 heven⟩

end

theorem roundHalfEven_nearest (num : Nat) {den : Nat} (hden : 0 < den) :
    NearestEven (num / den) (roundHalfEven num den) := by
  have hpos : (0 : ℚ) < den := by exact_mod_cast hden
  have hdiv : (num : ℚ) = (num / den : ℕ) * den + (num % den : ℕ) := by
    exact_mod_cast (Nat.div_add_mod' num den).symm
  have hsplit : (num : ℚ) / den = (num / den : ℕ) + (num % den : ℕ) / (den : ℚ) := by
    rw [add_div' _ _ _ hpos.ne', ← hdiv]
  rw [hsplit]
  unfold roundHalfEven
  simp only
  split
  · rename_i hlow
    refine nearestEven_low _ (by positivity) ?_
    rw [div_lt_div_iff₀ hpos two_pos, one_mul, mul_comm]
    exact_mod_cast hlow
  split
  · rename_i hhigh
    refine nearestEven_high _ ?_ ?_
    · rw [div_lt_div_iff₀ two_pos hpos, one_mul, mul_comm]
      exact_mod_cast hhigh
    · rw [div_lt_one hpos]
      exact_mod_cast Nat.mod_lt num hden
  · rename_i hlow hhigh
    have hhalf : ((num % den : ℕ) : ℚ) / den = 1 / 2 := by
      rw [div_eq_div_iff hpos.ne' two_ne_zero, one_mul, mul_comm]
      exact_mod_cast (le_antisymm (not_lt.1 hhigh) (not_lt.1 hlow))
    rw [hhalf]
    exact nearestEven_tie _

/-- `y` is `x` rounded to so many places, ties to even. -/
def RoundsTo (places : Nat) (x y : ℚ) : Prop :=
  ∃ n : ℤ, y = n / 10 ^ places ∧ NearestEven (x * 10 ^ places) n

section
variable {places : Nat} {x y z : ℚ}

theorem RoundsTo.signed (h : RoundsTo places x y) (negative : Bool) :
    RoundsTo places (signed negative x) (signed negative y) := by
  cases negative with
  | false => exact h
  | true =>
    obtain ⟨n, rfl, hnear⟩ := h
    refine ⟨-n, ?_, ?_⟩
    · rw [Int.cast_neg, neg_div]
      rfl
    · rw [Decimal.signed, if_pos rfl, neg_mul]
      exact hnear.neg

theorem RoundsTo.unique (hy : RoundsTo places x y) (hz : RoundsTo places x z) : y = z := by
  obtain ⟨n, rfl, hn⟩ := hy
  obtain ⟨m, rfl, hm⟩ := hz
  rw [hn.unique hm]

end

/-- The numeral of a double has the value of the double rounded to its places. -/
theorem fixed_roundsTo (places : Nat) (negative : Bool) (mantissa : Nat) (exponent : Int) :
    RoundsTo places (signed negative (mantissa * 2 ^ exponent))
      (fixed places negative mantissa exponent).value := by
  have hscaled : (((ratio mantissa exponent).1 * Nat.pow 10 places : ℕ) : ℚ) /
      (ratio mantissa exponent).2 = mantissa * 2 ^ exponent * 10 ^ places := by
    rw [Nat.cast_mul, mul_div_right_comm, ratio_value]
    exact congrArg _ (Nat.cast_pow 10 places)
  have hnear := roundHalfEven_nearest ((ratio mantissa exponent).1 * Nat.pow 10 places)
    (ratio_den_pos mantissa exponent)
  rw [hscaled] at hnear
  exact RoundsTo.signed ⟨_, rfl, hnear⟩ negative

end HostSheet.Decimal
