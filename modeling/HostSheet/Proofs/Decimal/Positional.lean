import HostSheet.Decimal.Binary
import HostSheet.Proofs.Decimal.Rounding

/-!
# Positional digits

The digits of a numeral stand for what the numeral stands for, however many zeros are left out
behind them. The text of a numeral has no digit that could be left out.
-/

namespace HostSheet.Decimal

-- ---------------------------------------------------------------------------
-- Digits
-- ---------------------------------------------------------------------------

section
variable {width n : Nat}

theorem ofDigits_append (ds es : List Char) :
    ofDigits (ds ++ es) = 10 ^ es.length * ofDigits ds + ofDigits es :=
  (Nat.ofDigitChars_append 0).trans Nat.ofDigitChars_eq_ofDigitChars_zero

theorem ofDigits_digits (n : Nat) : ofDigits (digits n) = n :=
  Nat.ofDigitChars_ten_toDigits

theorem ofDigits_zeros (count : Nat) : ofDigits (List.replicate count '0') = 0 :=
  Nat.ofDigitChars_replicate_zero

theorem ofDigits_paddedDigits (width n : Nat) : ofDigits (paddedDigits width n) = n := by
  rw [paddedDigits, ofDigits_append, ofDigits_zeros, ofDigits_digits, Nat.mul_zero, Nat.zero_add]

theorem length_paddedDigits (hwidth : 0 < width) (h : n < 10 ^ width) :
    (paddedDigits width n).length = width := by
  have hlength : (digits n).length ≤ width :=
    (Nat.length_toDigits_le_iff (by decide) hwidth).2 h
  rw [paddedDigits, List.length_append, List.length_replicate, Nat.sub_add_cancel hlength]

theorem digits_of_head? (h : (digits n).head? = some '0') : digits n = ['0'] := by
  induction n using Nat.strongRecOn with
  | ind n ih =>
    by_cases hn : n < 10
    · rw [digits, Nat.toDigits_of_lt_base hn] at h ⊢
      rw [List.head?_cons, Option.some.injEq] at h
      rw [h]
    · have hsplit : digits n = digits (n / 10) ++ [Nat.digitChar (n % 10)] :=
        Nat.toDigits_of_base_le (by decide) (Nat.le_of_not_lt hn)
      have hne : digits (n / 10) ≠ [] := Nat.toDigits_ne_nil
      rw [hsplit, List.head?_append_of_ne_nil _ hne] at h
      have hzero := congrArg ofDigits (ih (n / 10) (by omega) h)
      rw [ofDigits_digits] at hzero
      have : n / 10 = 0 := hzero
      omega

end

-- ---------------------------------------------------------------------------
-- Trailing zeros
-- ---------------------------------------------------------------------------

theorem exists_zeros (ds : List Char) : ∃ count, ds = trimZeros ds ++ List.replicate count '0' := by
  refine ⟨(ds.rtakeWhile (· == '0')).length, ?_⟩
  have hzeros : ds.rtakeWhile (· == '0') =
      List.replicate (ds.rtakeWhile (· == '0')).length '0' :=
    List.eq_replicate_of_mem fun c hc => by simpa using List.mem_rtakeWhile_imp hc
  rw [← hzeros]
  exact List.rdropWhile_append_rtakeWhile.symm

theorem getLast?_trimZeros (ds : List Char) : (trimZeros ds).getLast? ≠ some '0' := by
  intro h
  have hne : trimZeros ds ≠ [] := by
    rintro hnil
    rw [hnil] at h
    cases h
  rw [List.getLast?_eq_some_getLast hne, Option.some.injEq] at h
  exact List.rdropWhile_last_not (· == '0') ds hne (beq_iff_eq.2 h)

-- ---------------------------------------------------------------------------
-- Digits around a point
-- ---------------------------------------------------------------------------

/-- What digits in front of a point and behind it stand for. -/
def positional (integer fraction : List Char) : ℚ :=
  ofDigits (integer ++ fraction) / 10 ^ fraction.length

theorem positional_zeros (integer fraction : List Char) (count : Nat) :
    positional integer (fraction ++ List.replicate count '0') = positional integer fraction := by
  rw [positional, ← List.append_assoc, ofDigits_append, ofDigits_zeros, Nat.add_zero,
    List.length_append, List.length_replicate, pow_add, mul_comm (10 ^ fraction.length : ℚ)]
  push_cast
  exact mul_div_mul_left _ _ (by positivity)

theorem positional_zero_integer (fraction : List Char) :
    positional ['0'] fraction = positional [] fraction :=
  rfl

def fullFraction (d : Decimal) : List Char :=
  if d.places = 0 then [] else paddedDigits d.places (d.coefficient % Nat.pow 10 d.places)

section
variable (d : Decimal)

theorem length_fullFraction : d.fullFraction.length = d.places := by
  rw [fullFraction]
  split
  · rename_i hplaces
    exact hplaces.symm
  · rename_i hplaces
    exact length_paddedDigits (Nat.pos_of_ne_zero hplaces) (Nat.mod_lt _ (Nat.pow_pos (by decide)))

theorem fractionDigits_eq : d.fractionDigits = trimZeros d.fullFraction := by
  rw [fractionDigits, fullFraction]
  split <;> rfl

theorem ofDigits_fullFraction : ofDigits d.fullFraction = d.coefficient % 10 ^ d.places := by
  rw [fullFraction]
  split
  · rename_i hplaces
    rw [hplaces, Nat.pow_zero, Nat.mod_one]
    rfl
  · exact ofDigits_paddedDigits ..

/-- The digits of a numeral stand for its magnitude. -/
theorem positional_fullFraction :
    positional d.integerDigits d.fullFraction = d.coefficient / 10 ^ d.places := by
  rw [positional, ofDigits_append, length_fullFraction, integerDigits, ofDigits_digits,
    ofDigits_fullFraction]
  exact congrArg (fun n : ℕ => (n : ℚ) / 10 ^ d.places) (Nat.div_add_mod _ _)

theorem positional_fractionDigits :
    positional d.integerDigits d.fractionDigits = d.coefficient / 10 ^ d.places := by
  obtain ⟨count, hcount⟩ := exists_zeros d.fullFraction
  rw [fractionDigits_eq, ← positional_zeros _ _ count, ← hcount, positional_fullFraction]

end

end HostSheet.Decimal
