import HostSheet.Decimal.Numeral

/-!
# Doubles and their decimal digits

A finite double is a sign, a natural mantissa and a power of two. Everything that is said about the
digits of a number goes through this reading, so no rounding happens before the one that is asked
for: to the double nearest to a literal, or to a fixed number of places. Ties go to the even
neighbour, and a literal that is too large becomes infinite.
-/

namespace HostSheet.Decimal

-- ---------------------------------------------------------------------------
-- Doubles read exactly
-- ---------------------------------------------------------------------------

/-- What a double stands for: `± mantissa * 2 ^ exponent`, or one of the values that are no number.
-/
inductive Binary where
  | notANumber
  | infinite (negative : Bool)
  | finite (negative : Bool) (mantissa : Nat) (exponent : Int)
  deriving Repr, DecidableEq

def isNegative : Float.Model.UnpackedFloat.Sign → Bool
  | .negative => true
  | .positive => false

def Binary.ofFloat (x : Float) : Binary :=
  match x.toModel.unpack with
  | .notANumber => .notANumber
  | .infinity sign => .infinite (isNegative sign)
  | .zero sign => .finite (isNegative sign) 0 0
  | .finite sign mantissa exponent _ => .finite (isNegative sign) mantissa exponent

/-- The numerator and denominator of `mantissa * 2 ^ exponent`. -/
def ratio (mantissa : Nat) (exponent : Int) : Nat × Nat :=
  match exponent with
  | .ofNat e => (mantissa * Nat.pow 2 e, 1)
  | .negSucc e => (mantissa, Nat.pow 2 (e + 1))

theorem ratio_den_pos (mantissa : Nat) (exponent : Int) : 0 < (ratio mantissa exponent).2 := by
  cases exponent with
  | ofNat e => exact Nat.one_pos
  | negSucc e => exact Nat.two_pow_pos _

-- ---------------------------------------------------------------------------
-- Literals
-- ---------------------------------------------------------------------------

def ofDigits (ds : List Char) : Nat :=
  ds.foldl (fun n c => 10 * n + (c.toNat - '0'.toNat)) 0

/-- The double nearest to the literal with these integer and fraction digits. -/
def nearest (negative : Bool) (integer fraction : List Char) : Float :=
  let magnitude := Float.ofScientific (ofDigits (integer ++ fraction)) true fraction.length
  if negative then -magnitude else magnitude

-- ---------------------------------------------------------------------------
-- Fixed places
-- ---------------------------------------------------------------------------

def roundHalfEven (num den : Nat) : Nat :=
  let quotient := num / den
  let twice := 2 * (num % den)
  if twice < den then quotient
  else if den < twice then quotient + 1
  else quotient + quotient % 2

def roundHalfUp (num den : Nat) : Nat :=
  (2 * num + den) / (2 * den)

/-- The value `± mantissa * 2 ^ exponent` to `places` decimal places. -/
def fixed (places : Nat) (negative : Bool) (mantissa : Nat) (exponent : Int) : Decimal :=
  let (num, den) := ratio mantissa exponent
  ⟨negative, roundHalfEven (num * Nat.pow 10 places) den, places⟩

end HostSheet.Decimal
