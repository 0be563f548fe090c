/-!
# Decimal numerals

A numeral is a sign and a natural coefficient divided by a power of ten. It is written positionally:
all integer digits, then a point and the fraction digits without trailing zeros. There is never an
exponent and never a point without digits behind it.
-/

namespace HostSheet

/-- The decimal number `± coefficient / 10 ^ places`. -/
structure Decimal where
  negative : Bool
  coefficient : Nat
  places : Nat
  deriving Repr, DecidableEq

namespace Decimal

def digits (n : Nat) : List Char :=
  Nat.toDigits 10 n

def paddedDigits (width n : Nat) : List Char :=
  List.replicate (width - (digits n).length) '0' ++ digits n

def trimZeros (ds : List Char) : List Char :=
  (ds.reverse.dropWhile (· == '0')).reverse

def integerDigits (d : Decimal) : List Char :=
  digits (d.coefficient / Nat.pow 10 d.places)

/-- The digits behind the point, as few as the value allows. -/
def fractionDigits (d : Decimal) : List Char :=
  if d.places = 0 then []
  else trimZeros (paddedDigits d.places (d.coefficient % Nat.pow 10 d.places))

def fraction (d : Decimal) : List Char :=
  match d.fractionDigits with
  | [] => []
  | ds => '.' :: ds

def sign (d : Decimal) : List Char :=
  if d.negative then ['-'] else []

def text (d : Decimal) : String :=
  String.ofList (d.sign ++ d.integerDigits ++ d.fraction)

/-- The text without a lone integer zero in front of the point. -/
def terseText (d : Decimal) : String :=
  if d.integerDigits = ['0'] ∧ d.fraction ≠ [] then String.ofList (d.sign ++ d.fraction) else d.text

def dropZeroSign (d : Decimal) : Decimal :=
  { d with negative := d.negative && d.coefficient != 0 }

end Decimal

end HostSheet
