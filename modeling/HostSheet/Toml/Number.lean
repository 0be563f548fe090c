import HostSheet.Decimal.Binary
import HostSheet.Toml.Layout

/-!
# TOML numbers

Integers are decimal with an optional sign and without leading zeros, or hexadecimal, octal or
binary behind `0x`, `0o` and `0b`; they fit in 64 bits. A decimal integer with a fraction or an
exponent is a float. A single underscore may stand between two digits.
-/

namespace HostSheet.Toml

-- ---------------------------------------------------------------------------
-- Digits
-- ---------------------------------------------------------------------------

/-- The further digits of a run, with the underscores between them left out. -/
def skipDigits (isDigit : Char → Bool) : (s : List Char) → Skipped (List Char) s
  | [] => .nothing [] []
  | '_' :: c :: s =>
    if isDigit c then
      ((((skipDigits isDigit s).map (c :: ·)).behind c).behind '_').toSkipped
    else .nothing [] ('_' :: c :: s)
  | c :: s =>
    if isDigit c then (((skipDigits isDigit s).map (c :: ·)).behind c).toSkipped
    else .nothing [] (c :: s)

def digitRun (isDigit : Char → Bool) : Scan (List Char)
  | [] => none
  | c :: s => if isDigit c then some (((skipDigits isDigit s).map (c :: ·)).behind c) else none

def decimalRun : Scan (List Char)
  | '0' :: s => some (.head ['0'] '0' s)
  | s => digitRun Char.isDigit s

def digitValue (c : Char) : Nat :=
  if c.isDigit then c.toNat - '0'.toNat
  else if c.isLower then c.toNat - 'a'.toNat + 10
  else c.toNat - 'A'.toNat + 10

def isDigitOf (base : Nat) (c : Char) : Bool :=
  (c.isDigit || ('a' ≤ c && c ≤ 'f') || ('A' ≤ c && c ≤ 'F')) && digitValue c < base

def ofDigits (base : Nat) (digits : List Char) : Nat :=
  digits.foldl (fun n c => base * n + digitValue c) 0

def skipSign : (s : List Char) → Skipped Bool s
  | '+' :: s => (Taken.head false '+' s).toSkipped
  | '-' :: s => (Taken.head true '-' s).toSkipped
  | s => .nothing false s

-- ---------------------------------------------------------------------------
-- Integers
-- ---------------------------------------------------------------------------

/-- The integer with a sign and a magnitude, if it fits in 64 bits. -/
def fitted (negative : Bool) (magnitude : Nat) : Option Int :=
  if negative then
    if magnitude ≤ Nat.pow 2 63 then some (-(magnitude : Int)) else none
  else if magnitude < Nat.pow 2 63 then some (magnitude : Int) else none

def basedInteger (base : Nat) : Scan Value := fun s => do
  let digits ← digitRun (isDigitOf base) s
  let n ← fitted false (ofDigits base digits.value)
  return digits.map fun _ => .integer n

-- ---------------------------------------------------------------------------
-- Floats
-- ---------------------------------------------------------------------------

def fractionRun? : Scan (List Char)
  | '.' :: s => (digitRun Char.isDigit s).map (·.behind '.')
  | _ => none

def exponentRun? : Scan Int
  | [] => none
  | c :: s =>
    if c = 'e' ∨ c = 'E' then do
      let digits ← digitRun Char.isDigit (skipSign s).rest
      let magnitude : Int := ofDigits 10 digits.value
      return (((skipSign s).andTake digits).behind c).map
        fun _ => if (skipSign s).value then -magnitude else magnitude
    else none

def floatOf (negative : Bool) (digits : List Char) (exponent : Int) : Float :=
  let magnitude := Float.ofScientific (ofDigits 10 digits) (exponent < 0) exponent.natAbs
  if negative then -magnitude else magnitude

/-- A float; one that is too large to be positive is refused. -/
def floatValue (x : Float) : Option Value :=
  if x == 1.0 / 0.0 then none else some (.float x)

def specialFloat (negative : Bool) (s : List Char) : Option (Taken Value s) :=
  (readWord "inf".toList (.float (if negative then -1.0 / 0.0 else 1.0 / 0.0)) s).orElse
    fun _ => readWord "nan".toList (.float (0.0 / 0.0)) s

-- ---------------------------------------------------------------------------
-- Numbers
-- ---------------------------------------------------------------------------

def unsignedNumber (negative : Bool) : Scan Value := fun s => do
  let integer ← decimalRun s
  match fractionRun? integer.rest with
  | some fraction =>
    let digits := integer.value ++ fraction.value
    let places : Int := fraction.value.length
    match exponentRun? fraction.rest with
    | some exponent =>
      let v ← floatValue (floatOf negative digits (exponent.value - places))
      return (integer.andTake (fraction.andTake exponent)).map fun _ => v
    | none =>
      let v ← floatValue (floatOf negative digits (-places))
      return (integer.andTake fraction).map fun _ => v
  | none =>
    match exponentRun? integer.rest with
    | some exponent =>
      let v ← floatValue (floatOf negative integer.value exponent.value)
      return (integer.andTake exponent).map fun _ => v
    | none =>
      let n ← fitted negative (ofDigits 10 integer.value)
      return integer.map fun _ => .integer n

def readNumber : Scan Value
  | '0' :: 'x' :: s => (basedInteger 16 s).map fun n => (n.behind 'x').behind '0'
  | '0' :: 'o' :: s => (basedInteger 8 s).map fun n => (n.behind 'o').behind '0'
  | '0' :: 'b' :: s => (basedInteger 2 s).map fun n => (n.behind 'b').behind '0'
  | s => do
    let negative := (skipSign s).value
    let n ← (specialFloat negative (skipSign s).rest).orElse fun _ =>
      unsignedNumber negative (skipSign s).rest
    return (skipSign s).andTake n

end HostSheet.Toml
