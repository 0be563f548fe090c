import HostSheet.Decimal.Binary
import HostSheet.Decimal.Numeral

/-!
# Shortest numerals

The shortest numeral of a double is the one with the fewest digits among all that read back as the
same double, and the nearest of those; of two equally near the larger is taken. A numeral reads back
when it lies in the window of reals that round to the double: half a step on either side, a quarter
step below a power of two, the ends included when the mantissa is even.

The search walks from coarse decimal grids to fine ones. On each grid only the two neighbours of the
value are tried: if any point of the grid lies in the window, one of these does.
-/

namespace HostSheet.Decimal

/-- The reals that round to one double, over one denominator. -/
structure Window where
  low : Nat
  middle : Nat
  high : Nat
  den : Nat
  closed : Bool
  deriving Repr, DecidableEq

/-- The smallest mantissa of full length; the step below it is half the step above it. -/
def fullMantissa : Nat := Nat.pow 2 52

/-- The window around `mantissa * 2 ^ exponent`, in quarters of a step. -/
def Window.around (mantissa : Nat) (exponent : Int) : Window :=
  let below := if mantissa = fullMantissa then 1 else 2
  let (unit, den) := ratio 1 (exponent - 2)
  ⟨(4 * mantissa - below) * unit, 4 * mantissa * unit, (4 * mantissa + 2) * unit, den,
    mantissa % 2 = 0⟩

def Window.contains (w : Window) (a b : Nat) : Bool :=
  if w.closed then w.low * b ≤ a * w.den && a * w.den ≤ w.high * b
  else w.low * b < a * w.den && a * w.den < w.high * b

def gridStep : Int → Nat × Nat
  | .ofNat e => (Nat.pow 10 e, 1)
  | .negSucc e => (1, Nat.pow 10 (e + 1))

/-- The multiple of a grid step that stands for the window's middle, if the window holds one. -/
def Window.onGrid? (w : Window) (exponent : Int) : Option Nat :=
  let (num, den) := gridStep exponent
  let lower := w.middle * den / (w.den * num)
  let distance := w.middle * den - lower * (w.den * num)
  match w.contains (lower * num) den, w.contains ((lower + 1) * num) den with
  | true, true => some (if 2 * distance < w.den * num then lower else lower + 1)
  | true, false => some lower
  | false, true => some (lower + 1)
  | false, false => none

def ofGrid (negative : Bool) (coefficient : Nat) : Int → Decimal
  | .ofNat e => ⟨negative, coefficient * Nat.pow 10 e, 0⟩
  | .negSucc e => ⟨negative, coefficient, e + 1⟩

/-- The point of the first grid that meets the window, going down from `10 ^ exponent`; the last
grid tried is `10 ^ (exponent - steps)`. -/
def Window.search (w : Window) (negative : Bool) : (steps : Nat) → (exponent : Int) → Decimal
  | 0, exponent => ofGrid negative ((w.onGrid? exponent).getD 0) exponent
  | steps + 1, exponent =>
    match w.onGrid? exponent with
    | some coefficient => ofGrid negative coefficient exponent
    | none => w.search negative steps (exponent - 1)

/-- The shortest numeral of `± mantissa * 2 ^ exponent`. The first grid is coarser than the window,
and the last holds the value itself. -/
def shortest (negative : Bool) (mantissa : Nat) (exponent : Int) : Decimal :=
  if mantissa = 0 then ⟨negative, 0, 0⟩
  else
    let w := Window.around mantissa exponent
    let top := (digits (w.high / w.den)).length
    w.search negative (top + (-exponent).toNat) top

def textOf (x : Float) : String :=
  match Binary.ofFloat x with
  | .notANumber => "NaN"
  | .infinite negative => if negative then "-inf" else "inf"
  | .finite negative mantissa exponent => (shortest negative mantissa exponent).text

end HostSheet.Decimal
