import HostSheet.Alpha
import HostSheet.Decimal.Binary
import HostSheet.Value.Basic

/-!
# Values as CSS text

`Formatter.value` prints the value of a declaration. Blank values (null, warnings, and nested lists
of nothing but blank values) are left out together with their separators; a value that is wholly
blank has no text, so that its declaration is dropped. Maps and errors cannot be printed.

`Formatter.inspect` prints every value, for messages: what cannot be printed as CSS is written as a
sheet would write it.
-/

namespace HostSheet

inductive OutputStyle where
  | expanded
  | compressed
  deriving Repr, DecidableEq

inductive EmitError where
  | invalidValue (text : String)
  | errorValue (message : String)
  deriving Repr, DecidableEq

def EmitError.message : EmitError → String
  | .invalidValue text => text ++ " isn't a valid CSS value."
  | .errorValue message => message

/-- The most decimal places that are printed; further digits of a double mean nothing. -/
def maxPlaces : Nat := 15

structure Formatter where
  style : OutputStyle
  precision : Nat
  deriving Repr, DecidableEq

namespace Formatter

def isCompressed (f : Formatter) : Bool :=
  f.style == .compressed

def places (f : Formatter) : Nat :=
  min f.precision maxPlaces

def separator (f : Formatter) : Separator → String
  | .comma => if f.isCompressed then "," else ", "
  | .space => " "

def magnitude (f : Formatter) (x : Float) : String :=
  match Decimal.Binary.ofFloat x with
  | .notANumber => "NaN"
  | .infinite negative => if negative then "-inf" else "inf"
  | .finite negative mantissa exponent =>
    let d := (Decimal.fixed f.places negative mantissa exponent).dropZeroSign
    if f.isCompressed then d.terseText else d.text

def number (f : Formatter) (n : Number) : String :=
  f.magnitude n.magnitude ++ n.unit

def hexDigit (n : Nat) : Char :=
  Nat.digitChar n

def channelDigits (channel : UInt8) : List Char :=
  [hexDigit (channel.toNat / 16), hexDigit (channel.toNat % 16)]

def isDoubled (channel : UInt8) : Bool :=
  channel.toNat / 16 == channel.toNat % 16

/-- An opaque colour in hexadecimal, in three digits where the formatter keeps things short and each
channel repeats its digit. -/
def opaqueColor (f : Formatter) (c : Color) : String :=
  if f.isCompressed && isDoubled c.red && isDoubled c.green && isDoubled c.blue then
    String.ofList ('#' :: [c.red, c.green, c.blue].map fun channel => hexDigit (channel.toNat % 16))
  else
    String.ofList ('#' :: [c.red, c.green, c.blue].flatMap channelDigits)

def color (f : Formatter) (c : Color) : String :=
  if c.isOpaque then f.opaqueColor c
  else
    "rgba(" ++ String.intercalate (f.separator .comma)
      [toString c.red.toNat, toString c.green.toNat, toString c.blue.toNat,
        f.magnitude (Alpha.clamp c.alpha)] ++ ")"

/-- The text of a string with quotes and backslashes escaped. -/
def escape : List Char → List Char
  | [] => []
  | c :: cs => if c = '"' ∨ c = '\\' then '\\' :: c :: escape cs else c :: escape cs

def quote (text : String) : String :=
  String.ofList ('"' :: escape text.toList ++ ['"'])

def scalar? (f : Formatter) : Value → Option String
  | .bool b => some (if b then "true" else "false")
  | .number n => some (f.number n)
  | .string text quoted => some (if quoted then quote text else text)
  | .color c => some (f.color c)
  | _ => none

-- ---------------------------------------------------------------------------
-- Inspection
-- ---------------------------------------------------------------------------

def needsParens : Value → Bool
  | .list (_ :: _) _ => true
  | _ => false

mutual

/-- Any value as text. Lists inside lists are put in parentheses. -/
def inspect (f : Formatter) : Value → String
  | .null => "null"
  | .list [] _ => "()"
  | .list (item :: items) separator =>
    String.intercalate separator.text (f.inspectItems (item :: items))
  | .map entries => "(" ++ String.intercalate ", " (f.inspectEntries entries) ++ ")"
  | .error message => message
  | .warning message => message
  | value => (f.scalar? value).getD ""

def inspectItems (f : Formatter) : List Value → List String
  | [] => []
  | item :: items =>
    (if needsParens item then "(" ++ f.inspect item ++ ")" else f.inspect item) ::
      f.inspectItems items

def inspectEntries (f : Formatter) : List (Value × Value) → List String
  | [] => []
  | (key, value) :: entries =>
    (f.inspect key ++ ": " ++ f.inspect value) :: f.inspectEntries entries

end

-- ---------------------------------------------------------------------------
-- Declaration values
-- ---------------------------------------------------------------------------

mutual

/-- The text of a value inside a list, or nothing if it is blank. -/
def css (f : Formatter) : Value → Except EmitError (Option String)
  | .null => .ok none
  | .warning _ => .ok none
  | .list items separator => do
    match ← f.cssItems items with
    | [] => return none
    | parts => return some (String.intercalate (f.separator separator) parts)
  | .map entries => .error (.invalidValue (f.inspect (.map entries)))
  | .error message => .error (.errorValue message)
  | value => .ok (f.scalar? value)

def cssItems (f : Formatter) : List Value → Except EmitError (List String)
  | [] => .ok []
  | item :: items => do
    let first ← f.css item
    let more ← f.cssItems items
    return first.toList ++ more

end

/-- The text of a declaration value, or nothing if it is blank. The empty list is no value. -/
def value (f : Formatter) (v : Value) : Except EmitError (Option String) :=
  match v with
  | .list [] _ => .error (.invalidValue "()")
  | v => f.css v

end Formatter

end HostSheet
