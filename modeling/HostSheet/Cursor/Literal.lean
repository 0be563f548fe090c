import HostSheet.Cursor.Basic

/-!
# Literals with a cursor

A number and a name are the text that the cursor passed over. The digits of a colour are cut two by
two.
-/

namespace HostSheet

-- ---------------------------------------------------------------------------
-- Texts of literals
-- ---------------------------------------------------------------------------

/-- The number that decimal digits with a sign and a point write; there are digits in front of the
point or behind it. -/
def decimal? (text : List Char) : Option Float :=
  let (negative, unsigned) := splitSign text
  let (integer, behind) := splitDigits unsigned
  match behind with
  | [] => if integer.isEmpty then none else some (Decimal.nearest negative integer [])
  | c :: behind =>
    let (fraction, more) := splitDigits behind
    if c = '.' ∧ more = [] ∧ ¬ (integer.isEmpty ∧ fraction.isEmpty) then
      some (Decimal.nearest negative integer fraction)
    else none

def hexByte? (digits : List Char) : Option UInt8 :=
  let value := digits.foldl (fun n c => 16 * n + hexValue c) 0
  if ¬ digits.isEmpty ∧ digits.all isHexDigit ∧ value < 256 then some (UInt8.ofNat value) else none

def colorOf (digits : List Char) : Option (Option Color) := do
  match Source.byteLength digits with
  | 3 =>
    let r ← Source.slice? digits 0 1
    let g ← Source.slice? digits 1 2
    let b ← Source.slice? digits 2 3
    return do return ⟨← hexByte? (r ++ r), ← hexByte? (g ++ g), ← hexByte? (b ++ b), 1⟩
  | 6 =>
    let r ← Source.slice? digits 0 2
    let g ← Source.slice? digits 2 4
    let b ← Source.slice? digits 4 6
    return do return ⟨← hexByte? r, ← hexByte? g, ← hexByte? b, 1⟩
  | 8 =>
    let r ← Source.slice? digits 0 2
    let g ← Source.slice? digits 2 4
    let b ← Source.slice? digits 4 6
    let a ← Source.slice? digits 6 8
    return do return ⟨← hexByte? r, ← hexByte? g, ← hexByte? b, Alpha.ofStep (← hexByte? a)⟩
  | _ => return none

-- ---------------------------------------------------------------------------
-- Cursors
-- ---------------------------------------------------------------------------

namespace CursorM

def parseColor : CursorM (Expr Location) := do
  let start ← offset
  expect '#'
  let ahead ← rest
  let bytes := (Source.findChar? (!isHexDigit ·) ahead).getD (Source.byteLength ahead)
  let digits ← Source.sliceTo? ahead bytes
  advance bytes
  if (← peek).any isNameChar then
    failAt start .invalidColor
  else
    match ← colorOf digits with
    | none => failAt start .invalidColor
    | some color => return .literal (.color color)

section
variable (start : Nat) (quote : Char)

def quotedText : CursorM (List Char) := do
  match ← bump with
  | none => failAt start .unterminatedString
  | some '\n' => failAt start .unterminatedString
  | some '\\' =>
    match ← bump with
    | none => failAt start .unterminatedString
    | some c => return c :: (← by apply quotedText)
  | some c => if c = quote then return [] else return c :: (← by apply quotedText)
partial_fixpoint

end

def parseQuoted : CursorM (Expr Location) := do
  let start ← offset
  let quote ← bump
  let text ← quotedText start (quote.getD '"')
  return .literal (.string (String.ofList text) true)

def passSign : CursorM Unit := do
  let sign ← peek
  if sign = some '+' ∨ sign = some '-' then
    let _ ← bump

def passFraction : CursorM Unit := do
  if (← peek) = some '.' ∧ (← peekSecond).any Char.isDigit then
    let _ ← bump
    bumpWhile Char.isDigit

def passUnit : CursorM Unit := do
  if !(← eat '%') then
    bumpWhile Char.isAlpha

def parseNumber : CursorM (Expr Location) := do
  let start ← offset
  passSign
  bumpWhile Char.isDigit
  passFraction
  match decimal? (← passed start) with
  | none => failAt start .invalidNumber
  | some magnitude =>
    let unitStart ← offset
    passUnit
    return .literal (.number ⟨magnitude, String.ofList (← passed unitStart)⟩)

end CursorM

end HostSheet
