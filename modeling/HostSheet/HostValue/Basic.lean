import HostSheet.Decimal.Shortest
import HostSheet.Value.Basic

/-!
# Host values

The values that the functions of a host work on. A colour has an eight-bit alpha, strings have no
quote flag and sequences no separator. A function is known by its identity, and a foreign value only
by the name of its type; neither can be handed to a sheet.
-/

namespace HostSheet

structure Rgba where
  red : UInt8
  green : UInt8
  blue : UInt8
  alpha : UInt8
  deriving Repr, DecidableEq

inductive HostValue where
  | null
  | bool (b : Bool)
  | number (n : Number)
  | string (text : String)
  | color (c : Rgba)
  | sequence (items : List HostValue)
  | map (entries : List (HostValue × HostValue))
  | function (identity : Nat)
  | foreign (typeName : String)
  deriving Repr, Inhabited

namespace HostValue

def typeName : HostValue → String
  | .null => "null"
  | .bool _ => "bool"
  | .number _ => "number"
  | .string _ => "string"
  | .color _ => "color"
  | .sequence _ => "sequence"
  | .map _ => "map"
  | .function _ => "function"
  | .foreign name => name

def nullText : String := "<nil>"

mutual

/-- The text of a value, for messages and logs. Strings are not quoted and numbers are written with
the fewest digits. -/
def text : HostValue → String
  | .null => nullText
  | .bool b => if b then "true" else "false"
  | .number n => Decimal.textOf n.magnitude ++ n.unit
  | .string s => s
  | .color c =>
    "rgba(" ++ String.intercalate ", "
      [toString c.red.toNat, toString c.green.toNat, toString c.blue.toNat,
        toString c.alpha.toNat] ++ ")"
  | .sequence items => "[" ++ String.intercalate ", " (itemTexts items) ++ "]"
  | .map entries => "\x7b" ++ String.intercalate ", " (entryTexts entries) ++ "\x7d"
  | .function _ => "<function>"
  | .foreign name => "<" ++ name ++ ">"

def itemTexts : List HostValue → List String
  | [] => []
  | item :: items => item.text :: itemTexts items

def entryTexts : List (HostValue × HostValue) → List String
  | [] => []
  | (key, value) :: entries => (key.text ++ ": " ++ value.text) :: entryTexts entries

end

end HostValue

end HostSheet
