/-!
# Sheet values

The values that style sheets are made of, and that pass between a sheet and the functions of its
host. A list keeps its separator, a string keeps whether it was quoted, and a map keeps its entries
in the order they were written. Errors and warnings are values that only a function can produce.
-/

namespace HostSheet

inductive Separator where
  | comma
  | space
  deriving Repr, DecidableEq

def Separator.text : Separator → String
  | .comma => ", "
  | .space => " "

structure Number where
  magnitude : Float
  unit : String
  deriving Repr, BEq

/-- A colour with eight bits a channel and an alpha that is meant to lie between 0 and 1. -/
structure Color where
  red : UInt8
  green : UInt8
  blue : UInt8
  alpha : Float
  deriving Repr, BEq

def Color.isOpaque (c : Color) : Bool :=
  1 ≤ c.alpha

inductive Value where
  | null
  | bool (b : Bool)
  | number (n : Number)
  | string (text : String) (quoted : Bool)
  | color (c : Color)
  | list (items : List Value) (separator : Separator)
  | map (entries : List (Value × Value))
  | error (message : String)
  | warning (message : String)
  deriving Repr, Inhabited

/-- The sort of a value, as messages name it. -/
inductive Kind where
  | null
  | bool
  | number
  | string
  | color
  | list
  | map
  | error
  | warning
  deriving Repr, DecidableEq

def Kind.name : Kind → String
  | .null => "null"
  | .bool => "bool"
  | .number => "number"
  | .string => "string"
  | .color => "color"
  | .list => "list"
  | .map => "map"
  | .error => "error"
  | .warning => "warning"

namespace Value

def kind : Value → Kind
  | .null => .null
  | .bool _ => .bool
  | .number _ => .number
  | .string .. => .string
  | .color _ => .color
  | .list .. => .list
  | .map _ => .map
  | .error _ => .error
  | .warning _ => .warning

def isComposite : Value → Bool
  | .list .. | .map _ => true
  | _ => false

/-- Errors and warnings are neither scalar nor composite. -/
def isScalar : Value → Bool
  | .null | .bool _ | .number _ | .string .. | .color _ => true
  | _ => false

def items? : Value → Option (List Value)
  | .list items _ => some items
  | _ => none

def separator? : Value → Option Separator
  | .list _ separator => some separator
  | _ => none

def emptyList : Value :=
  .list [] .comma

end Value

end HostSheet
