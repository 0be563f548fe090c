import HostSheet.Alpha
import HostSheet.HostValue.Basic

/-!
# Encoding

`encode` turns a host value back into a sheet value. Strings come back quoted and sequences as comma
lists. Functions and foreign values have no counterpart in a sheet, and nothing deeper than
`maxDepth` levels is followed.
-/

namespace HostSheet

/-- The deepest level that is encoded; the outermost value is at level 0. -/
def maxDepth : Nat := 256

inductive EncodeError where
  | tooDeep
  | unsupported (typeName : String)
  deriving Repr, DecidableEq

namespace EncodeError

def typeName : EncodeError → String
  | .tooDeep => "structure nested deeper than " ++ toString maxDepth ++ " levels"
  | .unsupported name => name

def message (e : EncodeError) : String :=
  "unsupported native type: " ++ e.typeName

end EncodeError

mutual

/-- Encodes a value that lies `depth` levels below the outermost one. The depth is looked at before
the value. -/
def encodeAt (depth : Nat) (value : HostValue) : Except EncodeError Value :=
  if maxDepth < depth then .error .tooDeep
  else
    match value with
    | .null => .ok .null
    | .bool b => .ok (.bool b)
    | .number n => .ok (.number n)
    | .string text => .ok (.string text true)
    | .color c => .ok (.color c.toColor)
    | .sequence items => return .list (← encodeItems (depth + 1) items) .comma
    | .map entries => return .map (← encodeEntries (depth + 1) entries)
    | .function identity => .error (.unsupported (HostValue.function identity).typeName)
    | .foreign name => .error (.unsupported name)

def encodeItems (depth : Nat) : List HostValue → Except EncodeError (List Value)
  | [] => .ok []
  | item :: items => do
    let first ← encodeAt depth item
    return first :: (← encodeItems depth items)

def encodeEntries (depth : Nat) :
    List (HostValue × HostValue) → Except EncodeError (List (Value × Value))
  | [] => .ok []
  | (key, value) :: entries => do
    let key ← encodeAt depth key
    let value ← encodeAt depth value
    return (key, value) :: (← encodeEntries depth entries)

end

def encode (value : HostValue) : Except EncodeError Value :=
  encodeAt 0 value

end HostSheet
