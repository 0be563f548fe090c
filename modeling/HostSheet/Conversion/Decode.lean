import HostSheet.Alpha
import HostSheet.HostValue.Basic
import HostSheet.Shape

/-!
# Decoding

`decode shape value` gives the host value that a sheet value stands for under a shape, or says why
there is none. Nothing is coerced. A value that is no list counts as its own only item where a list
shape or a row of one shape asks for items, and a list of pairs counts as a map. Errors and warnings
are never passed on.

A failure inside an element of a sequence or list says which element it was; maps and values of any
shape add no such mark.
-/

namespace HostSheet

inductive DecodeError where
  /-- Another type was asked for; both are named as messages name them. -/
  | mismatch (expected found : String)
  /-- A row of another length was asked for. -/
  | wrongCount (expected found : Nat)
  /-- Errors and warnings cannot be passed to a function. -/
  | notPassable (found : Kind)
  /-- A list stands for a map only if its items are lists of two. -/
  | notAPair (found : Kind)
  /-- The element at this place failed. -/
  | element (index : Nat) (cause : DecodeError)
  deriving Repr, DecidableEq

inductive DecodeError.Category where
  | typeMismatch
  | arityMismatch
  | unsupportedShape
  deriving Repr, DecidableEq

namespace DecodeError

/-- The sort of the innermost failure. -/
def category : DecodeError → Category
  | .mismatch .. => .typeMismatch
  | .wrongCount .. => .arityMismatch
  | .notPassable _ | .notAPair _ => .unsupportedShape
  | .element _ cause => cause.category

def message : DecodeError → String
  | .mismatch expected found => "type mismatch: expected " ++ expected ++ ", found " ++ found
  | .wrongCount expected found =>
    "arity mismatch: expected " ++ toString expected ++ " values, found " ++ toString found
  | .notPassable found =>
    "unsupported shape: " ++ found.name ++ " values cannot be passed to a function"
  | .notAPair found =>
    "unsupported shape: map entry must be a key/value pair, found " ++ found.name
  | .element index cause => "element " ++ toString index ++ ": " ++ cause.message

end DecodeError

def atElement {α : Type} (index : Nat) : Except DecodeError α → Except DecodeError α
  | .ok a => .ok a
  | .error cause => .error (.element index cause)

mutual

def decodeAny : Value → Except DecodeError HostValue
  | .null => .ok .null
  | .bool b => .ok (.bool b)
  | .number n => .ok (.number n)
  | .string text _ => .ok (.string text)
  | .color c => .ok (.color c.toRgba)
  | .list items _ => return .sequence (← decodeAnyItems items)
  | .map entries => return .map (← decodeAnyEntries entries)
  | .error _ => .error (.notPassable .error)
  | .warning _ => .error (.notPassable .warning)

def decodeAnyItems : List Value → Except DecodeError (List HostValue)
  | [] => .ok []
  | item :: items => do
    let first ← decodeAny item
    return first :: (← decodeAnyItems items)

def decodeAnyEntries : List (Value × Value) → Except DecodeError (List (HostValue × HostValue))
  | [] => .ok []
  | (key, value) :: entries => do
    let key ← decodeAny key
    let value ← decodeAny value
    return (key, value) :: (← decodeAnyEntries entries)

end

/-- The scalar of the kind asked for; no kind is turned into another. -/
def decodeScalar : ScalarKind → Value → Except DecodeError HostValue
  | .null, .null => .ok .null
  | .bool, .bool b => .ok (.bool b)
  | .number, .number n => .ok (.number n)
  | .string, .string text _ => .ok (.string text)
  | .color, .color c => .ok (.color c.toRgba)
  | kind, value => .error (.mismatch kind.name value.kind.name)

/-- The items that a row of `count` shapes is matched against. -/
def rowItems (count : Nat) : Value → Except DecodeError (List Value)
  | .list items _ => .ok items
  | value => if count = 1 then .ok [value] else .error (.mismatch "list" value.kind.name)

/-- The items that a list shape is matched against. -/
def listItems : Value → List Value
  | .list items _ => items
  | value => [value]

def entryOf : Value → Except DecodeError (Value × Value)
  | .list [key, value] _ => .ok (key, value)
  | value => .error (.notAPair value.kind)

/-- The entries that a map shape is matched against. A list is looked through as a whole before any
entry is decoded. -/
def mapEntries : Value → Except DecodeError (List (Value × Value))
  | .map entries => .ok entries
  | .list items _ => items.mapM entryOf
  | value => .error (.mismatch "map" value.kind.name)

def decodeItems (decodeItem : Value → Except DecodeError HostValue) :
    (index : Nat) → List Value → Except DecodeError (List HostValue)
  | _, [] => .ok []
  | index, item :: items => do
    let first ← atElement index (decodeItem item)
    return first :: (← decodeItems decodeItem (index + 1) items)

def decodeEntries (decodeKey decodeValue : Value → Except DecodeError HostValue) :
    List (Value × Value) → Except DecodeError (List (HostValue × HostValue))
  | [] => .ok []
  | (key, value) :: entries => do
    let key ← decodeKey key
    let value ← decodeValue value
    return (key, value) :: (← decodeEntries decodeKey decodeValue entries)

mutual

/-- The host value that a sheet value stands for under a shape. -/
def decode : Shape → Value → Except DecodeError HostValue
  | .any, value => decodeAny value
  | .scalar kind, value => decodeScalar kind value
  | .sequence shapes, value => do
    let items ← rowItems shapes.length value
    if items.length ≠ shapes.length then
      throw (.wrongCount shapes.length items.length)
    return .sequence (← decodeRow shapes 0 items)
  | .list element, value => do
    return .sequence (← decodeItems (decode element) 0 (listItems value))
  | .map key value, entries => do
    return .map (← decodeEntries (decode key) (decode value) (← mapEntries entries))

/-- Decodes a row, each item under its own shape. Both lists have the same length. -/
def decodeRow : List Shape → (index : Nat) → List Value → Except DecodeError (List HostValue)
  | shape :: shapes, index, item :: items => do
    let first ← atElement index (decode shape item)
    return first :: (← decodeRow shapes (index + 1) items)
  | _, _, _ => .ok []

end

end HostSheet
