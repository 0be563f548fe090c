import HostSheet.Conversion.Decode
import HostSheet.Conversion.Encode

/-!
# Typed values

A host function is usually written over types, not over host values. `HostType` names the types that
can be received: each has a carrier, the shape it is decoded under, and the two conversions between
its carrier and host values. `ToHost` is the class of types that can be sent.
-/

namespace HostSheet

/-- The types that a host can receive. -/
inductive HostType where
  | bool
  | string
  | number
  | color
  | any
  | list (element : HostType)
  | tuple (components : List HostType)
  deriving Repr, Inhabited

namespace HostType

mutual

def Carrier : HostType → Type
  | .bool => Bool
  | .string => String
  | .number => Number
  | .color => Rgba
  | .any => HostValue
  | .list element => List (Carrier element)
  | .tuple components => Components components

def Components : List HostType → Type
  | [] => Unit
  | t :: ts => Carrier t × Components ts

end

mutual

def shape : HostType → Shape
  | .bool => .scalar .bool
  | .string => .scalar .string
  | .number => .scalar .number
  | .color => .scalar .color
  | .any => .any
  | .list element => .list element.shape
  | .tuple components => .sequence (shapes components)

def shapes : List HostType → List Shape
  | [] => []
  | t :: ts => t.shape :: shapes ts

end

mutual

def toHost : (t : HostType) → t.Carrier → HostValue
  | .bool, b => .bool b
  | .string, text => .string text
  | .number, n => .number n
  | .color, c => .color c
  | .any, value => value
  | .list element, items => .sequence (List.map (toHost element) items)
  | .tuple components, values => .sequence (componentsToHost components values)

def componentsToHost : (ts : List HostType) → Components ts → List HostValue
  | [], _ => []
  | t :: ts, (value, values) => toHost t value :: componentsToHost ts values

end

def mismatch {α : Type} (expected : String) (found : HostValue) : Except DecodeError α :=
  .error (.mismatch expected found.typeName)

mutual

def ofHost : (t : HostType) → HostValue → Except DecodeError t.Carrier
  | .bool, value =>
    match value with
    | .bool b => .ok b
    | found => mismatch "bool" found
  | .string, value =>
    match value with
    | .string text => .ok text
    | found => mismatch "string" found
  | .number, value =>
    match value with
    | .number n => .ok n
    | found => mismatch "number" found
  | .color, value =>
    match value with
    | .color c => .ok c
    | found => mismatch "color" found
  | .any, value => .ok value
  | .list element, value =>
    match value with
    | .sequence items => items.mapM (ofHost element)
    | found => mismatch "sequence" found
  | .tuple components, value =>
    match value with
    | .sequence items =>
      if items.length ≠ components.length then
        .error (.wrongCount components.length items.length)
      else componentsOfHost components items
    | found => mismatch "sequence" found

/-- Converts from left to right; a component without a value is given null. -/
def componentsOfHost : (ts : List HostType) → List HostValue → Except DecodeError (Components ts)
  | [], _ => .ok ()
  | t :: ts, items => do
    let value ← ofHost t (items.headD .null)
    let values ← componentsOfHost ts items.tail
    return (value, values)

end

/-- Decodes a sheet value straight into a typed one. -/
def unmarshal (t : HostType) (value : Value) : Except DecodeError t.Carrier := do
  t.ofHost (← decode t.shape value)

end HostType

/-- The types whose values a host can hand to a sheet. -/
class ToHost (α : Type) where
  toHost : α → HostValue

export ToHost (toHost)

instance : ToHost HostValue := ⟨id⟩
instance : ToHost Bool := ⟨.bool⟩
instance : ToHost String := ⟨.string⟩
instance : ToHost Number := ⟨.number⟩
instance : ToHost Rgba := ⟨.color⟩

instance : ToHost Float := ⟨fun x => .number ⟨x, ""⟩⟩

instance {α : Type} [ToHost α] : ToHost (List α) := ⟨fun items => .sequence (items.map toHost)⟩

instance {α : Type} [ToHost α] : ToHost (Option α) := ⟨fun value => (value.map toHost).getD .null⟩

def marshal {α : Type} [ToHost α] (value : α) : Except EncodeError Value :=
  encode (toHost value)

end HostSheet
