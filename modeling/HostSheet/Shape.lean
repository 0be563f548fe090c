import HostSheet.Value.Basic

/-!
# Shapes

A host function says what it wants to be given by a shape. The decoder follows the shape and never
guesses from the value.
-/

namespace HostSheet

inductive ScalarKind where
  | null
  | bool
  | number
  | string
  | color
  deriving Repr, DecidableEq

def ScalarKind.name : ScalarKind → String
  | .null => "null"
  | .bool => "bool"
  | .number => "number"
  | .string => "string"
  | .color => "color"

/-- What a host asks a value to be: anything, one scalar, a fixed row of shapes, a list of one shape
of any length, or a map with one shape for its keys and one for its values. -/
inductive Shape where
  | any
  | scalar (kind : ScalarKind)
  | sequence (shapes : List Shape)
  | list (element : Shape)
  | map (key value : Shape)
  deriving Repr, Inhabited

namespace Shape

mutual

def equal : Shape → Shape → Bool
  | .any, .any => true
  | .scalar a, .scalar b => a == b
  | .sequence as, .sequence bs => equalAll as bs
  | .list a, .list b => equal a b
  | .map key value, .map key' value' => equal key key' && equal value value'
  | _, _ => false

def equalAll : List Shape → List Shape → Bool
  | [], [] => true
  | a :: as, b :: bs => equal a b && equalAll as bs
  | _, _ => false

end

instance : BEq Shape := ⟨equal⟩

mutual

def text : Shape → String
  | .any => "any"
  | .scalar kind => kind.name
  | .sequence shapes => "(" ++ String.intercalate ", " (texts shapes) ++ ")"
  | .list element => "list<" ++ element.text ++ ">"
  | .map key value => "map<" ++ key.text ++ ", " ++ value.text ++ ">"

def texts : List Shape → List String
  | [] => []
  | shape :: shapes => shape.text :: texts shapes

end

end Shape

end HostSheet
