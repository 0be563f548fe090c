import HostSheet.HostValue.Basic
import HostSheet.Value.Equality

/-!
# Equality of host values

Host values compare as sheet values do: scalars by value, sequences item by item, the entries of
maps as multisets. Two functions are equal when they are the same function, two foreign values when
their types have the same name.
-/

namespace HostSheet.HostValue

mutual

def equal : HostValue → HostValue → Bool
  | .null, .null => true
  | .bool a, .bool b => a == b
  | .number a, .number b => a == b
  | .string a, .string b => a == b
  | .color a, .color b => a == b
  | .sequence items, .sequence items' => equalItems items items'
  | .map entries, .map entries' => equalEntries entries entries'
  | .function a, .function b => a == b
  | .foreign a, .foreign b => a == b
  | _, _ => false

def equalItems : List HostValue → List HostValue → Bool
  | [], [] => true
  | a :: as, b :: bs => equal a b && equalItems as bs
  | _, _ => false

def equalEntries : List (HostValue × HostValue) → List (HostValue × HostValue) → Bool
  | [], others => others.isEmpty
  | (key, value) :: entries, others =>
    match takeFirst? (fun other => equal key other.1 && equal value other.2) others with
    | some others => equalEntries entries others
    | none => false

end

instance : BEq HostValue := ⟨equal⟩

end HostSheet.HostValue
