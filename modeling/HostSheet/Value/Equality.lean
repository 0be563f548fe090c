import HostSheet.Value.Basic

/-!
# Equality of sheet values

Two values are equal when they have the same structure and equal scalars; magnitudes and alphas
compare as numbers, so a NaN differs from itself and the two zeros are equal. The entries of maps
are compared as multisets: each entry of one map is paired with an equal entry of the other that no
earlier entry has taken.
-/

namespace HostSheet

/-- The list without the first element that satisfies `p`, if there is one. -/
def takeFirst? {α : Type} (p : α → Bool) : List α → Option (List α)
  | [] => none
  | a :: rest => if p a then some rest else (takeFirst? p rest).map (a :: ·)

namespace Value

mutual

def equal : Value → Value → Bool
  | .null, .null => true
  | .bool a, .bool b => a == b
  | .number a, .number b => a == b
  | .string a quoted, .string b quoted' => a == b && quoted == quoted'
  | .color a, .color b => a == b
  | .list items separator, .list items' separator' =>
    separator == separator' && equalItems items items'
  | .map entries, .map entries' => equalEntries entries entries'
  | .error a, .error b => a == b
  | .warning a, .warning b => a == b
  | _, _ => false

def equalItems : List Value → List Value → Bool
  | [], [] => true
  | a :: as, b :: bs => equal a b && equalItems as bs
  | _, _ => false

def equalEntries : List (Value × Value) → List (Value × Value) → Bool
  | [], others => others.isEmpty
  | (key, value) :: entries, others =>
    match takeFirst? (fun other => equal key other.1 && equal value other.2) others with
    | some others => equalEntries entries others
    | none => false

end

instance : BEq Value := ⟨equal⟩

end Value

end HostSheet
