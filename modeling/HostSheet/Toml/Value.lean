import HostSheet.Text.Taken

/-!
# TOML values

Tables are lists of entries in the order in which their keys first appear; no key appears twice.
-/

namespace HostSheet.Toml

/-- A value of a TOML document. Dates and times are kept as they are written. -/
inductive Value where
  | string (text : String)
  | integer (n : Int)
  | float (x : Float)
  | boolean (b : Bool)
  | moment (text : String)
  | array (items : List Value)
  | table (entries : List (String × Value))
  deriving Repr, Inhabited

abbrev Table := List (String × Value)

def Table.find? (t : Table) (key : String) : Option Value :=
  (List.find? (fun entry => entry.1 == key) t).map (·.2)

abbrev Scan (α : Type) := (s : List Char) → Option (Taken α s)

def readWord {α : Type} (word : List Char) (value : α) : Scan α := fun s =>
  match word, s with
  | [c], d :: s => if c = d then some (.head value d s) else none
  | c :: c' :: word, d :: s =>
    if c = d then (readWord (c' :: word) value s).map (·.behind d) else none
  | _, _ => none

end HostSheet.Toml
