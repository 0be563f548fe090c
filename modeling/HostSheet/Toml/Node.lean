import HostSheet.Toml.Value

/-!
# Tables under construction

A document fills its tables piece by piece, so a table under construction remembers what made it. A
table is opened by one header at most, a table that a key of several parts made grows only by
further such keys, and nothing is ever replaced.
-/

namespace HostSheet.Toml

/-- The parts of a key, from the outermost table inwards. -/
abbrev Key := List String

/-- What made a table. -/
inductive Origin where
  /-- Headers of tables inside it. -/
  | implied
  /-- A header of its own. -/
  | opened
  /-- A key of several parts. -/
  | dotted
  deriving Repr, DecidableEq

/-- What a key stands for while the document is read. -/
inductive Node where
  | leaf (v : Value)
  | table (origin : Origin) (entries : List (String × Node))
  /-- Tables with one header in double brackets each. -/
  | tables (elements : List (List (String × Node)))
  deriving Repr, Inhabited

abbrev Entries := List (String × Node)

namespace Entries

/-- Changes what a key stands for; a new key goes to the end. -/
def alter (key : String) (change : Option Node → Option Node) : Entries → Option Entries
  | [] => do
    let node ← change none
    return [(key, node)]
  | (k, node) :: entries =>
    if k = key then do
      let node ← change (some node)
      return (k, node) :: entries
    else do
      let entries ← alter key change entries
      return (k, node) :: entries

/-- Changes the last element; there has to be one. -/
def onLast {α : Type} (change : α → Option α) : List α → Option (List α)
  | [] => none
  | [a] => (change a).map ([·])
  | a :: b :: as => (onLast change (b :: as)).map (a :: ·)

/-- Gives a new key a value. The last part but one names a table that a key of several parts made,
or makes it; no part names a table that has a header of its own. -/
def assign (v : Value) : Key → Entries → Option Entries
  | [], _ => none
  | [key], entries => entries.alter key fun node =>
    match node with
    | none => some (.leaf v)
    | some _ => none
  | key :: next :: parts, entries => entries.alter key fun node =>
    match node with
    | none => (assign v (next :: parts) []).map (.table .dotted)
    | some (.table .dotted inner) => (assign v (next :: parts) inner).map (.table .dotted)
    | some (.table .implied inner) =>
      if parts.isEmpty then none else (assign v (next :: parts) inner).map (.table .implied)
    | some (.tables elements) =>
      if parts.isEmpty then none else (onLast (assign v (next :: parts)) elements).map .tables
    | some (.table .opened _) => none
    | some (.leaf _) => none

/-- Changes the table that a key names. Tables on the way come to be where they are missing, and the
last of several tables stands for them. -/
def within (change : Entries → Option Entries) : Key → Entries → Option Entries
  | [], entries => change entries
  | key :: parts, entries => entries.alter key fun node =>
    match node with
    | none => (within change parts []).map (.table .implied)
    | some (.table origin inner) => (within change parts inner).map (.table origin)
    | some (.tables elements) => (onLast (within change parts) elements).map .tables
    | some (.leaf _) => none

def openTable (key : String) (entries : Entries) : Option Entries :=
  entries.alter key fun node =>
    match node with
    | none => some (.table .opened [])
    | some (.table .implied inner) => some (.table .opened inner)
    | some _ => none

/-- Opens a further table under the name that a header in double brackets has. -/
def openElement (key : String) (entries : Entries) : Option Entries :=
  entries.alter key fun node =>
    match node with
    | none => some (.tables [[]])
    | some (.tables elements) => some (.tables (elements ++ [[]]))
    | some _ => none

def atLast (change : String → Entries → Option Entries) (key : Key) (entries : Entries) :
    Option Entries := do
  let last ← key.getLast?
  entries.within (change last) key.dropLast

end Entries

mutual

def Node.toValue : Node → Value
  | .leaf v => v
  | .table _ entries => .table (Node.toTable entries)
  | .tables elements => .array (Node.toTables elements)

def Node.toTable : List (String × Node) → Table
  | [] => []
  | (key, node) :: entries => (key, node.toValue) :: Node.toTable entries

def Node.toTables : List (List (String × Node)) → List Value
  | [] => []
  | entries :: elements => .table (Node.toTable entries) :: Node.toTables elements

end

def tableOfPairs? (pairs : List (Key × Value)) : Option Table := do
  let entries ← pairs.foldlM (fun entries (key, v) => Entries.assign v key entries) []
  return Node.toTable entries

end HostSheet.Toml
