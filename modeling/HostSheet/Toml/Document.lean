import HostSheet.Toml.Pair

/-!
# TOML documents

A document is a list of statements, each on a line of its own: a header opens a table, and the pairs
behind it go into that table. `Table.parse?` reads the table that a whole document describes.
-/

namespace HostSheet.Toml

inductive Statement where
  | table (key : Key)
  | element (key : Key)
  | pair (key : Key) (v : Value)
  deriving Repr

def readStatement : Scan Statement
  | '[' :: '[' :: s => do
    let key ← readKey maxParts s
    let inner ← takeChar? ']' key.rest
    let outer ← takeChar? ']' inner.rest
    return (((key.andTake (inner.andTake outer)).map fun _ => .element key.value).behind '[').behind
      '['
  | '[' :: s => do
    let key ← readKey maxParts s
    let closed ← takeChar? ']' key.rest
    return ((key.andTake closed).map fun _ => .table key.value).behind '['
  | s => (readPair (readValue maxLevels) s).map (·.map fun (key, v) => .pair key v)

def readLine : Scan Statement := fun s => do
  let statement ← readStatement (skipLines s).rest
  let ended ← finishLine? statement.rest
  return ((skipLines s).andTake (statement.andSkip ended)).map fun _ => statement.value

def readStatements (s : List Char) : Option (List Statement) :=
  if (skipLines s).rest.isEmpty then some []
  else do
    let first ← readLine s
    let more ← readStatements first.rest
    return first.value :: more
termination_by s.length
decreasing_by exact first.shorter

/-- A document as far as it is read: its tables, and the table that pairs go into. -/
structure Draft where
  root : Entries := []
  current : Key := []

def Draft.add? (draft : Draft) : Statement → Option Draft
  | .table key => do
    let root ← draft.root.atLast Entries.openTable key
    return ⟨root, key⟩
  | .element key => do
    let root ← draft.root.atLast Entries.openElement key
    return ⟨root, key⟩
  | .pair key v => do
    let root ← draft.root.within (Entries.assign v key) draft.current
    return { draft with root }

def dropMark : List Char → List Char
  | '\ufeff' :: s => s
  | s => s

def Table.parse? (text : String) : Option Table := do
  let statements ← readStatements (dropMark text.toList)
  let draft ← statements.foldlM Draft.add? {}
  return Node.toTable draft.root

end HostSheet.Toml
