import HostSheet.Toml.Moment
import HostSheet.Toml.Node
import HostSheet.Toml.Number
import HostSheet.Toml.Quoted

/-!
# Keys and values

A pair gives a key a value. The value is a string, a number, a truth value, a moment, an array or an
inline table. Arrays may go over several lines and have a comma behind their last item; an inline
table stands on one line and has none. How deep they nest and how many parts a key has is limited.
-/

namespace HostSheet.Toml

/-- The number of arrays and inline tables that may stand inside each other. -/
def maxLevels : Nat := 79

def maxParts : Nat := 79

-- ---------------------------------------------------------------------------
-- Keys
-- ---------------------------------------------------------------------------

def isBare (c : Char) : Bool :=
  c.isAlphanum || c == '_' || c == '-'

def barePart : Scan String
  | [] => none
  | c :: s =>
    if isBare c then
      some (((Skipped.dropWhile isBare s).behind c).map fun part => String.ofList (c :: part))
    else none

def keyPart : Scan String := fun s => do
  let part ← (readLineString (skipBlanks s).rest).orElse fun _ => barePart (skipBlanks s).rest
  return ((skipBlanks s).andTake (part.andSkip (skipBlanks part.rest))).map fun _ => part.value

def readKey : (parts : Nat) → Scan Key
  | 0 => fun _ => none
  | parts + 1 => fun s => do
    let first ← keyPart s
    match takeChar? '.' first.rest with
    | none => return first.map ([·])
    | some point =>
      let more ← readKey parts point.rest
      return (first.andTake (point.andTake more)).map (first.value :: ·)

def readPair (value : Scan Value) : Scan (Key × Value) := fun s => do
  let key ← readKey maxParts s
  let equals ← takeChar? '=' key.rest
  let v ← value (skipBlanks equals.rest).rest
  return (key.andTake (equals.andTake ((skipBlanks equals.rest).andTake v))).map (key.value, ·)

-- ---------------------------------------------------------------------------
-- Values
-- ---------------------------------------------------------------------------

def scalar : Scan Value := fun s =>
  if s.head? = some '"' ∨ s.head? = some '\'' then (readString s).map (·.map .string)
  else if s.head? = some 't' then readWord "true".toList (.boolean true) s
  else if s.head? = some 'f' then readWord "false".toList (.boolean false) s
  else if startsMoment s then readMoment s
  else readNumber s

def arrayItems (item : Scan Value) (s : List Char) : Option (Taken (List Value) s) :=
  match takeChar? ']' (skipLines s).rest with
  | some closed => some (((skipLines s).andTake closed).map fun _ => [])
  | none => do
    let first ← item (skipLines s).rest
    match takeChar? ',' (skipLines first.rest).rest with
    | some comma =>
      let more ← arrayItems item comma.rest
      return ((skipLines s).andTake (first.andTake ((skipLines first.rest).andTake
        (comma.andTake more)))).map (first.value :: ·)
    | none =>
      let closed ← takeChar? ']' (skipLines first.rest).rest
      return ((skipLines s).andTake (first.andTake ((skipLines first.rest).andTake closed))).map
        fun _ => [first.value]
termination_by s.length
decreasing_by
  exact ((skipLines s).andTake (first.andTake ((skipLines first.rest).andTake comma))).shorter

/-- The pairs of an inline table up to its closing brace, from a key on. -/
def inlinePairs (value : Scan Value) (s : List Char) : Option (Taken (List (Key × Value)) s) := do
  let first ← readPair value s
  match takeChar? ',' (skipBlanks first.rest).rest with
  | some comma =>
    let more ← inlinePairs value comma.rest
    return (first.andTake ((skipBlanks first.rest).andTake (comma.andTake more))).map
      (first.value :: ·)
  | none =>
    let closed ← takeChar? '}' (skipBlanks first.rest).rest
    return (first.andTake ((skipBlanks first.rest).andTake closed)).map fun _ => [first.value]
termination_by s.length
decreasing_by exact (first.andTake ((skipBlanks first.rest).andTake comma)).shorter

def inlineTable (value : Scan Value) : Scan Value := fun s =>
  match takeChar? '}' (skipBlanks s).rest with
  | some closed => some (((skipBlanks s).andTake closed).map fun _ => .table [])
  | none => do
    let pairs ← inlinePairs value (skipBlanks s).rest
    let table ← tableOfPairs? pairs.value
    return ((skipBlanks s).andTake pairs).map fun _ => .table table

def readValue : (levels : Nat) → Scan Value
  | 0 => scalar
  | levels + 1 => fun s =>
    match s with
    | '[' :: s => (arrayItems (readValue levels) s).map fun items => (items.map .array).behind '['
    | '{' :: s => (inlineTable (readValue levels) s).map (·.behind '{')
    | s => scalar s

end HostSheet.Toml
