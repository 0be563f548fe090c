import HostSheet.Sheet.Basic
import HostSheet.Sheet.Literal
import HostSheet.Sheet.Trivia

/-!
# Expressions

A value is a comma list of space lists of primaries. A primary is a literal, a name, a call, or a
group in parentheses; a group is a value, a map, or the empty list. Calls and groups nest at most as
deep as the levels that are left, which each reader is given.

An expression read from a text has for its places the text from the place on.
-/

namespace HostSheet

/-- An expression whose places are the texts that start there. -/
abbrev RawExpr := Expr (List Char)

def atValueEnd : List Char → Bool
  | [] => true
  | c :: _ => c == ',' || c == ';' || c == '}' || c == '{' || c == ')' || c == ':'

def atClose : List Char → Bool
  | [] => false
  | c :: _ => c == ')'

-- ---------------------------------------------------------------------------
-- Lists
-- ---------------------------------------------------------------------------

def spaceItems (item : Reader RawExpr) (s : List Char) :
    Except Fault (Skipped (List RawExpr) s) := do
  let blank ← skipTrivia s
  if atValueEnd blank.rest then
    return blank.map fun _ => []
  else
    let first ← item blank.rest
    let more ← spaceItems item first.rest
    return (blank.andTake (first.andSkip more)).toSkipped.map (first.value :: ·)
termination_by s.length
decreasing_by exact (blank.andTake first).shorter

/-- A space list; it has at least one item, and a single item stands for itself. -/
def spaceList (item : Reader RawExpr) : Reader RawExpr := fun s => do
  if atValueEnd s then
    throw ⟨.expectedExpression, s⟩
  else
    let first ← item s
    let more ← spaceItems item first.rest
    return (first.andSkip more).map fun items => .collapse (first.value :: items) .space

/-- The further items of a comma list, or nothing where no comma stands. The last comma need not
have an item behind it. -/
def commaItems (item : Reader RawExpr) (atEnd : List Char → Bool) (s : List Char) :
    Except Fault (Skipped (Option (List RawExpr)) s) := do
  let blank ← skipTrivia s
  match takeChar? ',' blank.rest with
  | none => return blank.map fun _ => none
  | some comma =>
    let blank' ← skipTrivia comma.rest
    if atEnd blank'.rest then
      return (blank.andTake (comma.andSkip blank')).toSkipped.map fun _ => some []
    else
      let first ← item blank'.rest
      let more ← commaItems item atEnd first.rest
      return (blank.andTake (comma.andTake (blank'.andTake (first.andSkip more)))).toSkipped.map
        fun items => some (first.value :: items.getD [])
termination_by s.length
decreasing_by exact (blank.andTake (comma.andTake (blank'.andTake first))).shorter

def commaExpr (first : RawExpr) : Option (List RawExpr) → RawExpr
  | none => first
  | some items => .list (first :: items) .comma

def commaList (item : Reader RawExpr) : Reader RawExpr := fun s => do
  let first ← spaceList item s
  let more ← commaItems (spaceList item) atValueEnd first.rest
  return (first.andSkip more).map (commaExpr first.value)

-- ---------------------------------------------------------------------------
-- Groups and calls
-- ---------------------------------------------------------------------------

def entryValue (item : Reader RawExpr) : Reader RawExpr := fun s => do
  let blank ← skipTrivia s
  let colon ← Reader.expect ':' blank.rest
  let blank' ← skipTrivia colon.rest
  let value ← item blank'.rest
  return blank.andTake (colon.andTake (blank'.andTake value))

def mapItems (item : Reader RawExpr) (s : List Char) :
    Except Fault (Skipped (List (RawExpr × RawExpr)) s) := do
  let blank ← skipTrivia s
  match takeChar? ',' blank.rest with
  | none => return blank.map fun _ => []
  | some comma =>
    let blank' ← skipTrivia comma.rest
    if atClose blank'.rest then
      return (blank.andTake (comma.andSkip blank')).toSkipped.map fun _ => []
    else
      let key ← item blank'.rest
      let value ← entryValue item key.rest
      let more ← mapItems item value.rest
      return (blank.andTake (comma.andTake (blank'.andTake (key.andTake
        (value.andSkip more))))).toSkipped.map ((key.value, value.value) :: ·)
termination_by s.length
decreasing_by exact (blank.andTake (comma.andTake (blank'.andTake (key.andTake value)))).shorter

/-- What a group holds behind its first item: the entries of a map if a colon follows, else the
items of a list. -/
def groupRest (item : Reader RawExpr) (first : RawExpr) (s : List Char) :
    Except Fault (Skipped RawExpr s) := do
  let blank ← skipTrivia s
  match takeChar? ':' blank.rest with
  | some _ =>
    let value ← entryValue item s
    let more ← mapItems item value.rest
    return (value.andSkip more).toSkipped.map fun entries => .map ((first, value.value) :: entries)
  | none =>
    let more ← commaItems item atClose s
    return more.map (commaExpr first)

def readGroup (item : Reader RawExpr) : Reader RawExpr := fun s => do
  let opened ← Reader.expect '(' s
  let blank ← skipTrivia opened.rest
  if atClose blank.rest then
    let closed ← Reader.expect ')' blank.rest
    return (opened.andTake (blank.andTake closed)).map fun _ => .literal .emptyList
  else
    let first ← item blank.rest
    let inside ← groupRest item first.value first.rest
    let closed ← Reader.expect ')' inside.rest
    return (opened.andTake (blank.andTake (first.andTake (inside.andTake closed)))).map
      fun _ => inside.value

/-- The arguments of a call up to the closing parenthesis. The last comma need not have an argument
behind it. -/
def argumentItems (item : Reader RawExpr) (s : List Char) :
    Except Fault (Taken (List RawExpr) s) := do
  let blank ← skipTrivia s
  if atClose blank.rest then
    let closed ← Reader.expect ')' blank.rest
    return (blank.andTake closed).map fun _ => []
  else
    let first ← item blank.rest
    let blank' ← skipTrivia first.rest
    match takeChar? ',' blank'.rest with
    | some comma =>
      let more ← argumentItems item comma.rest
      return (blank.andTake (first.andTake (blank'.andTake (comma.andTake more)))).map
        (first.value :: ·)
    | none =>
      let closed ← Reader.expect ')' blank'.rest
      return (blank.andTake (first.andTake (blank'.andTake closed))).map fun _ => [first.value]
termination_by s.length
decreasing_by exact (blank.andTake (first.andTake (blank'.andTake comma))).shorter

def readArguments (item : Reader RawExpr) : Reader (List RawExpr) := fun s => do
  let opened ← Reader.expect '(' s
  let items ← argumentItems item opened.rest
  return opened.andTake items

-- ---------------------------------------------------------------------------
-- Primaries
-- ---------------------------------------------------------------------------

def readNameOrCall (arguments : Reader (List RawExpr)) : Reader RawExpr := fun s => do
  let name ← readName s
  match takeChar? '(' name.rest with
  | some _ =>
    let args ← arguments name.rest
    return (name.andTake args).map fun items => .call name.value items s
  | none => return name.map fun text => .literal (nameValue text)

def literal (read : Reader Value) : Reader RawExpr := fun s => do
  let r ← read s
  return r.map .literal

def primaryWith (group : Reader RawExpr) (arguments : Reader (List RawExpr)) : Reader RawExpr
  | [] => .error ⟨.expectedExpression, []⟩
  | c :: s =>
    if c = '(' then group (c :: s)
    else if c = '#' then literal readColor (c :: s)
    else if c = '"' ∨ c = '\'' then literal readQuoted (c :: s)
    else if startsNumber (c :: s) then literal readNumber (c :: s)
    else if isNameStart c ∨ c = '-' then readNameOrCall arguments (c :: s)
    else .error ⟨.unexpected c, c :: s⟩

/-- A primary with so many levels of groups and calls in it at most. -/
def readPrimary : (levels : Nat) → Reader RawExpr
  | 0 => primaryWith Reader.tooDeep Reader.tooDeep
  | levels + 1 =>
    primaryWith (readGroup (spaceList (readPrimary levels)))
      (readArguments (spaceList (readPrimary levels)))

def readValue (levels : Nat) : Reader RawExpr :=
  commaList (readPrimary levels)

end HostSheet
