import HostSheet.Cursor.Literal

/-!
# Expressions with a cursor

The cursor counts the levels of groups and calls that it has entered. Calls are located as soon as
they are read.
-/

namespace HostSheet.CursorM

/-- The first item of a comma list with the further ones, if there are any; else that item alone. -/
def commaValue (first : Expr Location) : Option (List (Expr Location)) → Expr Location
  | none => first
  | some items => .list (first :: items) .comma

mutual

def parsePrimary : CursorM (Expr Location) := do
  match ← peek with
  | none => fail .expectedExpression
  | some c =>
    if c = '(' then
      enter
      let group ← by apply parseGroup
      leave
      return group
    else if c = '#' then parseColor
    else if c = '"' ∨ c = '\'' then parseQuoted
    else if startsNumber (← rest) then parseNumber
    else if isNameStart c ∨ c = '-' then by apply parseNameOrCall
    else fail (.unexpected c)
partial_fixpoint

def parseNameOrCall : CursorM (Expr Location) := do
  let start ← offset
  if (← peek) = some '-' ∧ ¬ (← peekSecond).any (fun c => isNameStart c || c == '-') then
    fail (.unexpected '-')
  else
    bumpWhile isNameChar
    let name ← passed start
    if (← peek) = some '(' then
      enter
      let args ← by apply parseArguments
      leave
      return .call (String.ofList name) args (← location start)
    else
      return .literal (nameValue (String.ofList name))
partial_fixpoint

def parseArguments : CursorM (List (Expr Location)) := do
  expect '('
  by apply argumentLoop
partial_fixpoint

def argumentLoop : CursorM (List (Expr Location)) := do
  skipTrivia
  if ← eat ')' then
    return []
  else
    let first ← by apply parseSpaceList
    skipTrivia
    if ← eat ',' then
      return first :: (← by apply argumentLoop)
    else
      skipTrivia
      expect ')'
      return [first]
partial_fixpoint

def parseGroup : CursorM (Expr Location) := do
  expect '('
  skipTrivia
  if ← eat ')' then
    return .literal .emptyList
  else
    let first ← by apply parseSpaceList
    let group ← by apply parseGroupRest; exact first
    expect ')'
    return group
partial_fixpoint

def parseGroupRest (first : Expr Location) : CursorM (Expr Location) := do
  skipTrivia
  if ← eat ':' then
    skipTrivia
    let value ← by apply parseSpaceList
    let more ← by apply entryLoop
    return .map ((first, value) :: more)
  else
    return commaValue first (← by apply commaLoop; exact atClose)
partial_fixpoint

def parseEntryValue : CursorM (Expr Location) := do
  skipTrivia
  expect ':'
  skipTrivia
  by apply parseSpaceList
partial_fixpoint

def entryLoop : CursorM (List (Expr Location × Expr Location)) := do
  skipTrivia
  if ← eat ',' then
    skipTrivia
    if atClose (← rest) then
      return []
    else
      let key ← by apply parseSpaceList
      let value ← by apply parseEntryValue
      return (key, value) :: (← by apply entryLoop)
  else
    return []
partial_fixpoint

def commaLoop (atEnd : List Char → Bool) : CursorM (Option (List (Expr Location))) := do
  skipTrivia
  if ← eat ',' then
    skipTrivia
    if atEnd (← rest) then
      return some []
    else
      let first ← by apply parseSpaceList
      let more : Option _ ← by apply commaLoop; exact atEnd
      return some (first :: more.getD [])
  else
    return none
partial_fixpoint

def parseSpaceList : CursorM (Expr Location) := do
  if atValueEnd (← rest) then
    fail .expectedExpression
  else
    let first ← by apply parsePrimary
    let more ← by apply spaceLoop
    return .collapse (first :: more) .space
partial_fixpoint

def spaceLoop : CursorM (List (Expr Location)) := do
  skipTrivia
  if atValueEnd (← rest) then
    return []
  else
    let first ← by apply parsePrimary
    return first :: (← by apply spaceLoop)
partial_fixpoint

end

def parseCommaList : CursorM (Expr Location) := do
  let first ← parseSpaceList
  return commaValue first (← commaLoop atValueEnd)

end HostSheet.CursorM
