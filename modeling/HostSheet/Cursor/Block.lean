import HostSheet.Cursor.Expression
import HostSheet.Cursor.Scan

/-!
# Sheets with a cursor

The cursor jumps behind the mark that a selector or a property was searched for. A sheet and a value
are read by a cursor that starts in front of the text.
-/

namespace HostSheet

namespace CursorM

/-- Passes over the semicolon behind a declaration; in front of a closing brace there need not be
one. -/
def endDeclaration : CursorM Unit := do
  let ended ← peek
  if ended = some ';' then
    let _ ← bump
  else if ended = some '}' then
    return ()
  else
    fail (.expected ';')

def parseDeclaration : CursorM (Declaration Location) := do
  let start ← offset
  match ← bytesBefore? isPropertyMark ':' with
  | none => fail (.expected ':')
  | some bytes =>
    let property := Text.trim (← textAhead bytes)
    if property.isEmpty || property.any Text.isBlank then
      fail .invalidProperty
    else
      advance (bytes + 1)
      skipTrivia
      let value ← parseCommaList
      skipTrivia
      endDeclaration
      return ⟨String.ofList property, value, ← location start⟩

mutual

def parseRule : CursorM (Rule Location) := do
  let start ← offset
  match ← bytesBefore? isBlockMark '{' with
  | none => fail (.expected '{')
  | some bytes =>
    let selectors := selectorsOf (← textAhead bytes)
    if selectors.isEmpty then
      fail .expectedSelector
    else
      advance (bytes + 1)
      let items ← by apply parseBlock
      return .mk selectors items (← location start)
partial_fixpoint

def parseBlock : CursorM (List (Item Location)) := do
  skipTrivia
  match ← peek with
  | none => fail (.expected '}')
  | some c =>
    if c = '}' then
      let _ ← bump
      return []
    else if c = ';' then
      let _ ← bump
      by apply parseBlock
    else if (← bytesBefore? isBlockMark '{').isSome then
      enter
      let rule ← by apply parseRule
      leave
      return .rule rule :: (← by apply parseBlock)
    else
      let declaration ← parseDeclaration
      return .declaration declaration :: (← by apply parseBlock)
partial_fixpoint

end

def parseRules : CursorM (Sheet Location) := do
  skipTrivia
  if (← peek).isNone then
    return []
  else
    let rule ← parseRule
    return rule :: (← by apply parseRules)
partial_fixpoint

def parseWhole : CursorM (Expr Location) := do
  skipTrivia
  let value ← parseCommaList
  skipTrivia
  match ← peek with
  | none => return value
  | some c => fail (.unexpected c)

def parse {α : Type} (p : CursorM α) (source : String) : Option (Except SyntaxError α) :=
  (p.exec source.toList ⟨0, 0⟩).map (Except.map Prod.fst)

end CursorM

end HostSheet
