import HostSheet.Sheet.Expression
import HostSheet.Sheet.Piece

/-!
# Rules and declarations

A block is read item by item. Whether an item is a rule or a declaration is seen by looking ahead
for the first brace or semicolon: an opening brace makes it a rule. Selectors are the text in front
of the brace, cut at its commas; a property is the text in front of the colon.
-/

namespace HostSheet

abbrev RawRule := Rule (List Char)
abbrev RawItem := Item (List Char)

def isBlockMark (c : Char) : Bool :=
  c == '{' || c == ';' || c == '}'

def isPropertyMark (c : Char) : Bool :=
  c == ':' || isBlockMark c

theorem length_of_findMark {isMark : Char → Bool} {s : List Char} {before : List Piece} {c : Char}
    {rest : List Char} (h : findMark isMark none 0 s = some (before, c :: rest)) :
    rest.length < s.length :=
  length_findMark_le h

/-- The text up to a mark, without its comments, provided that this is the first of all marks. -/
def textBefore? (isMark : Char → Bool) (mark : Char) (s : List Char) :
    Option (Taken (List Char) s) :=
  match h : findMark isMark none 0 s with
  | some (before, c :: rest) =>
    if c = mark then some ⟨withoutComments before, rest, length_of_findMark h⟩ else none
  | _ => none

def startsRule (s : List Char) : Bool :=
  (textBefore? isBlockMark '{' s).isSome

/-- The selectors of a rule: the text is cut at its commas, blanks are made single, and nothing is
left of empty parts. -/
def selectorsOf (text : List Char) : List String :=
  let parts := (Text.splitAtEach (· == ',') text).map fun part =>
    List.intercalate [' '] (Text.words part)
  (parts.filter (!·.isEmpty)).map String.ofList

/-- The end of a declaration: a semicolon, or a closing brace behind it. -/
def declarationEnd : (s : List Char) → Except Fault (Skipped Unit s)
  | ';' :: s => .ok (Taken.head () ';' s).toSkipped
  | '}' :: s => .ok (.nothing () ('}' :: s))
  | s => .error ⟨.expected ';', s⟩

/-- A declaration, its semicolon included. In front of a closing brace there need not be one. -/
def readDeclaration (value : Reader RawExpr) : Reader (Declaration (List Char)) := fun s =>
  match textBefore? isPropertyMark ':' s with
  | none => .error ⟨.expected ':', s⟩
  | some name => do
    let property := Text.trim name.value
    if property.isEmpty || property.any Text.isBlank then
      throw ⟨.invalidProperty, s⟩
    else
      let blank ← skipTrivia name.rest
      let v ← value blank.rest
      let blank' ← skipTrivia v.rest
      let ended ← declarationEnd blank'.rest
      return (name.andTake (blank.andTake (v.andSkip (blank'.andSkip ended)))).map
        fun _ => ⟨String.ofList property, v.value, s⟩

def blockItems (rule : Reader RawRule) (value : Reader RawExpr) (s : List Char) :
    Except Fault (Taken (List RawItem) s) := do
  let blank ← skipTrivia s
  match takeChar? '}' blank.rest, takeChar? ';' blank.rest with
  | some closed, _ => return (blank.andTake closed).map fun _ => []
  | none, some semicolon =>
    let more ← blockItems rule value semicolon.rest
    return blank.andTake (semicolon.andTake more)
  | none, none =>
    if blank.rest.isEmpty then
      throw ⟨.expected '}', blank.rest⟩
    else if startsRule blank.rest then
      let r ← rule blank.rest
      let more ← blockItems rule value r.rest
      return (blank.andTake (r.andTake more)).map (.rule r.value :: ·)
    else
      let d ← readDeclaration value blank.rest
      let more ← blockItems rule value d.rest
      return (blank.andTake (d.andTake more)).map (.declaration d.value :: ·)
termination_by s.length
decreasing_by
  · exact (blank.andTake semicolon).shorter
  · exact (blank.andTake r).shorter
  · exact (blank.andTake d).shorter

def ruleWith (rule : Reader RawRule) (value : Reader RawExpr) : Reader RawRule := fun s =>
  match textBefore? isBlockMark '{' s with
  | none => .error ⟨.expected '{', s⟩
  | some text => do
    let selectors := selectorsOf text.value
    if selectors.isEmpty then
      throw ⟨.expectedSelector, s⟩
    else
      let items ← blockItems rule value text.rest
      return (text.andTake items).map fun items => .mk selectors items s

/-- A rule with so many levels of rules, groups and calls in it at most. -/
def readRule : (levels : Nat) → Reader RawRule
  | 0 => ruleWith Reader.tooDeep (readValue 0)
  | levels + 1 => ruleWith (readRule levels) (readValue (levels + 1))

end HostSheet
