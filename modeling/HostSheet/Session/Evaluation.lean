import HostSheet.Css.Block
import HostSheet.Registry
import HostSheet.Sheet.Parse

/-!
# Evaluation

A sheet is evaluated in the order in which it is written: rules from the top, the items of a rule in
turn, the arguments of a call before the call. A call to a bound function runs it; a call to any
other name is plain CSS and becomes an unquoted string. The first failure ends the evaluation.

A nested rule becomes a block of its own behind the block of its parent. The declarations of a rule
stay together in its block, also those that are written behind a nested rule.
-/

namespace HostSheet

inductive CompileCause where
  | unreadable (cause : SyntaxCause)
  | call (error : CallError)
  | unprintable (error : EmitError)
  deriving Repr, DecidableEq

def CompileCause.message : CompileCause → String
  | .unreadable cause => cause.message
  | .call error => error.message
  | .unprintable error => error.message

structure CompileError where
  cause : CompileCause
  place : Location
  deriving Repr, DecidableEq

structure RaisedWarning where
  message : String
  place : Location
  deriving Repr, DecidableEq

/-- What does not change during an evaluation. -/
structure Setting where
  session : SessionInfo
  formatter : Formatter

/-- What an evaluation works on: the registry, and the warnings so far, oldest first. -/
structure EvalState (σ : Type) where
  registry : Registry σ
  warnings : List RaisedWarning := []

def EvalState.warn {σ : Type} (state : EvalState σ) (w : RaisedWarning) : EvalState σ :=
  { state with warnings := state.warnings ++ [w] }

/-- A part of an evaluation. The state outlives a failure. -/
abbrev EvalM (σ : Type) := ExceptT CompileError (StateM (EvalState σ))

-- ---------------------------------------------------------------------------
-- Selectors
-- ---------------------------------------------------------------------------

def replaceAmpersands (parent : List Char) : List Char → List Char
  | [] => []
  | c :: cs =>
    if c = '&' then parent ++ replaceAmpersands parent cs else c :: replaceAmpersands parent cs

/-- A selector under one parent: `&` stands for the parent, and a selector without `&` is written
behind it. -/
def resolveSelector (parent selector : String) : String :=
  if '&' ∈ selector.toList then
    String.ofList (replaceAmpersands parent.toList selector.toList)
  else parent ++ " " ++ selector

/-- The selectors of a rule under the selectors of its parent: all selectors under the first parent,
then all under the second. A rule at the top has no parents. -/
def resolveSelectors (parents selectors : List String) : List String :=
  if parents.isEmpty then selectors
  else parents.flatMap fun parent => selectors.map (resolveSelector parent)

-- ---------------------------------------------------------------------------
-- Values
-- ---------------------------------------------------------------------------

namespace Setting

variable {σ : Type}

def printed (setting : Setting) (place : Location) (value : Value) : EvalM σ (Option String) :=
  match setting.formatter.value value with
  | .ok text => return text
  | .error e => throw ⟨.unprintable e, place⟩

/-- The printed arguments of a plain call; blank ones are left out. -/
def printedArgs (setting : Setting) (place : Location) : List Value → EvalM σ (List String)
  | [] => return []
  | arg :: args => do
    let first ← setting.printed place arg
    let more ← setting.printedArgs place args
    return first.toList ++ more

/-- A call that no function answers: its own text. -/
def plainCall (setting : Setting) (name : String) (args : List Value) (place : Location) :
    EvalM σ Value := do
  let texts ← setting.printedArgs place args
  let text := String.intercalate (setting.formatter.separator .comma) texts
  return .string (name ++ "(" ++ text ++ ")") false

/-- A call to a bound function. A warning is noted, and the value of the call is null. -/
def boundCall (setting : Setting) (name : String) (args : List Value) (place : Location) :
    EvalM σ Value := do
  let state ← get
  let (outcome, registry) := state.registry.dispatch setting.session name ⟨args⟩
  set { state with registry }
  match outcome with
  | .ok (.warning message) =>
    modify (·.warn ⟨message, place⟩)
    return .null
  | .ok value => return value
  | .error e => throw ⟨.call e, place⟩

mutual

def evalExpr (setting : Setting) : Expr Location → EvalM σ Value
  | .literal value => return value
  | .list items separator => do return .list (← setting.evalItems items) separator
  | .map entries => do return .map (← setting.evalEntries entries)
  | .call name args place => do
    let args ← setting.evalItems args
    if (← get).registry.contains name then setting.boundCall name args place
    else setting.plainCall name args place

def evalItems (setting : Setting) : List (Expr Location) → EvalM σ (List Value)
  | [] => return []
  | item :: items => do
    let first ← setting.evalExpr item
    let more ← setting.evalItems items
    return first :: more

def evalEntries (setting : Setting) :
    List (Expr Location × Expr Location) → EvalM σ (List (Value × Value))
  | [] => return []
  | (key, value) :: entries => do
    let key ← setting.evalExpr key
    let value ← setting.evalExpr value
    let more ← setting.evalEntries entries
    return (key, value) :: more

end

-- ---------------------------------------------------------------------------
-- Rules
-- ---------------------------------------------------------------------------

def evalDeclaration (setting : Setting) (d : Declaration Location) :
    EvalM σ (Option (String × String)) := do
  let value ← setting.evalExpr d.value
  let text ← setting.printed d.place value
  return text.map fun text => (d.property, text)

mutual

def evalRule (setting : Setting) (parents : List String) : Rule Location → EvalM σ (List Block)
  | .mk selectors items _ => do
    let selectors := resolveSelectors parents selectors
    let (declarations, nested) ← setting.evalBlock selectors items
    return ⟨selectors, declarations⟩ :: nested

/-- The declarations of a rule's own block, and the blocks of the rules nested in it. -/
def evalBlock (setting : Setting) (selectors : List String) :
    List (Item Location) → EvalM σ (List (String × String) × List Block)
  | [] => return ([], [])
  | .declaration d :: items => do
    let declaration ← setting.evalDeclaration d
    let (declarations, nested) ← setting.evalBlock selectors items
    return (declaration.toList ++ declarations, nested)
  | .rule r :: items => do
    let blocks ← setting.evalRule selectors r
    let (declarations, nested) ← setting.evalBlock selectors items
    return (declarations, blocks ++ nested)

end

def evalSheet (setting : Setting) : Sheet Location → EvalM σ (List Block)
  | [] => return []
  | rule :: rules => do
    let blocks ← setting.evalRule [] rule
    let more ← setting.evalSheet rules
    return blocks ++ more

end Setting

end HostSheet
