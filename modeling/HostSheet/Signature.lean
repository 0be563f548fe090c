import HostSheet.Text.Blank

/-!
# Signatures

A host function is announced by a signature such as `mix($a, $b)`: a name and the names of its
parameters. Blank space may stand around every part, and the `$` in front of a parameter may be left
out. Names are ASCII identifiers. Only the name and the number of parameters matter to a call.
-/

namespace HostSheet

structure Signature where
  name : String
  params : List String
  deriving Repr, DecidableEq

/-- Why a text is no signature; each cause carries the text, trimmed. -/
inductive SignatureError where
  | missingOpen (signature : String)
  | missingClose (signature : String)
  | emptyName (signature : String)
  | invalidName (signature name : String)
  /-- Parameters are counted from one. -/
  | emptyParam (signature : String) (position : Nat)
  | invalidParam (signature param : String)
  | trailing (signature rest : String)
  deriving Repr, DecidableEq

def SignatureError.message : SignatureError → String
  | .missingOpen signature => "signature `" ++ signature ++ "` is missing '('"
  | .missingClose signature => "signature `" ++ signature ++ "` is missing ')'"
  | .emptyName signature => "signature `" ++ signature ++ "` has no function name"
  | .invalidName signature name =>
    "signature `" ++ signature ++ "`: invalid function name `" ++ name ++ "`"
  | .emptyParam signature position =>
    "signature `" ++ signature ++ "`: parameter " ++ toString position ++ " is empty"
  | .invalidParam signature param =>
    "signature `" ++ signature ++ "`: invalid parameter `" ++ param ++ "`"
  | .trailing signature rest =>
    "signature `" ++ signature ++ "`: unexpected `" ++ rest ++ "` after ')'"

namespace Signature

def isIdentStart (c : Char) : Bool :=
  c.isAlpha || c == '_' || c == '-'

def isIdentRest (c : Char) : Bool :=
  c.isAlphanum || c == '_' || c == '-'

def isIdentifier : List Char → Bool
  | [] => false
  | c :: cs => isIdentStart c && cs.all isIdentRest

def arity (s : Signature) : Nat :=
  s.params.length

def text (s : Signature) : String :=
  s.name ++ "(" ++ String.intercalate ", " (s.params.map ("$" ++ ·)) ++ ")"

def cutAt? (c : Char) : List Char → Option (List Char × List Char)
  | [] => none
  | d :: ds => if d = c then some ([], ds) else (cutAt? c ds).map fun (before, after) =>
      (d :: before, after)

def bareParam : List Char → List Char
  | '$' :: cs => cs
  | cs => cs

/-- Reads the parameters between the parentheses; the first wrong one decides. -/
def readParams (signature : String) : (position : Nat) → List (List Char) →
    Except SignatureError (List String)
  | _, [] => .ok []
  | position, raw :: raws => do
    let param := Text.trim raw
    if param.isEmpty then
      throw (.emptyParam signature position)
    unless isIdentifier (bareParam param) do
      throw (.invalidParam signature (String.ofList param))
    return String.ofList (bareParam param) :: (← readParams signature (position + 1) raws)

/-- Reads a signature. The name is looked at before the closing parenthesis, and what stands behind
that before the parameters. -/
def parse (source : String) : Except SignatureError Signature := do
  let trimmed := Text.trim source.toList
  let signature := String.ofList trimmed
  let some (beforeOpen, afterOpen) := cutAt? '(' trimmed | throw (.missingOpen signature)
  let name := Text.trim beforeOpen
  if name.isEmpty then
    throw (.emptyName signature)
  unless isIdentifier name do
    throw (.invalidName signature (String.ofList name))
  let some (inside, afterClose) := cutAt? ')' afterOpen | throw (.missingClose signature)
  let rest := Text.trim afterClose
  unless rest.isEmpty do
    throw (.trailing signature (String.ofList rest))
  let params := Text.trim inside
  if params.isEmpty then
    return ⟨String.ofList name, []⟩
  return ⟨String.ofList name, ← readParams signature 1 (Text.splitAtEach (· == ',') params)⟩

end Signature

end HostSheet
