import HostSheet.Conversion.Encode
import HostSheet.Sheet.Block
import HostSheet.Source.Location

/-!
# Parsing

`Sheet.parse` reads a style sheet and `Expr.parse` a single value. Both say where each node stands,
or at which byte the text could not be read.
-/

namespace HostSheet

/-- The number of levels that rules, groups and calls may nest. It is the depth that is encoded, but
it counts other levels: a group can be a list of lists. -/
def maxNesting : Nat := maxDepth

structure SyntaxError where
  cause : SyntaxCause
  offset : Nat
  deriving Repr, DecidableEq

def SyntaxError.message (e : SyntaxError) : String :=
  e.cause.message

abbrev Sheet (p : Type) := List (Rule p)

def readRules (s : List Char) : Except Fault (List RawRule) := do
  let blank ← skipTrivia s
  if blank.rest.isEmpty then
    return []
  else
    let rule ← readRule maxNesting blank.rest
    let more ← readRules rule.rest
    return rule.value :: more
termination_by s.length
decreasing_by exact (blank.andTake rule).shorter

def readWhole (s : List Char) : Except Fault RawExpr := do
  let blank ← skipTrivia s
  let value ← readValue maxNesting blank.rest
  let blank' ← skipTrivia value.rest
  match blank'.rest with
  | [] => return value.value
  | c :: t => throw ⟨.unexpected c, c :: t⟩

/-- The location of the place where a text goes on with `rest`. -/
def placeIn (source rest : List Char) : Location :=
  Source.locate source (Source.offsetOf source rest)

def Fault.inSource (source : List Char) (f : Fault) : SyntaxError :=
  ⟨f.cause, Source.offsetOf source f.rest⟩

def Sheet.parse (source : String) : Except SyntaxError (Sheet Location) :=
  let s := source.toList
  match readRules s with
  | .ok rules => .ok (rules.map (·.mapPlaces (placeIn s)))
  | .error fault => .error (fault.inSource s)

def Expr.parse (source : String) : Except SyntaxError (Expr Location) :=
  let s := source.toList
  match readWhole s with
  | .ok value => .ok (value.mapPlaces (placeIn s))
  | .error fault => .error (fault.inSource s)

end HostSheet
