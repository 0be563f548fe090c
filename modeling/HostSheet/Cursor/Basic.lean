import HostSheet.Sheet.Parse
import HostSheet.Source.Slice

/-!
# Cursors

A text can also be read by a cursor that moves over it, a byte offset and the depth of nesting. What
is ahead of the cursor is sliced from the text.

Nothing here says that a cursor stays between two characters of the text, that slices lie within
it, or that reading comes to an end. Where it does not, there is no result.
-/

namespace HostSheet

structure Cursor where
  offset : Nat
  depth : Nat
  deriving Repr, DecidableEq

/-- Reads a text with a cursor. Without a result a slice does not exist, or the reading goes on for
ever. -/
abbrev CursorM := ReaderT (List Char) (StateT Cursor (ExceptT SyntaxError Option))

namespace CursorM

variable {α : Type}

def exec (p : CursorM α) (source : List Char) (cursor : Cursor) :
    Option (Except SyntaxError (α × Cursor)) :=
  p source cursor

def offset : CursorM Nat :=
  return (← get).offset

def rest : CursorM (List Char) := do
  Source.sliceFrom? (← read) (← offset)

def passed (start : Nat) : CursorM (List Char) := do
  Source.slice? (← read) start (← offset)

def peek : CursorM (Option Char) :=
  return (← rest).head?

def peekSecond : CursorM (Option Char) :=
  return (← rest)[1]?

def advance (bytes : Nat) : CursorM Unit :=
  modify fun cursor => { cursor with offset := cursor.offset + bytes }

def bump : CursorM (Option Char) := do
  match ← peek with
  | none => return none
  | some c =>
    advance c.utf8Size
    return some c

def eat (c : Char) : CursorM Bool := do
  if (← peek) = some c then
    advance c.utf8Size
    return true
  else
    return false

def failAt (start : Nat) (cause : SyntaxCause) : CursorM α :=
  throw ⟨cause, start⟩

def fail (cause : SyntaxCause) : CursorM α := do
  failAt (← offset) cause

def expect (c : Char) : CursorM Unit := do
  if ← eat c then return ()
  else fail (.expected c)

def enter : CursorM Unit := do
  if maxNesting ≤ (← get).depth then fail .tooDeep
  else modify fun cursor => { cursor with depth := cursor.depth + 1 }

def leave : CursorM Unit :=
  modify fun cursor => { cursor with depth := cursor.depth - 1 }

def location (start : Nat) : CursorM Location :=
  return Source.locate (← read) start

-- A fixpoint keeps the file position of each recursive call that is elaborated as a term. The calls
-- are therefore written `by apply`, so that the definition is the same wherever it is compiled.
section
variable (p : Char → Bool)

def bumpWhile : CursorM Unit := do
  if (← peek).any p then
    let _ ← bump
    by apply bumpWhile
  else
    return ()
partial_fixpoint

end

def skipTrivia : CursorM Unit := do
  let ahead ← rest
  let trimmed := Text.trimStart ahead
  advance (Source.byteLength ahead - Source.byteLength trimmed)
  if ['/', '/'].isPrefixOf trimmed then
    advance ((Source.findChar? (· == '\n') trimmed).getD (Source.byteLength trimmed))
    by apply skipTrivia
  else if ['/', '*'].isPrefixOf trimmed then
    match Source.find? ['*', '/'] (← Source.sliceFrom? trimmed 2) with
    | none => fail .unterminatedComment
    | some inside =>
      advance (inside + 4)
      by apply skipTrivia
  else
    return ()
partial_fixpoint

end CursorM

end HostSheet
