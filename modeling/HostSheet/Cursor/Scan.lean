import HostSheet.Cursor.Basic

/-!
# Scans with a cursor

A scan goes through a text piece by piece, as a cursor of its own. It knows of each piece from where
to where it goes and of what kind it is.
-/

namespace HostSheet

/-- Where a scan has come to, and which quote is open there. -/
structure Scan where
  offset : Nat := 0
  quote : Option Char := none

inductive SpanKind where
  | code (c : Char)
  | quoted
  | comment
  deriving Repr, DecidableEq

structure Span where
  start : Nat
  stop : Nat
  kind : SpanKind

namespace Scan

/-- The bytes of the piece that `c :: s` starts with, its kind, and the quote that is open behind
it. -/
def measure (quote : Option Char) (c : Char) (s : List Char) :
    Option (Nat × SpanKind × Option Char) :=
  match quote with
  | some q =>
    if c = '\\' then do
      let behind ← Source.sliceFrom? (c :: s) 1
      return (c.utf8Size + behind.head?.elim 0 Char.utf8Size, .quoted, some q)
    else
      return (c.utf8Size, .quoted, if c = q then none else some q)
  | none =>
    if ['/', '*'].isPrefixOf (c :: s) then do
      let inside := Source.find? ['*', '/'] (← Source.sliceFrom? (c :: s) 2)
      return (inside.elim (Source.byteLength (c :: s)) (· + 4), .comment, none)
    else if ['/', '/'].isPrefixOf (c :: s) then
      let line := Source.findChar? (· == '\n') (c :: s)
      return (line.getD (Source.byteLength (c :: s)), .comment, none)
    else if c = '"' ∨ c = '\'' then
      return (1, .quoted, some c)
    else
      return (c.utf8Size, .code c, none)

def next (text : List Char) (scan : Scan) : Option (Option (Span × Scan)) := do
  match ← Source.sliceFrom? text scan.offset with
  | [] => return none
  | c :: s =>
    let (bytes, kind, quote) ← measure scan.quote c s
    let stop := scan.offset + bytes
    return some (⟨scan.offset, stop, kind⟩, ⟨stop, quote⟩)

-- A fixpoint does not keep the file position of a recursive call that is piped.
/-- The byte offset of the first mark in code, outside of parentheses. -/
def findInCode (isMark : Char → Bool) (text : List Char) (depth : Nat) (scan : Scan) :
    Option (Option Nat) := do
  match ← scan.next text with
  | none => return none
  | some (span, scan) =>
    match span.kind with
    | .code c =>
      if depth = 0 ∧ isMark c then return some span.start
      else scan |>.findInCode isMark text (parenDepth depth c)
    | _ => scan |>.findInCode isMark text depth
partial_fixpoint

def stripComments (text : List Char) (scan : Scan) : Option (List Char) := do
  match ← scan.next text with
  | none => return []
  | some (span, scan) =>
    let piece ← match span.kind with
      | .comment => pure [' ']
      | _ => Source.slice? text span.start span.stop
    return piece ++ (← scan |>.stripComments text)
partial_fixpoint

end Scan

namespace CursorM

/-- The bytes up to a mark ahead, provided that this is the first of all marks. -/
def bytesBefore? (isMark : Char → Bool) (mark : Char) : CursorM (Option Nat) := do
  match ← Scan.findInCode isMark (← rest) 0 {} with
  | none => return none
  | some bytes =>
    let found ← Source.sliceFrom? (← rest) bytes
    return if found.head? = some mark then some bytes else none

/-- So many bytes of the text ahead, without its comments. -/
def textAhead (bytes : Nat) : CursorM (List Char) := do
  Scan.stripComments (← Source.sliceTo? (← rest) bytes) {}

end CursorM

end HostSheet
