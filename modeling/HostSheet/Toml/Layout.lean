import HostSheet.Toml.Value

/-!
# Layout of TOML documents

Blanks are spaces and tabs. A line ends with a line feed, with or without a carriage return in front
of it; a carriage return alone is no line end. Comments and strings hold no control characters but
tabs.
-/

namespace HostSheet.Toml

def isBlank (c : Char) : Bool :=
  c == ' ' || c == '\t'

/-- A character that may stand in comments and, unless it has a meaning there, in strings. -/
def isPlain (c : Char) : Bool :=
  c == '\t' || (0x20 ≤ c.toNat && c.toNat != 0x7F)

def skipBlanks (s : List Char) : Skipped Unit s :=
  (Skipped.dropWhile isBlank s).map fun _ => ()

def takeNewline? : (s : List Char) → Option (Taken Unit s)
  | '\n' :: s => some (.head () '\n' s)
  | '\r' :: '\n' :: s => some ((Taken.head () '\n' s).behind '\r')
  | _ => none

def skipComment (s : List Char) : Skipped Unit s :=
  match takeChar? '#' s with
  | none => .nothing () s
  | some mark => ((mark.andSkip (.dropWhile isPlain mark.rest)).map fun _ => ()).toSkipped

def skipMargin (s : List Char) : Skipped Unit s :=
  (skipBlanks s).andSkip (skipComment (skipBlanks s).rest)

/-- Passes over the rest of a line that holds nothing more but a comment. The last line of a
document need not end. -/
def finishLine? (s : List Char) : Option (Skipped Unit s) :=
  if (skipMargin s).rest.isEmpty then some (skipMargin s)
  else (takeNewline? (skipMargin s).rest).map fun line => ((skipMargin s).andTake line).toSkipped

def skipWhite (s : List Char) : Skipped Unit s :=
  match takeNewline? (skipBlanks s).rest with
  | none => skipBlanks s
  | some line => ((skipBlanks s).andTake line).toSkipped.andSkip (skipWhite line.rest)
termination_by s.length
decreasing_by exact ((skipBlanks s).andTake line).shorter

def skipLines (s : List Char) : Skipped Unit s :=
  match takeNewline? (skipMargin s).rest with
  | none => skipMargin s
  | some line => ((skipMargin s).andTake line).toSkipped.andSkip (skipLines line.rest)
termination_by s.length
decreasing_by exact ((skipMargin s).andTake line).shorter

end HostSheet.Toml
