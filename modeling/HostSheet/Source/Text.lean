import HostSheet.Source.Location
import HostSheet.Text.Blank

/-!
# Source texts

A source is a named text that is read line by line for messages. A line ends at a line feed; a line
feed at the very end does not start another line. A carriage return in front of the line feed does
not belong to the line.
-/

namespace HostSheet

structure SourceText where
  name : String
  content : List Char

namespace SourceText

def ofString (name content : String) : SourceText :=
  ⟨name, content.toList⟩

def rawLines (s : SourceText) : List (List Char) :=
  let pieces := Text.splitAtEach (· == '\n') s.content
  if s.content.getLast? = some '\n' then pieces.dropLast else pieces

def dropReturn (line : List Char) : List Char :=
  if line.getLast? = some '\r' then line.dropLast else line

def lines (s : SourceText) : List String :=
  s.rawLines.map fun line => String.ofList (dropReturn line)

def lineCount (s : SourceText) : Nat :=
  s.rawLines.length

/-- A line by its number, counted from one. -/
def line? (s : SourceText) (line : Nat) : Option String :=
  if line = 0 then none else s.lines[line - 1]?

/-- The lines at most `radius` away from a line, as far as there are such lines. -/
def context (s : SourceText) (line radius : Nat) : List String :=
  let first := max (line - radius) 1
  let last := min (line + radius) s.lineCount
  (s.lines.drop (first - 1)).take (last + 1 - first)

def locate (s : SourceText) (offset : Nat) : Location :=
  Source.locate s.content offset

end SourceText

end HostSheet
