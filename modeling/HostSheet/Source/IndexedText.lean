import HostSheet.Source.LineStarts
import HostSheet.Source.Text

/-!
# Indexed texts

A text with the starts of its lines beside it gives a line by cutting the text at two of these
starts. Lines are counted by words of 64 bits. The bounds of a window of lines may leave the range
of words; they stop at its ends.
-/

namespace HostSheet

-- ---------------------------------------------------------------------------
-- Words
-- ---------------------------------------------------------------------------

namespace Word

def greatest : UInt64 :=
  .ofNat (UInt64.size - 1)

def addSat (a b : UInt64) : UInt64 :=
  if a + b < a then greatest else a + b

def subSat (a b : UInt64) : UInt64 :=
  if a < b then 0 else a - b

def upTo (first last : UInt64) : List UInt64 :=
  (List.range' first.toNat (last.toNat + 1 - first.toNat)).map .ofNat

end Word

-- ---------------------------------------------------------------------------
-- Lines
-- ---------------------------------------------------------------------------

/-- The bytes of a line, counted from one, of a text of `bytes` bytes: up to the line feed in front
of the next line, or to the end of the text. -/
def LineStarts.range? (starts : LineStarts) (line bytes : Nat) : Option (Nat × Nat) := do
  if line = 0 then none
  else
    let start ← starts.offsets[line - 1]?
    return (start, starts.offsets[line]?.elim bytes (· - 1))

/-- A source with the starts of its lines. Half of all words are enough to count its bytes. -/
structure IndexedText extends SourceText where
  starts : LineStarts
  starts_eq : starts = .ofText content
  byteLength_lt : Source.byteLength content < Nat.pow 2 63

namespace IndexedText

def ofSource (s : SourceText) (h : Source.byteLength s.content < Nat.pow 2 63) : IndexedText :=
  { s with starts := .ofText s.content, starts_eq := rfl, byteLength_lt := h }

def lineCount (t : IndexedText) : UInt64 :=
  let starts := UInt64.ofNat t.starts.offsets.size
  if t.content.getLast? = some '\n' then starts - 1 else starts

def line? (t : IndexedText) (line : UInt64) : Option String := do
  if t.lineCount < line then none
  else
    let (start, stop) ← t.starts.range? line.toNat (Source.byteLength t.content)
    let text ← Source.slice? t.content start stop
    return String.ofList (SourceText.dropReturn text)

/-- The lines at most `radius` away from a line. A line that cannot be found is left out. -/
def context (t : IndexedText) (line radius : UInt64) : List String :=
  let first := max (Word.subSat line radius) 1
  let last := min (Word.addSat line radius) t.lineCount
  (Word.upTo first last).filterMap t.line?

end IndexedText

end HostSheet
