import HostSheet.Source.Slice

/-!
# Starts of lines

The offsets at which the lines of a text start can be kept beside the text. They go up, so the line
of an offset is found by halving them, and only that line is counted through for the column.
-/

namespace HostSheet

/-- The byte offsets at which the lines of a text start. -/
structure LineStarts where
  offsets : Array Nat
  deriving Repr, DecidableEq

namespace LineStarts

/-- The offsets behind the line feeds of a text, of which `byte` is the offset. -/
def behindFeeds (byte : Nat) : List Char → List Nat
  | [] => []
  | c :: s =>
    if c = '\n' then (byte + 1) :: behindFeeds (byte + c.utf8Size) s
    else behindFeeds (byte + c.utf8Size) s

def ofText (s : List Char) : LineStarts :=
  ⟨(0 :: behindFeeds 0 s).toArray⟩

/-- What a search comes to: the index of the offset, or the index at which it would be put in. -/
inductive Finding where
  | found (index : Nat)
  | missing (index : Nat)
  deriving Repr, DecidableEq

theorem sub_half_lt {low high : Nat} (h : low < high) : (low + high) / 2 - low < high - low := by
  omega

theorem sub_behind_half_lt {low high : Nat} (h : low < high) :
    high - ((low + high) / 2 + 1) < high - low := by
  omega

def Finding.last : Finding → Nat
  | .found index => index
  | .missing index => index - 1

/-- Searches from `low` up to `high`, which is not looked at. -/
def search (starts : LineStarts) (offset low high : Nat) : Finding :=
  if h : low < high then
    let middle := (low + high) / 2
    let start := starts.offsets.getD middle 0
    if start = offset then .found middle
    else if start < offset then search starts offset (middle + 1) high
    else search starts offset low middle
  else .missing low
termination_by high - low
decreasing_by
  · exact sub_behind_half_lt h
  · exact sub_half_lt h

def lineIndex (starts : LineStarts) (offset : Nat) : Nat :=
  (starts.search offset 0 starts.offsets.size).last

/-- The location of an offset of a text with these lines. An offset that does not cut the text has
no column in characters, so the bytes of its line are counted. -/
def locate (starts : LineStarts) (source : List Char) (offset : Nat) : Location :=
  let line := starts.lineIndex offset
  let start := starts.offsets.getD line 0
  match Source.slice? source start offset with
  | some before => ⟨line + 1, before.length + 1⟩
  | none => ⟨line + 1, offset - start + 1⟩

end LineStarts

end HostSheet
