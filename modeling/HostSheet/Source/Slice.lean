import HostSheet.Source.Location

/-!
# Slices

A text is cut at byte offsets of its UTF-8 form. Only an offset between two characters, or at either
end, cuts a text; there is no slice at any other.
-/

namespace HostSheet.Source

def cut? : (s : List Char) → (offset : Nat) → Option (List Char × List Char)
  | [], offset => if offset = 0 then some ([], []) else none
  | c :: s, offset =>
    if offset = 0 then some ([], c :: s)
    else if offset < c.utf8Size then none
    else (cut? s (offset - c.utf8Size)).map fun (front, rest) => (c :: front, rest)

def sliceTo? (s : List Char) (stop : Nat) : Option (List Char) :=
  (cut? s stop).map Prod.fst

def sliceFrom? (s : List Char) (start : Nat) : Option (List Char) :=
  (cut? s start).map Prod.snd

def slice? (s : List Char) (start stop : Nat) : Option (List Char) := do
  sliceFrom? (← sliceTo? s stop) start

def find? (pattern : List Char) : List Char → Option Nat
  | [] => if pattern.isEmpty then some 0 else none
  | c :: s =>
    if pattern.isPrefixOf (c :: s) then some 0 else (find? pattern s).map (c.utf8Size + ·)

def findChar? (p : Char → Bool) : List Char → Option Nat
  | [] => none
  | c :: s => if p c then some 0 else (findChar? p s).map (c.utf8Size + ·)

end HostSheet.Source
