/-!
# Locations

Places in a text are byte offsets of its UTF-8 form; people are told lines and columns. Lines and
columns count from one, and columns count characters.
-/

namespace HostSheet

structure Location where
  line : Nat
  column : Nat
  deriving Repr, DecidableEq, Inhabited

def Location.text (l : Location) : String :=
  toString l.line ++ ":" ++ toString l.column

namespace Source

def byteLength : List Char → Nat
  | [] => 0
  | c :: cs => c.utf8Size + byteLength cs

/-- The byte offset of a place in a text, given by what is left of the text from there on. -/
def offsetOf (source rest : List Char) : Nat :=
  byteLength source - byteLength rest

/-- Walks over `left` bytes of a text. `column` counts the characters of the current line and `byte`
its bytes; an offset inside a character or behind the end of the text has no column in characters,
so its bytes are counted. -/
def walk (line column byte : Nat) (left : Nat) : List Char → Location
  | [] => if left = 0 then ⟨line, column⟩ else ⟨line, byte + left⟩
  | c :: cs =>
    if left = 0 then ⟨line, column⟩
    else if left < c.utf8Size then ⟨line, byte + left⟩
    else if c = '\n' then walk (line + 1) 1 1 (left - c.utf8Size) cs
    else walk line (column + 1) (byte + c.utf8Size) (left - c.utf8Size) cs

def locate (source : List Char) (offset : Nat) : Location :=
  walk 1 1 1 offset source

theorem byteLength_append (a b : List Char) :
    byteLength (a ++ b) = byteLength a + byteLength b := by
  induction a with
  | nil => simp [byteLength]
  | cons c a ih => simp only [List.cons_append, byteLength, ih]; omega

theorem offsetOf_append (before rest : List Char) :
    offsetOf (before ++ rest) rest = byteLength before := by
  simp [offsetOf, byteLength_append]

end Source

end HostSheet
