/-!
# Blank characters

Blank space is the Unicode property `White_Space`. It separates the words of a selector, pads
signatures and stands between the tokens of a style sheet. The zero-width space and the byte order
mark are not blank.
-/

namespace HostSheet.Text

def isBlank (c : Char) : Bool :=
  let n := c.toNat
  (9 ≤ n && n ≤ 13) || n == 0x20 || n == 0x85 || n == 0xA0 || n == 0x1680 ||
    (0x2000 ≤ n && n ≤ 0x200A) || n == 0x2028 || n == 0x2029 || n == 0x202F || n == 0x205F ||
    n == 0x3000

def trimStart (cs : List Char) : List Char :=
  cs.dropWhile isBlank

def trim (cs : List Char) : List Char :=
  (trimStart (trimStart cs).reverse).reverse

/-- Cuts a text at the characters that satisfy `cut`; there is one piece more than there are cuts.
-/
def splitAtEach (cut : Char → Bool) : List Char → List (List Char)
  | [] => [[]]
  | c :: cs =>
    match cut c, splitAtEach cut cs with
    | true, pieces => [] :: pieces
    | false, piece :: pieces => (c :: piece) :: pieces
    | false, [] => [[c]]

def words (cs : List Char) : List (List Char) :=
  (splitAtEach isBlank cs).filter (!·.isEmpty)

theorem length_trimStart_le (cs : List Char) : (trimStart cs).length ≤ cs.length :=
  (List.dropWhile_sublist _).length_le

theorem splitAtEach_ne_nil (cut : Char → Bool) (cs : List Char) : splitAtEach cut cs ≠ [] := by
  cases cs with
  | nil => simp [splitAtEach]
  | cons c cs => simp only [splitAtEach]; split <;> simp

end HostSheet.Text
