import HostSheet.Sheet.Trivia

/-!
# Pieces

Before a part of a sheet is read, its text is searched for the mark that ends it. For the search the
text is cut into pieces: code, parts of quoted strings, and whole comments. Marks count only in
code, and only outside parentheses.
-/

namespace HostSheet

inductive Piece where
  | code (c : Char)
  /-- A character of a quoted string, a quote that bounds it, or an escaped character. -/
  | quoted (text : List Char)
  /-- A whole comment; one that does not end goes on to the end of the text. -/
  | comment (text : List Char)
  deriving Repr, DecidableEq

namespace Piece

def text : Piece → List Char
  | .code c => [c]
  | .quoted text => text
  | .comment text => text

/-- A piece, the quote that is open behind it, and the text behind it. -/
structure Cut where
  piece : Piece
  quote : Option Char
  rest : List Char

/-- The first piece of `c :: s`, where `quote` bounds the string that is open. Inside a string a
backslash takes the next character with it. -/
def first (quote : Option Char) (c : Char) (s : List Char) : Cut :=
  match quote with
  | some q =>
    match c, s with
    | '\\', d :: s => ⟨.quoted ['\\', d], some q, s⟩
    | c, s => ⟨.quoted [c], if c = q then none else some q, s⟩
  | none =>
    match c, s with
    | '/', '*' :: s =>
      match closeComment s with
      | some (inside, after) => ⟨.comment ('/' :: '*' :: inside ++ ['*', '/']), none, after⟩
      | none => ⟨.comment ('/' :: '*' :: s), none, []⟩
    | '/', '/' :: s => ⟨.comment ('/' :: '/' :: s.takeWhile (· != '\n')), none, dropLine s⟩
    | c, s => if c = '"' ∨ c = '\'' then ⟨.quoted [c], some c, s⟩ else ⟨.code c, none, s⟩

theorem text_first (quote : Option Char) (c : Char) (s : List Char) :
    (first quote c s).piece.text ++ (first quote c s).rest = c :: s := by
  cases quote with
  | some q => simp only [first]; split <;> simp [text]
  | none =>
    simp only [first]
    split
    · split
      · rename_i h
        simp [text, closeComment_eq h]
      · simp [text]
    · simp [text, dropLine, List.takeWhile_append_dropWhile]
    · split <;> simp [text]

theorem text_first_ne_nil (quote : Option Char) (c : Char) (s : List Char) :
    (first quote c s).piece.text ≠ [] := by
  cases quote with
  | some q => simp only [first]; split <;> simp [text]
  | none =>
    simp only [first]
    split
    · split <;> simp [text]
    · simp [text]
    · split <;> simp [text]

theorem length_first_rest (quote : Option Char) (c : Char) (s : List Char) :
    (first quote c s).rest.length < (c :: s).length := by
  have h := congrArg List.length (text_first quote c s)
  have := List.length_pos_iff.2 (text_first_ne_nil quote c s)
  rw [List.length_append] at h
  omega

end Piece

/-- All pieces of a text, `quote` being open in front of it. -/
def pieces (quote : Option Char) : List Char → List Piece
  | [] => []
  | c :: s =>
    let cut := Piece.first quote c s
    cut.piece :: pieces cut.quote cut.rest
termination_by s => s.length
decreasing_by exact Piece.length_first_rest quote c s

/-- The text of the pieces, each comment replaced by one blank. -/
def withoutComments : List Piece → List Char
  | [] => []
  | .comment _ :: ps => ' ' :: withoutComments ps
  | p :: ps => p.text ++ withoutComments ps

/-- The depth of parentheses behind a code character; a closing one too many is passed over. -/
def parenDepth (depth : Nat) : Char → Nat
  | '(' => depth + 1
  | ')' => depth - 1
  | _ => depth

/-- The pieces in front of the first mark and the text from the mark on. Only code outside
parentheses is searched. -/
def findMark (isMark : Char → Bool) (quote : Option Char) (depth : Nat) :
    List Char → Option (List Piece × List Char)
  | [] => none
  | c :: s =>
    let cut := Piece.first quote c s
    match cut.piece with
    | .code d =>
      if depth = 0 ∧ isMark d then some ([], c :: s)
      else (findMark isMark cut.quote (parenDepth depth d) cut.rest).map
        fun (before, rest) => (cut.piece :: before, rest)
    | _ => (findMark isMark cut.quote depth cut.rest).map
        fun (before, rest) => (cut.piece :: before, rest)
termination_by s => s.length
decreasing_by all_goals exact Piece.length_first_rest quote c s

theorem text_findMark {isMark : Char → Bool} {quote : Option Char} {depth : Nat} {s : List Char}
    {before : List Piece} {rest : List Char}
    (h : findMark isMark quote depth s = some (before, rest)) :
    before.flatMap Piece.text ++ rest = s := by
  fun_induction findMark isMark quote depth s generalizing before with
  | case1 => simp at h
  | case2 => simp at h; simp [← h.2, h.1]
  | case3 =>
    rename_i ih
    obtain ⟨⟨before', rest'⟩, h', e⟩ := Option.map_eq_some_iff.1 h
    simp only [Prod.mk.injEq] at e
    obtain ⟨rfl, rfl⟩ := e
    rw [List.flatMap_cons, List.append_assoc, ih h']
    exact Piece.text_first ..
  | case4 =>
    rename_i ih
    obtain ⟨⟨before', rest'⟩, h', e⟩ := Option.map_eq_some_iff.1 h
    simp only [Prod.mk.injEq] at e
    obtain ⟨rfl, rfl⟩ := e
    rw [List.flatMap_cons, List.append_assoc, ih h']
    exact Piece.text_first ..

theorem length_findMark_le {isMark : Char → Bool} {s : List Char} {before : List Piece}
    {rest : List Char} (h : findMark isMark none 0 s = some (before, rest)) :
    rest.length ≤ s.length := by
  have := congrArg List.length (text_findMark h)
  rw [List.length_append] at this
  omega

end HostSheet
