import HostSheet.Text.Taken

/-!
# Readers

A reader takes something off the front of a text and says what is left. What is left is always a
shorter text, so readers can be repeated. A reader that fails says why, and from where on the text
could not be read.
-/

namespace HostSheet

inductive SyntaxCause where
  /-- Another character had to stand here. -/
  | expected (c : Char)
  /-- Nothing can start with this character here. -/
  | unexpected (c : Char)
  | expectedExpression
  | expectedSelector
  | invalidProperty
  | invalidColor
  | invalidNumber
  | unterminatedString
  | unterminatedComment
  /-- Parentheses, calls and rules are nested too deep. -/
  | tooDeep
  deriving Repr, DecidableEq

def SyntaxCause.message : SyntaxCause → String
  | .expected c => "expected \"" ++ String.singleton c ++ "\"."
  | .unexpected c => "invalid CSS: unexpected \"" ++ String.singleton c ++ "\"."
  | .expectedExpression => "expected expression."
  | .expectedSelector => "expected selector."
  | .invalidProperty => "invalid property name."
  | .invalidColor => "invalid hex color."
  | .invalidNumber => "invalid number."
  | .unterminatedString => "unterminated string."
  | .unterminatedComment => "unterminated comment."
  | .tooDeep => "nesting too deep."

/-- A cause and the text from the place on that it is reported at. -/
structure Fault where
  cause : SyntaxCause
  rest : List Char
  deriving Repr, DecidableEq

/-- Takes an `α` off the front of any text. -/
abbrev Reader (α : Type) := (s : List Char) → Except Fault (Taken α s)

namespace Reader

def expect (c : Char) : Reader Unit
  | [] => .error ⟨.expected c, []⟩
  | d :: s => if d = c then .ok (.head () d s) else .error ⟨.expected c, d :: s⟩

def tooDeep {α : Type} : Reader α := fun s => .error ⟨.tooDeep, s⟩

end Reader

end HostSheet
