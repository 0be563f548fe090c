import HostSheet.Alpha
import HostSheet.Decimal.Binary
import HostSheet.Sheet.Reader
import HostSheet.Text.Letter
import HostSheet.Value.Basic

/-!
# Literals

Numbers, colours, quoted strings and names. Each reader takes as much of the text as belongs to the
literal and looks one character further at most.
-/

namespace HostSheet

-- ---------------------------------------------------------------------------
-- Numbers
-- ---------------------------------------------------------------------------

/-- Whether a number without a sign starts here: a digit, or a point in front of a digit. -/
def startsUnsigned : List Char → Bool
  | '.' :: c :: _ => c.isDigit
  | c :: _ => c.isDigit
  | [] => false

def startsNumber : List Char → Bool
  | '+' :: s => startsUnsigned s
  | '-' :: s => startsUnsigned s
  | s => startsUnsigned s

/-- Whether there is a minus sign in front, and the text behind the sign. -/
def splitSign : List Char → Bool × List Char
  | '+' :: s => (false, s)
  | '-' :: s => (true, s)
  | s => (false, s)

def splitDigits (s : List Char) : List Char × List Char :=
  (s.takeWhile Char.isDigit, s.dropWhile Char.isDigit)

/-- The digits behind a point, and the text behind them. A point without digits is left alone. -/
def splitFraction : List Char → List Char × List Char
  | '.' :: s => if (splitDigits s).1.isEmpty then ([], '.' :: s) else splitDigits s
  | s => ([], s)

def splitUnit : List Char → List Char × List Char
  | '%' :: s => (['%'], s)
  | s => (s.takeWhile Char.isAlpha, s.dropWhile Char.isAlpha)

theorem length_splitSign (s : List Char) : (splitSign s).2.length ≤ s.length := by
  unfold splitSign
  split <;> simp

theorem length_splitDigits (s : List Char) :
    (splitDigits s).1.length + (splitDigits s).2.length = s.length := by
  rw [← List.length_append, splitDigits, List.takeWhile_append_dropWhile]

theorem length_splitFraction (s : List Char) :
    (splitFraction s).1.length + (splitFraction s).2.length ≤ s.length := by
  unfold splitFraction
  split
  · rename_i s
    split
    · simp
    · have := length_splitDigits s
      simp only [List.length_cons]
      omega
  · simp

theorem length_splitUnit (s : List Char) : (splitUnit s).2.length ≤ s.length := by
  unfold splitUnit
  split
  · simp
  · exact (List.dropWhile_sublist _).length_le

/-- The parts of a number at the front of a text, each of them perhaps empty. -/
structure NumberParts where
  negative : Bool
  integer : List Char
  fraction : List Char
  unit : List Char
  rest : List Char

def NumberParts.ofText (s : List Char) : NumberParts :=
  ⟨(splitSign s).1, (splitDigits (splitSign s).2).1,
    (splitFraction (splitDigits (splitSign s).2).2).1,
    (splitUnit (splitFraction (splitDigits (splitSign s).2).2).2).1,
    (splitUnit (splitFraction (splitDigits (splitSign s).2).2).2).2⟩

theorem NumberParts.length_rest (s : List Char) :
    (ofText s).integer.length + (ofText s).fraction.length + (ofText s).rest.length ≤ s.length := by
  have := length_splitSign s
  have := length_splitDigits (splitSign s).2
  have := length_splitFraction (splitDigits (splitSign s).2).2
  have := length_splitUnit (splitFraction (splitDigits (splitSign s).2).2).2
  simp only [ofText]
  omega

theorem NumberParts.length_rest_lt {s : List Char}
    (h : ¬ (ofText s).integer.length + (ofText s).fraction.length = 0) :
    (ofText s).rest.length < s.length := by
  have := length_rest s
  omega

def NumberParts.number (parts : NumberParts) : Number :=
  ⟨Decimal.nearest parts.negative parts.integer parts.fraction, String.ofList parts.unit⟩

/-- Reads a number: a sign, digits, a point with digits behind it, a unit. All parts may be missing,
but not both the digits in front of the point and those behind it. -/
def readNumber : Reader Value := fun s =>
  if h : (NumberParts.ofText s).integer.length + (NumberParts.ofText s).fraction.length = 0 then
    .error ⟨.invalidNumber, s⟩
  else
    .ok ⟨.number (NumberParts.ofText s).number, (NumberParts.ofText s).rest,
      NumberParts.length_rest_lt h⟩

-- ---------------------------------------------------------------------------
-- Names
-- ---------------------------------------------------------------------------

def isNameStart (c : Char) : Bool :=
  Text.isLetter c || c == '_'

def isNameChar (c : Char) : Bool :=
  Text.isLetter c || Text.isNumeral c || c == '_' || c == '-'

def startsAfterHyphen : List Char → Bool
  | [] => false
  | c :: _ => isNameStart c || c == '-'

def readName : Reader String
  | [] => .error ⟨.expectedExpression, []⟩
  | c :: s =>
    if c = '-' ∧ ¬ startsAfterHyphen s then .error ⟨.unexpected '-', c :: s⟩
    else
      .ok (((Skipped.dropWhile isNameChar s).behind c).map fun name => String.ofList (c :: name))

/-- The value of a name that is not called: three names are reserved, all others are unquoted
strings. -/
def nameValue (name : String) : Value :=
  if name = "null" then .null
  else if name = "true" then .bool true
  else if name = "false" then .bool false
  else .string name false

-- ---------------------------------------------------------------------------
-- Colours
-- ---------------------------------------------------------------------------

def isHexDigit (c : Char) : Bool :=
  c.isDigit || ('a' ≤ c && c ≤ 'f') || ('A' ≤ c && c ≤ 'F')

def hexValue (c : Char) : Nat :=
  if c.isDigit then c.toNat - '0'.toNat
  else if 'a' ≤ c then c.toNat - 'a'.toNat + 10
  else c.toNat - 'A'.toNat + 10

def channel (high low : Char) : UInt8 :=
  UInt8.ofNat (16 * hexValue high + hexValue low)

def hexColor? : List Char → Option Color
  | [r, g, b] => some ⟨channel r r, channel g g, channel b b, 1⟩
  | [r, r', g, g', b, b'] => some ⟨channel r r', channel g g', channel b b', 1⟩
  | [r, r', g, g', b, b', a, a'] =>
    some ⟨channel r r', channel g g', channel b b', Alpha.ofStep (channel a a')⟩
  | _ => none

def startsWithNameChar : List Char → Bool
  | [] => false
  | c :: _ => isNameChar c

def readColor : Reader Value
  | [] => .error ⟨.expected '#', []⟩
  | c :: s =>
    if startsWithNameChar (s.dropWhile isHexDigit) then .error ⟨.invalidColor, c :: s⟩
    else
      match hexColor? (s.takeWhile isHexDigit) with
      | none => .error ⟨.invalidColor, c :: s⟩
      | some color =>
        .ok (((Skipped.dropWhile isHexDigit s).behind c).map fun _ => .color color)

-- ---------------------------------------------------------------------------
-- Quoted strings
-- ---------------------------------------------------------------------------

/-- The text up to the closing quote, and what stands behind that. A backslash takes the next
character as it is; a line feed that is not taken so may not stand in a string. -/
def splitQuoted (quote : Char) : List Char → Option (List Char × List Char)
  | [] => none
  | '\n' :: _ => none
  | ['\\'] => none
  | '\\' :: c :: s => (splitQuoted quote s).map fun (text, rest) => (c :: text, rest)
  | c :: s =>
    if c = quote then some ([], s)
    else (splitQuoted quote s).map fun (text, rest) => (c :: text, rest)

theorem length_splitQuoted {quote : Char} {s text rest : List Char}
    (h : splitQuoted quote s = some (text, rest)) : rest.length < s.length := by
  fun_induction splitQuoted quote s generalizing text with
  | case1 => simp at h
  | case2 => simp at h
  | case3 => simp at h
  | case4 c s ih =>
    obtain ⟨⟨text', rest'⟩, h', e⟩ := Option.map_eq_some_iff.1 h
    simp only [Prod.mk.injEq] at e
    obtain ⟨-, rfl⟩ := e
    have := ih h'
    simp only [List.length_cons]
    omega
  | case5 => simp at h; simp [← h.2]
  | case6 =>
    rename_i ih
    obtain ⟨⟨text', rest'⟩, h', e⟩ := Option.map_eq_some_iff.1 h
    simp only [Prod.mk.injEq] at e
    obtain ⟨-, rfl⟩ := e
    have := ih h'
    simp only [List.length_cons]
    omega

def readQuoted : Reader Value
  | [] => .error ⟨.unterminatedString, []⟩
  | quote :: s =>
    match h : splitQuoted quote s with
    | none => .error ⟨.unterminatedString, quote :: s⟩
    | some (text, rest) =>
      .ok ((⟨.string (String.ofList text) true, rest, length_splitQuoted h⟩ : Taken Value s).behind
        quote)

end HostSheet
