import HostSheet.Toml.Layout

/-!
# TOML strings

Basic strings stand in double quotes and have escapes, literal strings stand in single quotes and
have none. Three quotes bound a string of several lines: a line end right behind them is dropped,
line ends are line feeds, and up to two more quotes may stand in front of the three that close it. A
backslash at the end of a line takes all white space up to the next character with it.
-/

namespace HostSheet.Toml

-- ---------------------------------------------------------------------------
-- Escapes
-- ---------------------------------------------------------------------------

def hexValue? (c : Char) : Option Nat :=
  if c.isDigit then some (c.toNat - '0'.toNat)
  else if 'a' ≤ c ∧ c ≤ 'f' then some (c.toNat - 'a'.toNat + 10)
  else if 'A' ≤ c ∧ c ≤ 'F' then some (c.toNat - 'A'.toNat + 10)
  else none

def takeHex? (n : Nat) : (count : Nat) → (s : List Char) → Option (Skipped Nat s)
  | 0, s => some (.nothing n s)
  | _ + 1, [] => none
  | count + 1, c :: s => do
    let value ← hexValue? c
    let more ← takeHex? (16 * n + value) count s
    return (more.behind c).toSkipped

/-- The character with a code point; surrogates and what lies beyond Unicode are none. -/
def charOf? (n : Nat) : Option Char :=
  if n.isValidChar then some (Char.ofNat n) else none

def shortEscape? : Char → Option Char
  | 'b' => some '\x08'
  | 't' => some '\t'
  | 'n' => some '\n'
  | 'f' => some '\x0c'
  | 'r' => some '\r'
  | '"' => some '"'
  | '\\' => some '\\'
  | _ => none

def escapeDigits? : Char → Option Nat
  | 'u' => some 4
  | 'U' => some 8
  | _ => none

def readEscape : Scan Char
  | [] => none
  | c :: s =>
    match shortEscape? c with
    | some d => some (.head d c s)
    | none => do
      let count ← escapeDigits? c
      let code ← takeHex? 0 count s
      let d ← charOf? code.value
      return (code.behind c).map fun _ => d

-- ---------------------------------------------------------------------------
-- Strings on one line
-- ---------------------------------------------------------------------------

def basicBody : Scan (List Char)
  | [] => none
  | '"' :: s => some (.head [] '"' s)
  | '\\' :: s => do
    let c ← readEscape s
    let more ← basicBody c.rest
    return ((c.andTake more).map (c.value :: ·)).behind '\\'
  | c :: s =>
    if isPlain c then do
      let more ← basicBody s
      return (more.map (c :: ·)).behind c
    else none
termination_by s => s.length
decreasing_by
  · exact (c.behind '\\').shorter
  · exact Nat.lt_succ_self s.length

def literalBody : Scan (List Char)
  | [] => none
  | '\'' :: s => some (.head [] '\'' s)
  | c :: s =>
    if isPlain c then (literalBody s).map fun more => (more.map (c :: ·)).behind c
    else none

-- ---------------------------------------------------------------------------
-- Strings of several lines
-- ---------------------------------------------------------------------------

/-- The white space that a backslash at the end of a line takes with it, if it stands at the end of
a line. -/
def takeLineBreak? (s : List Char) : Option (Taken Unit s) :=
  (takeNewline? (skipBlanks s).rest).map fun line =>
    (skipBlanks s).andTake (line.andSkip (skipWhite line.rest))

/-- The number of quotes at the front, five at most. -/
def quoteRun (quote : Char) (s : List Char) : Nat :=
  min ((s.takeWhile (· == quote)).length) 5

theorem length_drop_le (n : Nat) (s : List Char) : (s.drop n).length ≤ s.length :=
  (List.drop_sublist n s).length_le

def multilineBody (quote : Char) : Scan (List Char)
  | [] => none
  | c :: s =>
    if c = quote then
      let run := quoteRun quote (c :: s)
      if 3 ≤ run then
        some ((⟨List.replicate (run - 3) quote, s.drop (run - 1), length_drop_le (run - 1) s⟩ :
          Skipped (List Char) s).behind c)
      else do
        let more ← multilineBody quote s
        return (more.map (c :: ·)).behind c
    else
      match takeNewline? (c :: s) with
      | some line => do
        let more ← multilineBody quote line.rest
        return (line.andTake more).map ('\n' :: ·)
      | none =>
        if c = '\\' ∧ quote = '"' then
          match takeLineBreak? s with
          | some white => do
            let more ← multilineBody quote white.rest
            return (white.andTake more).behind c
          | none => do
            let d ← readEscape s
            let more ← multilineBody quote d.rest
            return ((d.andTake more).map (d.value :: ·)).behind c
        else if isPlain c then do
          let more ← multilineBody quote s
          return (more.map (c :: ·)).behind c
        else none
termination_by s => s.length
decreasing_by
  · exact Nat.lt_succ_self s.length
  · exact line.shorter
  · exact (white.behind c).shorter
  · exact (d.behind c).shorter
  · exact Nat.lt_succ_self s.length

/-- A string of several lines from behind its three opening quotes on. -/
def readMultiline (quote : Char) : Scan (List Char) := fun s =>
  match takeNewline? s with
  | none => multilineBody quote s
  | some line => (multilineBody quote line.rest).map line.andTake

-- ---------------------------------------------------------------------------
-- Strings of any form
-- ---------------------------------------------------------------------------

def readLineString : Scan String
  | '"' :: s => (basicBody s).map fun body => (body.map String.ofList).behind '"'
  | '\'' :: s => (literalBody s).map fun body => (body.map String.ofList).behind '\''
  | _ => none

def readString : Scan String
  | '"' :: '"' :: '"' :: s =>
    (readMultiline '"' s).map fun body =>
      (((body.map String.ofList).behind '"').behind '"').behind '"'
  | '\'' :: '\'' :: '\'' :: s =>
    (readMultiline '\'' s).map fun body =>
      (((body.map String.ofList).behind '\'').behind '\'').behind '\''
  | s => readLineString s

end HostSheet.Toml
