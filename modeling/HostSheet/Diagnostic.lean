import HostSheet.Source.Text

/-!
# Diagnostics

A diagnostic is a message about a place in a source, together with the lines around the place. It is
written for people as

```text
Error > name:line
message
lines of the source
```

and for programs as one JSON object.
-/

namespace HostSheet

inductive Severity where
  | error
  | warning
  deriving Repr, DecidableEq

def Severity.text : Severity → String
  | .error => "Error"
  | .warning => "Warning"

def Severity.word : Severity → String
  | .error => "error"
  | .warning => "warning"

structure Diagnostic where
  severity : Severity
  message : String
  line : Nat
  column : Nat
  sourceName : String
  /-- The lines around the place, each with a line feed. -/
  snippet : String
  deriving Repr, DecidableEq

namespace Diagnostic

def ofLocation (severity : Severity) (message : String) (location : Location) (source : SourceText)
    (contextLines : Nat) : Diagnostic :=
  { severity, message
    line := location.line
    column := location.column
    sourceName := source.name
    snippet := String.join ((source.context location.line contextLines).map (· ++ "\n")) }

theorem eq_ofLocation_iff {d : Diagnostic} {severity : Severity} {message : String}
    {location : Location} {source : SourceText} {contextLines : Nat} :
    d = ofLocation severity message location source contextLines ↔
      d.severity = severity ∧ d.message = message ∧
        d.line = location.line ∧ d.column = location.column ∧ d.sourceName = source.name ∧
        d.snippet =
          String.join ((source.context location.line contextLines).map (· ++ "\n")) := by
  cases d
  simp [ofLocation]

def text (d : Diagnostic) : String :=
  d.severity.text ++ " > " ++ d.sourceName ++ ":" ++ toString d.line ++ "\n" ++ d.message ++ "\n" ++
    d.snippet

-- ---------------------------------------------------------------------------
-- JSON
-- ---------------------------------------------------------------------------

/-- A character of a JSON string. Quotes, backslashes and control characters below the blank are
escaped, all others stand for themselves. -/
def jsonChar (c : Char) : List Char :=
  match c with
  | '"' => ['\\', '"']
  | '\\' => ['\\', '\\']
  | '\n' => ['\\', 'n']
  | '\r' => ['\\', 'r']
  | '\t' => ['\\', 't']
  | '\x08' => ['\\', 'b']
  | '\x0c' => ['\\', 'f']
  | c =>
    if c.toNat < 0x20 then
      ['\\', 'u', '0', '0', Nat.digitChar (c.toNat / 16), Nat.digitChar (c.toNat % 16)]
    else [c]

def jsonString (text : String) : String :=
  "\"" ++ String.ofList (text.toList.flatMap jsonChar) ++ "\""

def json (d : Diagnostic) : String :=
  let fields := [("severity", jsonString d.severity.word), ("message", jsonString d.message),
    ("line", toString d.line), ("column", toString d.column),
    ("source_name", jsonString d.sourceName), ("source_snippet", jsonString d.snippet)]
  let members := fields.map fun (name, value) => jsonString name ++ ":" ++ value
  "\x7b" ++ String.intercalate "," members ++ "\x7d"

end Diagnostic

-- ---------------------------------------------------------------------------
-- Collectors
-- ---------------------------------------------------------------------------

/-- Diagnostics in the order they were raised, up to a limit; later ones are not kept. -/
structure DiagnosticCollector where
  limit : Nat := 100
  kept : List Diagnostic := []
  deriving Repr, DecidableEq

namespace DiagnosticCollector

def add (c : DiagnosticCollector) (d : Diagnostic) : Bool × DiagnosticCollector :=
  if c.kept.length < c.limit then (true, { c with kept := c.kept ++ [d] }) else (false, c)

def addAll (c : DiagnosticCollector) (ds : List Diagnostic) : DiagnosticCollector :=
  ds.foldl (fun c d => (c.add d).2) c

def clear (c : DiagnosticCollector) : DiagnosticCollector :=
  { c with kept := [] }

end DiagnosticCollector

end HostSheet
