import HostSheet.Config.Basic
import HostSheet.Toml.Document

/-!
# Reading a configuration

A configuration is a TOML document with the tables `compile` and `logging`. A setting that is left
out has its default, a key that is no setting is passed over, and a setting of the wrong type is
refused.

The settings of a table may also be given as an array, in their order; items that are missing have
their defaults, and further items are passed over. A moment holds no setting at all.
-/

namespace HostSheet

namespace Config

/-- Where the settings of a table are looked up: by key and by position. -/
abbrev Lookup := (key : String) → (position : Nat) → Option Toml.Value

def lookup? : Toml.Value → Option Lookup
  | .table entries => some fun key _ => Toml.Table.find? entries key
  | .array items => some fun _ position => items[position]?
  | .moment _ => some fun _ _ => none
  | _ => none

def setting {α : Type} (read : Toml.Value → Option α) (default : α) : Option Toml.Value → Option α
  | none => some default
  | some v => read v

def text? : Toml.Value → Option String
  | .string text => some text
  | _ => none

/-- A count; it is not negative. -/
def count? : Toml.Value → Option Nat
  | .integer (.ofNat n) => some n
  | _ => none

/-- The name of a choice: a string, or the only key of a table that holds something empty. -/
def choice? : Toml.Value → Option String
  | .string name => some name
  | .table [(name, .table [])] => some name
  | .table [(name, .array [])] => some name
  | _ => none

def outputStyle? (v : Toml.Value) : Option OutputStyle := do
  match ← choice? v with
  | "expanded" => some .expanded
  | "compressed" => some .compressed
  | _ => none

def logFormat? (v : Toml.Value) : Option LogFormat := do
  match ← choice? v with
  | "pretty" => some .pretty
  | "compact" => some .compact
  | "json" => some .json
  | _ => none

def compile? (v : Toml.Value) : Option CompileSettings := do
  let settings ← lookup? v
  let defaults : CompileSettings := {}
  let sourceName ← setting text? defaults.sourceName (settings "source_name" 0)
  let precision ← setting count? defaults.precision (settings "precision" 1)
  let outputStyle ← setting outputStyle? defaults.outputStyle (settings "output_style" 2)
  let contextLines ← setting count? defaults.contextLines (settings "context_lines" 3)
  return { sourceName, precision, outputStyle, contextLines }

def logging? (v : Toml.Value) : Option LoggingSettings := do
  let settings ← lookup? v
  let defaults : LoggingSettings := {}
  let level ← setting text? defaults.level (settings "level" 0)
  let format ← setting logFormat? defaults.format (settings "format" 1)
  let filter ← setting (fun v => (text? v).map some) defaults.filter (settings "filter" 2)
  return { level, format, filter }

def ofTable? (t : Toml.Table) : Option Config := do
  let compile ← setting compile? {} (t.find? "compile")
  let logging ← setting logging? {} (t.find? "logging")
  return { compile, logging }

def parse? (text : String) : Option Config := do
  ofTable? (← Toml.Table.parse? text)

end Config

end HostSheet
