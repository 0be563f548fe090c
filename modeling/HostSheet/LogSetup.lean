import HostSheet.Config.Basic

/-!
# Log setups

A log setup says which events are logged, how their lines look and where the lines go. It is taken
from the settings of a configuration, or made from the defaults.
-/

namespace HostSheet

inductive LogLevel where
  | error
  | warn
  | info
  | debug
  | trace
  deriving Repr, DecidableEq

namespace LogLevel

def name : LogLevel → String
  | .error => "ERROR"
  | .warn => "WARN"
  | .info => "INFO"
  | .debug => "DEBUG"
  | .trace => "TRACE"

def all : List LogLevel :=
  [.error, .warn, .info, .debug, .trace]

/-- The number that decimal digits write, with or without a plus sign in front. -/
def numeral? (text : List Char) : Option Nat :=
  let digits := if text.head? = some '+' then text.tail else text
  if digits.isEmpty ∨ !digits.all Char.isDigit then none
  else some (digits.foldl (fun n c => 10 * n + (c.toNat - '0'.toNat)) 0)

/-- The level with a name, in letters of either case, or with a number from one on. -/
def parse? (text : String) : Option LogLevel :=
  match numeral? text.toList with
  | some 0 => none
  | some (n + 1) => all[n]?
  | none => all.find? (·.name.toList == text.toList.map Char.toUpper)

end LogLevel

inductive LogTarget where
  | stdout
  | stderr
  /-- A file in a directory, a new one every day; its name starts with `stem`. -/
  | file (directory stem : String)
  deriving Repr, DecidableEq

structure LogSetup where
  level : LogLevel := .info
  format : LogFormat := .compact
  target : LogTarget := .stderr
  spanEvents : Bool := false
  filter : Option String := none
  deriving Repr, DecidableEq

/-- The setup that settings describe; the level is `info` if the settings name none. -/
def LogSetup.ofSettings (settings : LoggingSettings) : LogSetup where
  level := (LogLevel.parse? settings.level).getD .info
  format := settings.format
  filter := settings.filter

end HostSheet
