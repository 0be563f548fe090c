import HostSheet.Css.Formatter

/-!
# Configuration

What a session is told about compiling and about logging. Every setting has a default.
-/

namespace HostSheet

structure CompileSettings where
  sourceName : String := "stdin"
  /-- The decimal places of printed numbers. -/
  precision : Nat := 5
  outputStyle : OutputStyle := .expanded
  /-- The lines shown on either side of the line that a message is about. -/
  contextLines : Nat := 1
  deriving Repr, DecidableEq

inductive LogFormat where
  | pretty
  | compact
  | json
  deriving Repr, DecidableEq

structure LoggingSettings where
  level : String := "info"
  format : LogFormat := .compact
  filter : Option String := none
  deriving Repr, DecidableEq

structure Config where
  compile : CompileSettings := {}
  logging : LoggingSettings := {}
  deriving Repr, DecidableEq

end HostSheet
