import HostSheet.Config.Basic

/-!
# Writing a configuration

A configuration is written with all its settings, a table for compiling and one for logging; a
filter is left out where there is none. Strings are basic strings. A number that a document cannot
hold is not written.
-/

namespace HostSheet

def OutputStyle.name : OutputStyle → String
  | .expanded => "expanded"
  | .compressed => "compressed"

def LogFormat.name : LogFormat → String
  | .pretty => "pretty"
  | .compact => "compact"
  | .json => "json"

namespace Config

def hexText (n : Nat) : List Char :=
  let digits := Nat.toDigits 16 n
  List.replicate (4 - digits.length) '0' ++ digits

def escaped (c : Char) : List Char :=
  match c with
  | '"' => ['\\', '"']
  | '\\' => ['\\', '\\']
  | '\n' => ['\\', 'n']
  | '\r' => ['\\', 'r']
  | '\t' => ['\\', 't']
  | c => if c.toNat < 0x20 ∨ c.toNat = 0x7F then '\\' :: 'u' :: hexText c.toNat else [c]

def quoted (text : String) : String :=
  String.ofList ('"' :: text.toList.flatMap escaped ++ ['"'])

def settingLine (key value : String) : String :=
  key ++ " = " ++ value ++ "\n"

def text (c : Config) : String :=
  String.join
    ["[compile]\n",
      settingLine "source_name" (quoted c.compile.sourceName),
      settingLine "precision" (toString c.compile.precision),
      settingLine "output_style" (quoted c.compile.outputStyle.name),
      settingLine "context_lines" (toString c.compile.contextLines),
      "\n[logging]\n",
      settingLine "level" (quoted c.logging.level),
      settingLine "format" (quoted c.logging.format.name),
      (c.logging.filter.map fun filter => settingLine "filter" (quoted filter)).getD ""]

/-- Whether the numbers of a configuration fit in a document. -/
def IsStorable (c : Config) : Prop :=
  c.compile.precision < Nat.pow 2 63 ∧ c.compile.contextLines < Nat.pow 2 63

instance (c : Config) : Decidable c.IsStorable :=
  inferInstanceAs (Decidable (_ ∧ _))

def defaultText : String :=
  text {}

end Config

end HostSheet
