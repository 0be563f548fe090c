import HostSheet.Config.Read
import HostSheet.Config.Text
import HostSheet.FileTree

/-!
# Configuration files

A configuration is loaded from a file and saved to one. The configuration of a directory is the one
in the nearest directory at or above it that has a configuration file which can be read.
-/

namespace HostSheet

/-- Why a configuration was not loaded or saved. -/
inductive ConfigError where
  /-- There is no file to read. -/
  | unreadable
  /-- The file describes no configuration. -/
  | malformed
  /-- A document cannot hold the configuration. -/
  | unstorable
  /-- The file cannot be written. -/
  | unwritable
  deriving Repr, DecidableEq

namespace Config

def fileName : String :=
  ".stylebindrc.toml"

def parse (text : String) : Except ConfigError Config :=
  (parse? text).elim (.error .malformed) .ok

def load (files : FileTree) (path : FilePath) : Except ConfigError Config :=
  match files.read? path with
  | none => .error .unreadable
  | some text => parse text

def save (c : Config) (files : FileTree) (path : FilePath) : Except ConfigError FileTree :=
  if c.IsStorable then
    (files.write? path c.text).elim (.error .unwritable) .ok
  else .error .unstorable

/-- The configuration for a directory, which need not exist. Files that cannot be read are passed
over. -/
def discover (files : FileTree) (directory : FilePath) : Option Config :=
  directory.ancestors.findSome? fun above => (load files (above ++ [fileName])).toOption

end Config

end HostSheet
