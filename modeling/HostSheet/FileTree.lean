/-!
# File trees

A tree of directories and text files. Paths are relative to the root, and their parts are taken step
by step: `.` stays, `..` goes up, and every step starts from a directory that exists. A path that
ends in a slash leads into a directory.
-/

namespace HostSheet

inductive FileTree where
  | file (text : String)
  | directory (entries : List (String × FileTree))
  deriving Repr, Inhabited

/-- The parts between the slashes of a path; an empty part stands for `.`. -/
abbrev FilePath := List String

def FilePath.ofString (path : String) : FilePath :=
  (splitParts path.toList).map fun part => if part = "" then "." else part
where
  /-- The pieces between the slashes. -/
  splitParts : List Char → List String
    | [] => [""]
    | c :: cs =>
      match splitParts cs with
      | [] => []
      | part :: parts => if c = '/' then "" :: part :: parts else (c.toString ++ part) :: parts

def FilePath.stages : FilePath → List FilePath
  | [] => [[]]
  | part :: parts => [] :: (stages parts).map (part :: ·)

/-- A path and the paths above it, up to the root; parts that stay where they are do not count. -/
def FilePath.ancestors (path : FilePath) : List FilePath :=
  (FilePath.stages (path.filter (· != "."))).reverse

namespace FileTree

def empty : FileTree :=
  .directory []

def isDirectory : FileTree → Bool
  | .directory _ => true
  | .file _ => false

def isName (name : String) : Bool :=
  name != "." && name != ".." && name.utf8ByteSize ≤ 255 && !name.toList.contains '\x00'

def get? : List String → FileTree → Option FileTree
  | [], tree => some tree
  | _ :: _, .file _ => none
  | name :: names, .directory entries => do
    let entry ← entries.find? (·.1 == name)
    get? names entry.2

def putEntry (name : String) (tree : FileTree) (entries : List (String × FileTree)) :
    List (String × FileTree) :=
  (name, tree) :: entries.filter (·.1 != name)

/-- Puts something under a list of names; all names but the last stand for directories. -/
def put? (new : FileTree) : List String → FileTree → Option FileTree
  | [], _ => none
  | _ :: _, .file _ => none
  | [name], .directory entries =>
    if isName name then some (.directory (putEntry name new entries)) else none
  | name :: next :: names, .directory entries => do
    let inner ← entries.find? (·.1 == name)
    let inner ← put? new (next :: names) inner.2
    return .directory (putEntry name inner entries)

/-- The names that lead to where a path leads, going on from `trail`, the last name first. -/
def resolve (tree : FileTree) (trail : List String) : FilePath → Option (List String)
  | [] => some trail.reverse
  | part :: parts => do
    if (← tree.get? trail.reverse).isDirectory then
      if part = "." then resolve tree trail parts
      else if part = ".." then resolve tree trail.tail parts
      else resolve tree (part :: trail) parts
    else none

def find? (tree : FileTree) (path : FilePath) : Option FileTree := do
  tree.get? (← tree.resolve [] path)

def read? (tree : FileTree) (path : FilePath) : Option String :=
  match tree.find? path with
  | some (.file text) => some text
  | _ => none

/-- Writes a file; its directory has to exist, and there is no directory in its place. -/
def write? (tree : FileTree) (path : FilePath) (text : String) : Option FileTree := do
  let names ← tree.resolve [] path
  match tree.get? names with
  | some (.directory _) => none
  | _ => put? (.file text) names tree

def makeDirectory? (tree : FileTree) (path : FilePath) : Option FileTree := do
  let names ← tree.resolve [] path
  match tree.get? names with
  | some (.directory _) => some tree
  | some (.file _) => none
  | none => put? empty names tree

/-- Makes a directory and the directories above it. -/
def makeDirectories? (tree : FileTree) (path : FilePath) : Option FileTree :=
  path.stages.foldlM makeDirectory? tree

end FileTree

end HostSheet
