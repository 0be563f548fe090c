import HostSheet.Css.Formatter

/-!
# Blocks of CSS

The result of a compilation is a flat list of blocks. Blocks without declarations are not written.
-/

namespace HostSheet

structure Block where
  selectors : List String
  declarations : List (String × String)
  deriving Repr, DecidableEq

namespace Block

def expanded (b : Block) : String :=
  String.intercalate ", " b.selectors ++ " \x7b\n" ++
    String.join (b.declarations.map fun (property, value) =>
      "  " ++ property ++ ": " ++ value ++ ";\n") ++ "\x7d\n"

/-- A block without any blank that is not needed. -/
def compressed (b : Block) : String :=
  String.intercalate "," b.selectors ++ "\x7b" ++
    String.intercalate ";" (b.declarations.map fun (property, value) => property ++ ":" ++ value) ++
    "\x7d"

/-- The style sheet made of the blocks. Expanded blocks have an empty line between them; a
compressed sheet is one line. -/
def render (blocks : List Block) (style : OutputStyle) : String :=
  let written := blocks.filter (!·.declarations.isEmpty)
  match style with
  | .expanded => String.intercalate "\n" (written.map expanded)
  | .compressed => if written.isEmpty then "" else String.join (written.map compressed) ++ "\n"

end Block

end HostSheet
