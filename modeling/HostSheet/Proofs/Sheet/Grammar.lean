import HostSheet.Sheet.Expression

/-!
# The grammar of values

Each reader of expressions has its grammar here: a relation between a text, what the text is read
as, and the text that is left.
-/

namespace HostSheet

/-- A grammar for an `α`. That `form s a rest` holds means that `s` is read as `a` up to `rest`. -/
abbrev Form (α : Type) := List Char → α → List Char → Prop

def Reader.Reads {α : Type} (read : Reader α) : Form α :=
  fun s a rest => ∃ shorter, read s = .ok ⟨a, rest, shorter⟩

def Trivia (s rest : List Char) : Prop :=
  ∃ noLonger, skipTrivia s = .ok ⟨(), rest, noLonger⟩

namespace Grammar

-- ---------------------------------------------------------------------------
-- Lists
-- ---------------------------------------------------------------------------

section
variable (Item : Form RawExpr)

inductive SpaceItems : Form (List RawExpr)
  | nil {s rest} : Trivia s rest → atValueEnd rest = true → SpaceItems s [] rest
  | cons {s s' s'' e es rest} : Trivia s s' → atValueEnd s' = false → Item s' e s'' →
      SpaceItems s'' es rest → SpaceItems s (e :: es) rest

inductive SpaceList : Form RawExpr
  | mk {s e s' es rest} : atValueEnd s = false → Item s e s' → SpaceItems Item s' es rest →
      SpaceList s (.collapse (e :: es) .space) rest

inductive CommaItems (atEnd : List Char → Bool) : Form (Option (List RawExpr))
  | none {s rest} : Trivia s rest → rest.head? ≠ some ',' → CommaItems atEnd s none rest
  | last {s s' rest} : Trivia s (',' :: s') → Trivia s' rest → atEnd rest = true →
      CommaItems atEnd s (some []) rest
  | cons {s s' s'' e s''' es rest} : Trivia s (',' :: s') → Trivia s' s'' → atEnd s'' = false →
      Item s'' e s''' → CommaItems atEnd s''' es rest →
      CommaItems atEnd s (some (e :: es.getD [])) rest

inductive CommaList : Form RawExpr
  | mk {s e s' es rest} : SpaceList Item s e s' →
      CommaItems (SpaceList Item) atValueEnd s' es rest → CommaList s (commaExpr e es) rest

-- ---------------------------------------------------------------------------
-- Groups and calls
-- ---------------------------------------------------------------------------

inductive EntryValue : Form RawExpr
  | mk {s s' s'' e rest} : Trivia s (':' :: s') → Trivia s' s'' → Item s'' e rest →
      EntryValue s e rest

inductive MapItems : Form (List (RawExpr × RawExpr))
  | none {s rest} : Trivia s rest → rest.head? ≠ some ',' → MapItems s [] rest
  | last {s s' rest} : Trivia s (',' :: s') → Trivia s' rest → atClose rest = true →
      MapItems s [] rest
  | cons {s s' s'' key t value t' entries rest} : Trivia s (',' :: s') → Trivia s' s'' →
      atClose s'' = false → Item s'' key t → EntryValue Item t value t' →
      MapItems t' entries rest → MapItems s ((key, value) :: entries) rest

inductive GroupRest (first : RawExpr) : Form RawExpr
  | map {s s' value s'' entries rest} : Trivia s (':' :: s') → EntryValue Item s value s'' →
      MapItems Item s'' entries rest → GroupRest first s (.map ((first, value) :: entries)) rest
  | list {s s' es rest} : Trivia s s' → s'.head? ≠ some ':' →
      CommaItems Item atClose s es rest → GroupRest first s (commaExpr first es) rest

inductive Group : Form RawExpr
  | empty {s rest} : Trivia s (')' :: rest) → Group ('(' :: s) (.literal .emptyList) rest
  | full {s s' first s'' e rest} : Trivia s s' → atClose s' = false → Item s' first s'' →
      GroupRest Item first s'' e (')' :: rest) → Group ('(' :: s) e rest

inductive ArgumentItems : Form (List RawExpr)
  | nil {s rest} : Trivia s (')' :: rest) → ArgumentItems s [] rest
  | last {s s' e s'' rest} : Trivia s s' → atClose s' = false → Item s' e s'' →
      Trivia s'' (')' :: rest) → ArgumentItems s [e] rest
  | cons {s s' e s'' t es rest} : Trivia s s' → atClose s' = false → Item s' e s'' →
      Trivia s'' (',' :: t) → ArgumentItems t es rest → ArgumentItems s (e :: es) rest

inductive ArgumentList : Form (List RawExpr)
  | mk {s es rest} : ArgumentItems Item s es rest → ArgumentList ('(' :: s) es rest

end

-- ---------------------------------------------------------------------------
-- Primaries
-- ---------------------------------------------------------------------------

inductive NameOrCall (Args : Form (List RawExpr)) : Form RawExpr
  | name {s name rest} : readName.Reads s name rest → rest.head? ≠ some '(' →
      NameOrCall Args s (.literal (nameValue name)) rest
  | call {s name s' es rest} : readName.Reads s name s' → s'.head? = some '(' → Args s' es rest →
      NameOrCall Args s (.call name es s) rest

inductive PrimaryOf (Grp : Form RawExpr) (Args : Form (List RawExpr)) : Form RawExpr
  | group {s e rest} : Grp ('(' :: s) e rest → PrimaryOf Grp Args ('(' :: s) e rest
  | color {s v rest} : readColor.Reads ('#' :: s) v rest →
      PrimaryOf Grp Args ('#' :: s) (.literal v) rest
  | quoted {quote s v rest} : quote = '"' ∨ quote = '\'' → readQuoted.Reads (quote :: s) v rest →
      PrimaryOf Grp Args (quote :: s) (.literal v) rest
  | number {s v rest} : startsNumber s = true → readNumber.Reads s v rest →
      PrimaryOf Grp Args s (.literal v) rest
  | name {c s e rest} : startsNumber (c :: s) = false → isNameStart c = true ∨ c = '-' →
      NameOrCall Args (c :: s) e rest → PrimaryOf Grp Args (c :: s) e rest

/-- A primary with so many levels of groups and calls in it at most. -/
def Primary : (levels : Nat) → Form RawExpr
  | 0 => PrimaryOf (fun _ _ _ => False) (fun _ _ _ => False)
  | levels + 1 =>
    PrimaryOf (Group (SpaceList (Primary levels))) (ArgumentList (SpaceList (Primary levels)))

end Grammar

end HostSheet
