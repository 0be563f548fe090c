import HostSheet.Value.Basic

/-!
# Style sheets

A sheet is a list of rules. A rule has selectors and a block of declarations and further rules, a
declaration gives a property the value of an expression. Rules, declarations and calls remember
their place; what a place is, is left open, so that the same sheet can be looked at with other
places or with none.
-/

namespace HostSheet

inductive Expr (p : Type) where
  | literal (value : Value)
  | list (items : List (Expr p)) (separator : Separator)
  | map (entries : List (Expr p × Expr p))
  | call (name : String) (args : List (Expr p)) (place : p)
  deriving Repr, Inhabited

structure Declaration (p : Type) where
  property : String
  value : Expr p
  place : p
  deriving Repr

mutual

inductive Rule (p : Type) where
  | mk (selectors : List String) (items : List (Item p)) (place : p)

inductive Item (p : Type) where
  | declaration (d : Declaration p)
  | rule (r : Rule p)

end

/-- A list of expressions; a single one stands for itself. -/
def Expr.collapse {p : Type} (items : List (Expr p)) (separator : Separator) : Expr p :=
  match items with
  | [item] => item
  | items => .list items separator

-- ---------------------------------------------------------------------------
-- Places
-- ---------------------------------------------------------------------------

namespace Expr

variable {p q : Type}

mutual

def mapPlaces (f : p → q) : Expr p → Expr q
  | .literal value => .literal value
  | .list items separator => .list (mapPlacesItems f items) separator
  | .map entries => .map (mapPlacesEntries f entries)
  | .call name args place => .call name (mapPlacesItems f args) (f place)

def mapPlacesItems (f : p → q) : List (Expr p) → List (Expr q)
  | [] => []
  | item :: items => mapPlaces f item :: mapPlacesItems f items

def mapPlacesEntries (f : p → q) : List (Expr p × Expr p) → List (Expr q × Expr q)
  | [] => []
  | (key, value) :: entries =>
    (mapPlaces f key, mapPlaces f value) :: mapPlacesEntries f entries

end

end Expr

def Declaration.mapPlaces {p q : Type} (f : p → q) (d : Declaration p) : Declaration q :=
  ⟨d.property, d.value.mapPlaces f, f d.place⟩

mutual

def Rule.mapPlaces {p q : Type} (f : p → q) : Rule p → Rule q
  | .mk selectors items place => .mk selectors (Item.mapPlacesAll f items) (f place)

def Item.mapPlaces {p q : Type} (f : p → q) : Item p → Item q
  | .declaration d => .declaration (d.mapPlaces f)
  | .rule r => .rule (r.mapPlaces f)

def Item.mapPlacesAll {p q : Type} (f : p → q) : List (Item p) → List (Item q)
  | [] => []
  | item :: items => item.mapPlaces f :: Item.mapPlacesAll f items

end

namespace Rule

variable {p : Type}

def selectors : Rule p → List String
  | .mk selectors _ _ => selectors

def items : Rule p → List (Item p)
  | .mk _ items _ => items

def place : Rule p → p
  | .mk _ _ place => place

end Rule

end HostSheet
