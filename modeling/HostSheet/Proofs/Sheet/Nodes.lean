import HostSheet.Proofs.Sheet.Tree
import HostSheet.Sheet.Parse

/-!
# The order of evaluation

What has to be evaluated in a sheet, one thing behind the other: rules from the top, the items of a
rule in turn with nested rules in their place, the calls of a value before the declaration, keys
before values, and the arguments of a call before the call. What a node needs is thereby known when
its turn comes.
-/

namespace HostSheet

/-- What evaluation comes to: a call behind its arguments, or a declaration behind its value. -/
inductive Node (p : Type) where
  | call (name : String) (args : List (Expr p)) (place : p)
  | declaration (d : Declaration p)

variable {p : Type}

namespace Expr

mutual

/-- The calls of an expression in the order of their evaluation. -/
def nodes : Expr p → List (Node p)
  | .literal _ => []
  | .list items _ => itemsNodes items
  | .map entries => entriesNodes entries
  | .call name args place => itemsNodes args ++ [.call name args place]

def itemsNodes : List (Expr p) → List (Node p)
  | [] => []
  | item :: items => item.nodes ++ itemsNodes items

def entriesNodes : List (Expr p × Expr p) → List (Node p)
  | [] => []
  | (key, value) :: entries => key.nodes ++ (value.nodes ++ entriesNodes entries)

end

theorem itemsNodes_eq (items : List (Expr p)) : itemsNodes items = items.flatMap nodes := by
  induction items with
  | nil => rfl
  | cons item items ih => rw [itemsNodes, ih, List.flatMap_cons]

theorem entriesNodes_eq (entries : List (Expr p × Expr p)) :
    entriesNodes entries = entries.flatMap fun entry => entry.1.nodes ++ entry.2.nodes := by
  induction entries with
  | nil => rfl
  | cons entry entries ih => rw [entriesNodes, ih, List.flatMap_cons, List.append_assoc]

end Expr

-- ---------------------------------------------------------------------------
-- Rules
-- ---------------------------------------------------------------------------

/-- Induction over a rule, from the rules in it to the whole. -/
@[elab_as_elim]
theorem Rule.treeInduction {motive : Rule p → Prop}
    (mk : ∀ selectors items place, (∀ r, Item.rule r ∈ items → motive r) →
      motive (.mk selectors items place)) : ∀ r, motive r
  | .mk selectors items place =>
    mk selectors items place fun r h =>
      have := List.sizeOf_lt_of_mem h
      treeInduction mk r
decreasing_by simp_all; omega

/-- Induction over the items of a rule, the items of a nested rule in its place. -/
@[elab_as_elim]
theorem Item.treeInduction {motive : List (Item p) → Prop} (nil : motive [])
    (declaration : ∀ d items, motive items → motive (.declaration d :: items))
    (rule : ∀ selectors inner place items, motive inner → motive items →
      motive (.rule (.mk selectors inner place) :: items)) : ∀ items, motive items
  | [] => nil
  | .declaration d :: items => declaration d items (treeInduction nil declaration rule items)
  | .rule (.mk selectors inner place) :: items =>
    rule selectors inner place items (treeInduction nil declaration rule inner)
      (treeInduction nil declaration rule items)

def Declaration.nodes (d : Declaration p) : List (Node p) :=
  d.value.nodes ++ [.declaration d]

mutual

def Rule.nodes : Rule p → List (Node p)
  | .mk _ items _ => Item.nodes items

def Item.nodes : List (Item p) → List (Node p)
  | [] => []
  | .declaration d :: items => d.nodes ++ Item.nodes items
  | .rule r :: items => r.nodes ++ Item.nodes items

end

def Sheet.nodes (sheet : Sheet p) : List (Node p) :=
  sheet.flatMap Rule.nodes

end HostSheet
