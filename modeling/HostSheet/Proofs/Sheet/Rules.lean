import HostSheet.Proofs.Sheet.Nodes

/-!
# The rules of a sheet

The rules of a sheet can be listed one behind the other, a rule before the rules in it. Each stands
in a chain of rules. What is said of all rules of a sheet is said of each rule and of those in it.
-/

namespace HostSheet

variable {p q : Type}

-- ---------------------------------------------------------------------------
-- Rules in their order
-- ---------------------------------------------------------------------------

mutual

/-- A rule and the rules in it, each before the rules in it: the selectors along the chain of rules
that ends in it, the outermost first, and its items. -/
def Rule.preorder (chain : List (List String)) :
    Rule p → List (List (List String) × List (Item p))
  | .mk selectors items _ =>
    (chain ++ [selectors], items) :: Item.preorder (chain ++ [selectors]) items

def Item.preorder (chain : List (List String)) :
    List (Item p) → List (List (List String) × List (Item p))
  | [] => []
  | .declaration _ :: items => Item.preorder chain items
  | .rule r :: items => r.preorder chain ++ Item.preorder chain items

end

def Sheet.preorder (sheet : Sheet p) : List (List (List String) × List (Item p)) :=
  sheet.flatMap (Rule.preorder [])

-- ---------------------------------------------------------------------------
-- All rules
-- ---------------------------------------------------------------------------

inductive Rule.Each (P : Rule p → Prop) : Rule p → Prop where
  | mk {rule : Rule p} (own : P rule) (nested : ∀ r, Item.rule r ∈ rule.items → r.Each P) :
      Rule.Each P rule

namespace Rule

variable {P Q : Rule p → Prop} {rule : Rule p}

theorem Each.own (h : rule.Each P) : P rule := by
  cases h
  assumption

theorem Each.nested (h : rule.Each P) : ∀ r, Item.rule r ∈ rule.items → r.Each P := by
  cases h
  assumption

theorem Each.imp (h : rule.Each P) (hpq : ∀ r, P r → Q r) : rule.Each Q := by
  induction h with
  | mk own _ ih => exact .mk (hpq _ own) ih

theorem Each.and (h : rule.Each P) (h' : rule.Each Q) : rule.Each fun r => P r ∧ Q r := by
  induction h with
  | mk own _ ih => exact .mk ⟨own, h'.own⟩ fun r hr => ih r hr (h'.nested r hr)

end Rule

theorem Item.forall_nodes {P : Node p → Prop} {items : List (Item p)}
    (hdeclared : ∀ d, Item.declaration d ∈ items → ∀ node ∈ d.nodes, P node)
    (hnested : ∀ r, Item.rule r ∈ items → ∀ node ∈ r.nodes, P node) :
    ∀ node ∈ Item.nodes items, P node := by
  induction items with
  | nil => simp [nodes]
  | cons item items ih =>
    have hmore := ih (fun d hd => hdeclared d (List.mem_cons_of_mem _ hd))
      fun r hr => hnested r (List.mem_cons_of_mem _ hr)
    cases item with
    | declaration d =>
      rw [nodes, List.forall_mem_append]
      exact ⟨hdeclared d List.mem_cons_self, hmore⟩
    | rule r =>
      rw [nodes, List.forall_mem_append]
      exact ⟨hnested r List.mem_cons_self, hmore⟩

theorem Rule.Each.forall_nodes {P : Node p → Prop} {rule : Rule p}
    (h : rule.Each fun r => ∀ d, Item.declaration d ∈ r.items → ∀ node ∈ d.nodes, P node) :
    ∀ node ∈ rule.nodes, P node := by
  induction h with
  | @mk rule own _ ih =>
    obtain ⟨selectors, items, place⟩ := rule
    exact Item.forall_nodes own ih

-- ---------------------------------------------------------------------------
-- Selectors
-- ---------------------------------------------------------------------------

inductive Rule.Headed : Rule p → Prop where
  | mk {selectors : List String} {items : List (Item p)} {place : p} (head : selectors ≠ [])
      (nested : ∀ r, Item.rule r ∈ items → r.Headed) : Rule.Headed (.mk selectors items place)

theorem Item.preorder_of_forall {chain : List (List String)} {items : List (Item p)}
    {P : List (List String) × List (Item p) → Prop}
    (h : ∀ r, Item.rule r ∈ items → ∀ listed ∈ r.preorder chain, P listed) :
    ∀ listed ∈ Item.preorder chain items, P listed := by
  induction items with
  | nil => simp [Item.preorder]
  | cons item items ih =>
    have hitems := ih fun r hr => h r (List.mem_cons_of_mem _ hr)
    cases item with
    | declaration d => exact hitems
    | rule r =>
      rw [Item.preorder, List.forall_mem_append]
      exact ⟨h r List.mem_cons_self, hitems⟩

theorem Rule.Headed.preorder {rule : Rule p} (h : rule.Headed) {chain : List (List String)}
    (hchain : ∀ own ∈ chain, own ≠ []) :
    ∀ listed ∈ rule.preorder chain, listed.1 ≠ [] ∧ ∀ own ∈ listed.1, own ≠ [] := by
  induction h generalizing chain with
  | @mk selectors _ _ head _ ih =>
    have hall : ∀ own ∈ chain ++ [selectors], own ≠ [] := by
      rw [List.forall_mem_append, List.forall_mem_singleton]
      exact ⟨hchain, head⟩
    rw [Rule.preorder, List.forall_mem_cons]
    exact ⟨⟨by simp, hall⟩, Item.preorder_of_forall fun r hr => ih r hr hall⟩

-- ---------------------------------------------------------------------------
-- Places
-- ---------------------------------------------------------------------------

theorem mapPlacesAll_eq (f : p → q) (items : List (Item p)) :
    Item.mapPlacesAll f items = items.map (Item.mapPlaces f) := by
  induction items with
  | nil => rfl
  | cons item items ih => rw [Item.mapPlacesAll, ih, List.map_cons]

theorem Rule.mapPlaces_mapPlaces {t : Type} (f : p → q) (g : q → t) (rule : Rule p) :
    (rule.mapPlaces f).mapPlaces g = rule.mapPlaces (g ∘ f) := by
  induction rule using Rule.treeInduction with
  | mk selectors items place ih =>
    simp only [Rule.mapPlaces, mapPlacesAll_eq, List.map_map]
    refine congrArg (Rule.mk selectors · (g (f place))) (List.map_congr_left fun item h => ?_)
    cases item with
    | declaration d =>
      simp only [Function.comp_apply, Item.mapPlaces, Declaration.mapPlaces,
        Expr.mapPlaces_mapPlaces]
    | rule r => exact congrArg Item.rule (ih r h)

theorem Rule.mem_items_mapPlaces {f : p → q} {rule : Rule p} {item : Item q} :
    item ∈ (rule.mapPlaces f).items ↔ ∃ old ∈ rule.items, old.mapPlaces f = item := by
  obtain ⟨selectors, items, place⟩ := rule
  rw [mapPlaces, Rule.items, mapPlacesAll_eq, List.mem_map, Rule.items]

theorem Rule.selectors_mapPlaces (f : p → q) (rule : Rule p) :
    (rule.mapPlaces f).selectors = rule.selectors := by
  cases rule
  rfl

theorem Rule.place_mapPlaces (f : p → q) (rule : Rule p) :
    (rule.mapPlaces f).place = f rule.place := by
  cases rule
  rfl

theorem Rule.each_mapPlaces {f : p → q} {P : Rule q → Prop} {rule : Rule p} :
    (rule.mapPlaces f).Each P ↔ rule.Each fun r => P (r.mapPlaces f) := by
  constructor
  · intro h
    induction rule using Rule.treeInduction with
    | mk selectors items place ih =>
      refine .mk h.own fun r hr => ih r hr (h.nested _ ?_)
      exact mem_items_mapPlaces.2 ⟨.rule r, hr, rfl⟩
  · intro h
    induction h with
    | mk own _ ih =>
      refine .mk own fun r hr => ?_
      obtain ⟨item, hitem, hr⟩ := mem_items_mapPlaces.1 hr
      cases item with
      | declaration d => cases hr
      | rule old =>
        cases hr
        exact ih old hitem

theorem Rule.headed_iff {rule : Rule p} : rule.Headed ↔ rule.Each fun r => r.selectors ≠ [] := by
  constructor
  · intro h
    induction h with
    | mk head _ ih => exact .mk head ih
  · intro h
    induction h with
    | @mk rule own _ ih =>
      obtain ⟨selectors, items, place⟩ := rule
      exact .mk own ih

theorem Rule.headed_mapPlaces {f : p → q} {rule : Rule p} :
    (rule.mapPlaces f).Headed ↔ rule.Headed := by
  rw [headed_iff, headed_iff, each_mapPlaces]
  simp only [selectors_mapPlaces]

end HostSheet
