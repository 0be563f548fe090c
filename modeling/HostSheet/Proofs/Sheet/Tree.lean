import HostSheet.Proofs.Conversion.Tree
import HostSheet.Sheet.Basic
import Mathlib.Data.List.Basic

/-!
# Expressions as trees

Expressions are looked at in three ways: which literals they hold, which names they call, and how
many levels they have. None of this depends on places.
-/

namespace HostSheet.Expr

variable {p q : Type}

-- ---------------------------------------------------------------------------
-- Induction
-- ---------------------------------------------------------------------------

/-- Induction over an expression, from its parts to the whole. -/
@[elab_as_elim]
theorem treeInduction {motive : Expr p → Prop} (literal : ∀ value, motive (.literal value))
    (list : ∀ items separator, (∀ item ∈ items, motive item) → motive (.list items separator))
    (map : ∀ entries, (∀ entry ∈ entries, motive entry.1 ∧ motive entry.2) →
      motive (.map entries))
    (call : ∀ name args place, (∀ arg ∈ args, motive arg) → motive (.call name args place)) :
    ∀ e, motive e
  | .literal value => literal value
  | .list items separator =>
    list items separator fun item h =>
      have := List.sizeOf_lt_of_mem h
      treeInduction literal list map call item
  | .map entries =>
    map entries fun entry h =>
      have := sizeOf_key_lt h
      have := sizeOf_value_lt h
      ⟨treeInduction literal list map call entry.1, treeInduction literal list map call entry.2⟩
  | .call name args place =>
    call name args place fun arg h =>
      have := List.sizeOf_lt_of_mem h
      treeInduction literal list map call arg

-- ---------------------------------------------------------------------------
-- Literals
-- ---------------------------------------------------------------------------

mutual

def literals : Expr p → List Value
  | .literal value => [value]
  | .list items _ => itemsLiterals items
  | .map entries => entriesLiterals entries
  | .call _ args _ => itemsLiterals args

def itemsLiterals : List (Expr p) → List Value
  | [] => []
  | item :: items => item.literals ++ itemsLiterals items

def entriesLiterals : List (Expr p × Expr p) → List Value
  | [] => []
  | (key, value) :: entries => key.literals ++ value.literals ++ entriesLiterals entries

end

theorem itemsLiterals_eq (items : List (Expr p)) :
    itemsLiterals items = items.flatMap literals := by
  induction items with
  | nil => rfl
  | cons item items ih => rw [itemsLiterals, ih, List.flatMap_cons]

theorem entriesLiterals_eq (entries : List (Expr p × Expr p)) :
    entriesLiterals entries =
      entries.flatMap fun entry => entry.1.literals ++ entry.2.literals := by
  induction entries with
  | nil => rfl
  | cons entry entries ih => rw [entriesLiterals, ih, List.flatMap_cons]

-- ---------------------------------------------------------------------------
-- Calls
-- ---------------------------------------------------------------------------

mutual

def callNames : Expr p → List String
  | .literal _ => []
  | .list items _ => itemsCallNames items
  | .map entries => entriesCallNames entries
  | .call name args _ => itemsCallNames args ++ [name]

def itemsCallNames : List (Expr p) → List String
  | [] => []
  | item :: items => item.callNames ++ itemsCallNames items

def entriesCallNames : List (Expr p × Expr p) → List String
  | [] => []
  | (key, value) :: entries => key.callNames ++ value.callNames ++ entriesCallNames entries

end

theorem itemsCallNames_eq (items : List (Expr p)) :
    itemsCallNames items = items.flatMap callNames := by
  induction items with
  | nil => rfl
  | cons item items ih => rw [itemsCallNames, ih, List.flatMap_cons]

theorem entriesCallNames_eq (entries : List (Expr p × Expr p)) :
    entriesCallNames entries =
      entries.flatMap fun entry => entry.1.callNames ++ entry.2.callNames := by
  induction entries with
  | nil => rfl
  | cons entry entries ih => rw [entriesCallNames, ih, List.flatMap_cons]

def CallFree (e : Expr p) : Prop := e.callNames = []

@[simp] theorem callFree_literal (value : Value) : (literal value : Expr p).CallFree := rfl

@[simp] theorem callFree_list {items : List (Expr p)} {separator : Separator} :
    (list items separator).CallFree ↔ ∀ item ∈ items, item.CallFree := by
  rw [CallFree, callNames, itemsCallNames_eq]
  simp [CallFree]

@[simp] theorem callFree_map {entries : List (Expr p × Expr p)} :
    (map entries).CallFree ↔ ∀ entry ∈ entries, entry.1.CallFree ∧ entry.2.CallFree := by
  rw [CallFree, callNames, entriesCallNames_eq]
  simp [CallFree]

@[simp] theorem not_callFree_call {name : String} {args : List (Expr p)} {place : p} :
    ¬ (call name args place).CallFree := by
  simp [CallFree, callNames]

-- ---------------------------------------------------------------------------
-- Levels
-- ---------------------------------------------------------------------------

mutual

def height : Expr p → Nat
  | .literal _ => 0
  | .list items _ => itemsHeight items
  | .map entries => entriesHeight entries
  | .call _ args _ => itemsHeight args

def itemsHeight : List (Expr p) → Nat
  | [] => 0
  | item :: items => max (item.height + 1) (itemsHeight items)

def entriesHeight : List (Expr p × Expr p) → Nat
  | [] => 0
  | (key, value) :: entries =>
    max (max (key.height + 1) (value.height + 1)) (entriesHeight entries)

end

section
variable {n : Nat}

theorem itemsHeight_le {items : List (Expr p)} :
    itemsHeight items ≤ n ↔ ∀ item ∈ items, item.height + 1 ≤ n := by
  induction items with
  | nil => simp [itemsHeight]
  | cons item items ih => rw [itemsHeight, Nat.max_le, List.forall_mem_cons, ih]

theorem entriesHeight_le {entries : List (Expr p × Expr p)} :
    entriesHeight entries ≤ n ↔
      ∀ entry ∈ entries, entry.1.height + 1 ≤ n ∧ entry.2.height + 1 ≤ n := by
  induction entries with
  | nil => simp [entriesHeight]
  | cons entry entries ih =>
    rw [entriesHeight, Nat.max_le, Nat.max_le, List.forall_mem_cons, ih]

end

-- ---------------------------------------------------------------------------
-- Places
-- ---------------------------------------------------------------------------

theorem mapPlacesItems_eq (f : p → q) (items : List (Expr p)) :
    mapPlacesItems f items = items.map (mapPlaces f) := by
  induction items with
  | nil => rfl
  | cons item items ih => rw [mapPlacesItems, ih, List.map_cons]

theorem mapPlacesEntries_eq (f : p → q) (entries : List (Expr p × Expr p)) :
    mapPlacesEntries f entries =
      entries.map fun entry => (entry.1.mapPlaces f, entry.2.mapPlaces f) := by
  induction entries with
  | nil => rfl
  | cons entry entries ih => rw [mapPlacesEntries, ih, List.map_cons]

theorem mapPlaces_mapPlaces {t : Type} (f : p → q) (g : q → t) (e : Expr p) :
    (e.mapPlaces f).mapPlaces g = e.mapPlaces (g ∘ f) := by
  induction e using treeInduction with
  | literal value => rfl
  | list items separator ih =>
    simp only [mapPlaces, mapPlacesItems_eq, List.map_map]
    exact congrArg (list · separator) (List.map_congr_left ih)
  | map entries ih =>
    simp only [mapPlaces, mapPlacesEntries_eq, List.map_map]
    exact congrArg map (List.map_congr_left fun entry h => Prod.ext (ih entry h).1 (ih entry h).2)
  | call name args place ih =>
    simp only [mapPlaces, mapPlacesItems_eq, List.map_map]
    exact congrArg (call name · (g (f place))) (List.map_congr_left ih)

theorem itemsLiterals_mapPlaces (f : p → q) {items : List (Expr p)}
    (h : ∀ item ∈ items, (item.mapPlaces f).literals = item.literals) :
    itemsLiterals (mapPlacesItems f items) = itemsLiterals items := by
  rw [mapPlacesItems_eq, itemsLiterals_eq, itemsLiterals_eq, List.flatMap_map]
  exact List.flatMap_congr h

theorem literals_mapPlaces (f : p → q) (e : Expr p) : (e.mapPlaces f).literals = e.literals := by
  induction e using treeInduction with
  | literal value => rfl
  | list items separator ih => exact itemsLiterals_mapPlaces f ih
  | map entries ih =>
    rw [mapPlaces, literals, literals, mapPlacesEntries_eq, entriesLiterals_eq, entriesLiterals_eq,
      List.flatMap_map]
    exact List.flatMap_congr fun entry he => congrArg₂ _ (ih entry he).1 (ih entry he).2
  | call name args place ih => exact itemsLiterals_mapPlaces f ih

theorem itemsCallNames_mapPlaces (f : p → q) {items : List (Expr p)}
    (h : ∀ item ∈ items, (item.mapPlaces f).callNames = item.callNames) :
    itemsCallNames (mapPlacesItems f items) = itemsCallNames items := by
  rw [mapPlacesItems_eq, itemsCallNames_eq, itemsCallNames_eq, List.flatMap_map]
  exact List.flatMap_congr h

theorem callNames_mapPlaces (f : p → q) (e : Expr p) : (e.mapPlaces f).callNames = e.callNames := by
  induction e using treeInduction with
  | literal value => rfl
  | list items separator ih => exact itemsCallNames_mapPlaces f ih
  | map entries ih =>
    rw [mapPlaces, callNames, callNames, mapPlacesEntries_eq, entriesCallNames_eq,
      entriesCallNames_eq, List.flatMap_map]
    exact List.flatMap_congr fun entry he => congrArg₂ _ (ih entry he).1 (ih entry he).2
  | call name args place ih => exact congrArg (· ++ [name]) (itemsCallNames_mapPlaces f ih)

theorem itemsHeight_mapPlaces (f : p → q) {items : List (Expr p)}
    (h : ∀ item ∈ items, (item.mapPlaces f).height = item.height) :
    itemsHeight (mapPlacesItems f items) = itemsHeight items := by
  induction items with
  | nil => rfl
  | cons item items ih =>
    rw [List.forall_mem_cons] at h
    rw [mapPlacesItems, itemsHeight, itemsHeight, h.1, ih h.2]

theorem height_mapPlaces (f : p → q) (e : Expr p) : (e.mapPlaces f).height = e.height := by
  induction e using treeInduction with
  | literal value => rfl
  | list items separator ih => exact itemsHeight_mapPlaces f ih
  | map entries ih =>
    rw [mapPlaces, height, height]
    induction entries with
    | nil => rfl
    | cons entry entries rest =>
      rw [List.forall_mem_cons] at ih
      rw [mapPlacesEntries, entriesHeight, entriesHeight, ih.1.1, ih.1.2, rest ih.2]
  | call name args place ih => exact itemsHeight_mapPlaces f ih

end HostSheet.Expr
