import HostSheet.HostValue.Basic

/-!
# Values as trees

Sheet values and host values are trees of lists and maps with everything else at their leaves. Both
are looked at in three ways here: whether they may cross the boundary between a sheet and its host,
how many levels they have, and which leaves they have from left to right.
-/

namespace HostSheet

-- ---------------------------------------------------------------------------
-- Induction
-- ---------------------------------------------------------------------------

section
variable {α : Type} {entries : List (α × α)} {entry : α × α}

theorem sizeOf_key_lt [SizeOf α] (h : entry ∈ entries) : sizeOf entry.1 < sizeOf entries := by
  have := List.sizeOf_lt_of_mem h
  have : sizeOf entry = 1 + sizeOf entry.1 + sizeOf entry.2 := rfl
  omega

theorem sizeOf_value_lt [SizeOf α] (h : entry ∈ entries) : sizeOf entry.2 < sizeOf entries := by
  have := List.sizeOf_lt_of_mem h
  have : sizeOf entry = 1 + sizeOf entry.1 + sizeOf entry.2 := rfl
  omega

end

/-- Induction over a sheet value, from the parts of its lists and maps to the whole. -/
@[elab_as_elim]
theorem Value.treeInduction {motive : Value → Prop}
    (list : ∀ items separator, (∀ item ∈ items, motive item) → motive (.list items separator))
    (map : ∀ entries, (∀ entry ∈ entries, motive entry.1 ∧ motive entry.2) →
      motive (.map entries))
    (leaf : ∀ value, value.isComposite = false → motive value) : ∀ value, motive value
  | .list items separator =>
    list items separator fun item h =>
      have := List.sizeOf_lt_of_mem h
      Value.treeInduction list map leaf item
  | .map entries =>
    map entries fun entry h =>
      have := sizeOf_key_lt h
      have := sizeOf_value_lt h
      ⟨Value.treeInduction list map leaf entry.1, Value.treeInduction list map leaf entry.2⟩
  | .null => leaf .null rfl
  | .bool b => leaf (.bool b) rfl
  | .number n => leaf (.number n) rfl
  | .string text quoted => leaf (.string text quoted) rfl
  | .color c => leaf (.color c) rfl
  | .error message => leaf (.error message) rfl
  | .warning message => leaf (.warning message) rfl

def HostValue.isLeaf : HostValue → Bool
  | .sequence _ | .map _ => false
  | _ => true

/-- Induction over a host value, from the parts of its sequences and maps to the whole. -/
@[elab_as_elim]
theorem HostValue.treeInduction {motive : HostValue → Prop}
    (sequence : ∀ items, (∀ item ∈ items, motive item) → motive (.sequence items))
    (map : ∀ entries, (∀ entry ∈ entries, motive entry.1 ∧ motive entry.2) →
      motive (.map entries))
    (leaf : ∀ value, value.isLeaf = true → motive value) : ∀ value, motive value
  | .sequence items =>
    sequence items fun item h =>
      have := List.sizeOf_lt_of_mem h
      HostValue.treeInduction sequence map leaf item
  | .map entries =>
    map entries fun entry h =>
      have := sizeOf_key_lt h
      have := sizeOf_value_lt h
      ⟨HostValue.treeInduction sequence map leaf entry.1,
        HostValue.treeInduction sequence map leaf entry.2⟩
  | .null => leaf .null rfl
  | .bool b => leaf (.bool b) rfl
  | .number n => leaf (.number n) rfl
  | .string text => leaf (.string text) rfl
  | .color c => leaf (.color c) rfl
  | .function identity => leaf (.function identity) rfl
  | .foreign name => leaf (.foreign name) rfl

-- ---------------------------------------------------------------------------
-- Leaves
-- ---------------------------------------------------------------------------

mutual

/-- What is neither a list nor a map, from left to right; a key comes before its value. -/
def Value.leaves : Value → List Value
  | .list items _ => Value.itemsLeaves items
  | .map entries => Value.entriesLeaves entries
  | leaf => [leaf]

def Value.itemsLeaves : List Value → List Value
  | [] => []
  | item :: items => item.leaves ++ Value.itemsLeaves items

def Value.entriesLeaves : List (Value × Value) → List Value
  | [] => []
  | (key, value) :: entries => key.leaves ++ value.leaves ++ Value.entriesLeaves entries

end

theorem Value.itemsLeaves_eq (items : List Value) :
    Value.itemsLeaves items = items.flatMap Value.leaves := by
  induction items with
  | nil => rfl
  | cons item items ih => rw [Value.itemsLeaves, ih, List.flatMap_cons]

theorem Value.entriesLeaves_eq (entries : List (Value × Value)) :
    Value.entriesLeaves entries =
      entries.flatMap fun entry => entry.1.leaves ++ entry.2.leaves := by
  induction entries with
  | nil => rfl
  | cons entry entries ih => rw [Value.entriesLeaves, ih, List.flatMap_cons]

@[simp] theorem Value.leaves_list (items : List Value) (separator : Separator) :
    (Value.list items separator).leaves = items.flatMap Value.leaves := by
  rw [Value.leaves, Value.itemsLeaves_eq]

@[simp] theorem Value.leaves_map (entries : List (Value × Value)) :
    (Value.map entries).leaves = entries.flatMap fun entry => entry.1.leaves ++ entry.2.leaves := by
  rw [Value.leaves, Value.entriesLeaves_eq]

theorem Value.forall_leaves_list {P : Value → Prop} {items : List Value} {separator : Separator} :
    (∀ leaf ∈ (Value.list items separator).leaves, P leaf) ↔
      ∀ item ∈ items, ∀ leaf ∈ item.leaves, P leaf := by
  rw [Value.leaves_list, List.forall_mem_flatMap]

theorem Value.forall_leaves_map {P : Value → Prop} {entries : List (Value × Value)} :
    (∀ leaf ∈ (Value.map entries).leaves, P leaf) ↔ ∀ entry ∈ entries,
      (∀ leaf ∈ entry.1.leaves, P leaf) ∧ ∀ leaf ∈ entry.2.leaves, P leaf := by
  rw [Value.leaves_map, List.forall_mem_flatMap]
  simp only [List.forall_mem_append]

mutual

def HostValue.leaves : HostValue → List HostValue
  | .sequence items => HostValue.itemsLeaves items
  | .map entries => HostValue.entriesLeaves entries
  | leaf => [leaf]

def HostValue.itemsLeaves : List HostValue → List HostValue
  | [] => []
  | item :: items => item.leaves ++ HostValue.itemsLeaves items

def HostValue.entriesLeaves : List (HostValue × HostValue) → List HostValue
  | [] => []
  | (key, value) :: entries =>
    key.leaves ++ value.leaves ++ HostValue.entriesLeaves entries

end

theorem HostValue.itemsLeaves_eq (items : List HostValue) :
    HostValue.itemsLeaves items = items.flatMap HostValue.leaves := by
  induction items with
  | nil => rfl
  | cons item items ih => rw [HostValue.itemsLeaves, ih, List.flatMap_cons]

theorem HostValue.entriesLeaves_eq (entries : List (HostValue × HostValue)) :
    HostValue.entriesLeaves entries =
      entries.flatMap fun entry => entry.1.leaves ++ entry.2.leaves := by
  induction entries with
  | nil => rfl
  | cons entry entries ih => rw [HostValue.entriesLeaves, ih, List.flatMap_cons]

@[simp] theorem HostValue.leaves_sequence (items : List HostValue) :
    (HostValue.sequence items).leaves = items.flatMap HostValue.leaves := by
  rw [HostValue.leaves, HostValue.itemsLeaves_eq]

@[simp] theorem HostValue.leaves_map (entries : List (HostValue × HostValue)) :
    (HostValue.map entries).leaves =
      entries.flatMap fun entry => entry.1.leaves ++ entry.2.leaves := by
  rw [HostValue.leaves, HostValue.entriesLeaves_eq]

theorem HostValue.forall_leaves_sequence {P : HostValue → Prop} {items : List HostValue} :
    (∀ leaf ∈ (HostValue.sequence items).leaves, P leaf) ↔
      ∀ item ∈ items, ∀ leaf ∈ item.leaves, P leaf := by
  rw [HostValue.leaves_sequence, List.forall_mem_flatMap]

theorem HostValue.forall_leaves_map {P : HostValue → Prop}
    {entries : List (HostValue × HostValue)} :
    (∀ leaf ∈ (HostValue.map entries).leaves, P leaf) ↔ ∀ entry ∈ entries,
      (∀ leaf ∈ entry.1.leaves, P leaf) ∧ ∀ leaf ∈ entry.2.leaves, P leaf := by
  rw [HostValue.leaves_map, List.forall_mem_flatMap]
  simp only [List.forall_mem_append]

-- ---------------------------------------------------------------------------
-- What may cross
-- ---------------------------------------------------------------------------

def Value.isReport : Value → Bool
  | .error _ | .warning _ => true
  | _ => false

/-- No error and no warning is anywhere in it. -/
def Value.Passable (value : Value) : Prop :=
  ∀ leaf ∈ value.leaves, leaf.isReport = false

@[simp] theorem Value.passable_list {items : List Value} {separator : Separator} :
    (Value.list items separator).Passable ↔ ∀ item ∈ items, item.Passable :=
  Value.forall_leaves_list

@[simp] theorem Value.passable_map {entries : List (Value × Value)} :
    (Value.map entries).Passable ↔ ∀ entry ∈ entries, entry.1.Passable ∧ entry.2.Passable :=
  Value.forall_leaves_map

def HostValue.isHostOnly : HostValue → Bool
  | .function _ | .foreign _ => true
  | _ => false

/-- No function and no foreign value is anywhere in it. -/
def HostValue.Passable (value : HostValue) : Prop :=
  ∀ leaf ∈ value.leaves, leaf.isHostOnly = false

@[simp] theorem HostValue.passable_sequence {items : List HostValue} :
    (HostValue.sequence items).Passable ↔ ∀ item ∈ items, item.Passable :=
  HostValue.forall_leaves_sequence

@[simp] theorem HostValue.passable_map {entries : List (HostValue × HostValue)} :
    (HostValue.map entries).Passable ↔ ∀ entry ∈ entries, entry.1.Passable ∧ entry.2.Passable :=
  HostValue.forall_leaves_map

-- ---------------------------------------------------------------------------
-- Levels
-- ---------------------------------------------------------------------------

mutual

def Value.depth : Value → Nat
  | .list items _ => Value.itemsDepth items
  | .map entries => Value.entriesDepth entries
  | _ => 0

def Value.itemsDepth : List Value → Nat
  | [] => 0
  | item :: items => max (item.depth + 1) (Value.itemsDepth items)

def Value.entriesDepth : List (Value × Value) → Nat
  | [] => 0
  | (key, value) :: entries =>
    max (max (key.depth + 1) (value.depth + 1)) (Value.entriesDepth entries)

end

mutual

def HostValue.depth : HostValue → Nat
  | .sequence items => HostValue.itemsDepth items
  | .map entries => HostValue.entriesDepth entries
  | _ => 0

def HostValue.itemsDepth : List HostValue → Nat
  | [] => 0
  | item :: items => max (item.depth + 1) (HostValue.itemsDepth items)

def HostValue.entriesDepth : List (HostValue × HostValue) → Nat
  | [] => 0
  | (key, value) :: entries =>
    max (max (key.depth + 1) (value.depth + 1)) (HostValue.entriesDepth entries)

end

section
variable {limit : Nat}

theorem Value.itemsDepth_le {items : List Value} :
    Value.itemsDepth items ≤ limit ↔ ∀ item ∈ items, item.depth < limit := by
  induction items with
  | nil => simp [Value.itemsDepth]
  | cons item items ih =>
    rw [Value.itemsDepth, Nat.max_le, Nat.succ_le_iff, List.forall_mem_cons, ih]

theorem Value.entriesDepth_le {entries : List (Value × Value)} :
    Value.entriesDepth entries ≤ limit ↔
      ∀ entry ∈ entries, entry.1.depth < limit ∧ entry.2.depth < limit := by
  induction entries with
  | nil => simp [Value.entriesDepth]
  | cons entry entries ih =>
    rw [Value.entriesDepth, Nat.max_le, Nat.max_le, Nat.succ_le_iff, Nat.succ_le_iff,
      List.forall_mem_cons, ih]

end

section
variable {above limit : Nat}

theorem HostValue.itemsDepth_le {items : List HostValue} :
    above + HostValue.itemsDepth items ≤ limit ↔
      above ≤ limit ∧ ∀ item ∈ items, above + 1 + item.depth ≤ limit := by
  induction items with
  | nil => simp [HostValue.itemsDepth]
  | cons item items ih =>
    simp only [HostValue.itemsDepth, List.forall_mem_cons]
    rw [and_left_comm, ← ih]
    omega

theorem HostValue.entriesDepth_le {entries : List (HostValue × HostValue)} :
    above + HostValue.entriesDepth entries ≤ limit ↔
      above ≤ limit ∧ ∀ entry ∈ entries,
        above + 1 + entry.1.depth ≤ limit ∧ above + 1 + entry.2.depth ≤ limit := by
  induction entries with
  | nil => simp [HostValue.entriesDepth]
  | cons entry entries ih =>
    simp only [HostValue.entriesDepth, List.forall_mem_cons]
    rw [and_left_comm, ← ih]
    omega

end

end HostSheet
