import HostSheet.Proofs.Sheet.Everywhere
import HostSheet.Proofs.Sheet.Levels

/-!
# How deep a sheet nests

Rules, groups and calls share one count of levels, which a sheet that is read keeps to. Lists and
maps are not counted themselves: each level of a group adds two of them at most, the list or map
that the group is and the space list of an item. A value adds two more at its top, a comma list and
the space lists in it.
-/

namespace HostSheet

open Grammar

-- ---------------------------------------------------------------------------
-- Expressions
-- ---------------------------------------------------------------------------

namespace Expr

variable {p q : Type}

section
variable (composite called : Nat)

mutual

/-- The most that parts of an expression weigh which lie in each other, where a list or a map has
one weight and a call another. -/
def weight : Expr p → Nat
  | .literal _ => 0
  | .list items _ => composite + itemsWeight items
  | .map entries => composite + entriesWeight entries
  | .call _ args _ => called + itemsWeight args

def itemsWeight : List (Expr p) → Nat
  | [] => 0
  | item :: items => max item.weight (itemsWeight items)

def entriesWeight : List (Expr p × Expr p) → Nat
  | [] => 0
  | (key, value) :: entries => max (max key.weight value.weight) (entriesWeight entries)

end

end

/-- How many lists, maps and calls lie in each other. -/
def nesting (e : Expr p) : Nat :=
  e.weight 1 1

def callNesting (e : Expr p) : Nat :=
  e.weight 0 1

section
variable {composite called n : Nat}

theorem itemsWeight_le {items : List (Expr p)} :
    itemsWeight composite called items ≤ n ↔ ∀ item ∈ items, item.weight composite called ≤ n := by
  induction items with
  | nil => simp [itemsWeight]
  | cons item items ih => rw [itemsWeight, Nat.max_le, List.forall_mem_cons, ih]

theorem entriesWeight_le {entries : List (Expr p × Expr p)} :
    entriesWeight composite called entries ≤ n ↔
      ∀ entry ∈ entries,
        entry.1.weight composite called ≤ n ∧ entry.2.weight composite called ≤ n := by
  induction entries with
  | nil => simp [entriesWeight]
  | cons entry entries ih =>
    rw [entriesWeight, Nat.max_le, Nat.max_le, List.forall_mem_cons, ih]

theorem weight_list {items : List (Expr p)} {separator : Separator}
    (h : ∀ item ∈ items, item.weight composite called ≤ n) :
    (list items separator).weight composite called ≤ composite + n :=
  Nat.add_le_add_left (itemsWeight_le.2 h) composite

theorem weight_map {entries : List (Expr p × Expr p)}
    (h : ∀ entry ∈ entries,
      entry.1.weight composite called ≤ n ∧ entry.2.weight composite called ≤ n) :
    (map entries).weight composite called ≤ composite + n :=
  Nat.add_le_add_left (entriesWeight_le.2 h) composite

theorem weight_call {name : String} {args : List (Expr p)} {place : p}
    (h : ∀ arg ∈ args, arg.weight composite called ≤ n) :
    (call name args place).weight composite called ≤ called + n :=
  Nat.add_le_add_left (itemsWeight_le.2 h) called

theorem weight_collapse {items : List (Expr p)} {separator : Separator}
    (h : ∀ item ∈ items, item.weight composite called ≤ n) :
    (collapse items separator).weight composite called ≤ composite + n := by
  unfold collapse
  split
  · exact Nat.le_add_left_of_le (h _ (List.mem_singleton_self _))
  · exact weight_list h

-- ---------------------------------------------------------------------------
-- Places
-- ---------------------------------------------------------------------------

theorem itemsWeight_mapPlaces (f : p → q) {items : List (Expr p)}
    (h : ∀ item ∈ items,
      (item.mapPlaces f).weight composite called = item.weight composite called) :
    itemsWeight composite called (mapPlacesItems f items) = itemsWeight composite called items := by
  induction items with
  | nil => rfl
  | cons item items ih =>
    rw [List.forall_mem_cons] at h
    rw [mapPlacesItems, itemsWeight, itemsWeight, h.1, ih h.2]

theorem entriesWeight_mapPlaces (f : p → q) {entries : List (Expr p × Expr p)}
    (h : ∀ entry ∈ entries,
      (entry.1.mapPlaces f).weight composite called = entry.1.weight composite called ∧
        (entry.2.mapPlaces f).weight composite called = entry.2.weight composite called) :
    entriesWeight composite called (mapPlacesEntries f entries) =
      entriesWeight composite called entries := by
  induction entries with
  | nil => rfl
  | cons entry entries ih =>
    rw [List.forall_mem_cons] at h
    rw [mapPlacesEntries, entriesWeight, entriesWeight, h.1.1, h.1.2, ih h.2]

theorem weight_mapPlaces (f : p → q) (e : Expr p) :
    (e.mapPlaces f).weight composite called = e.weight composite called := by
  induction e using treeInduction with
  | literal value => rfl
  | list items separator ih => exact congrArg (composite + ·) (itemsWeight_mapPlaces f ih)
  | map entries ih => exact congrArg (composite + ·) (entriesWeight_mapPlaces f ih)
  | call name args place ih => exact congrArg (called + ·) (itemsWeight_mapPlaces f ih)

end

-- ---------------------------------------------------------------------------
-- Parts
-- ---------------------------------------------------------------------------

theorem nesting_lt_list {items : List (Expr p)} {separator : Separator} :
    ∀ item ∈ items, item.nesting < (list items separator).nesting := by
  intro item hitem
  have hle : item.nesting ≤ itemsWeight 1 1 items := itemsWeight_le.1 (Nat.le_refl _) item hitem
  exact Nat.lt_one_add_iff.2 hle

theorem nesting_lt_map {entries : List (Expr p × Expr p)} :
    ∀ entry ∈ entries, entry.1.nesting < (map entries).nesting ∧
      entry.2.nesting < (map entries).nesting := by
  intro entry hentry
  have hle : entry.1.nesting ≤ entriesWeight 1 1 entries ∧
      entry.2.nesting ≤ entriesWeight 1 1 entries :=
    entriesWeight_le.1 (Nat.le_refl _) entry hentry
  exact ⟨Nat.lt_one_add_iff.2 hle.1, Nat.lt_one_add_iff.2 hle.2⟩

theorem nesting_lt_call {name : String} {args : List (Expr p)} {place : p} :
    ∀ arg ∈ args, arg.nesting < (call name args place).nesting := by
  intro arg harg
  have hle : arg.nesting ≤ itemsWeight 1 1 args := itemsWeight_le.1 (Nat.le_refl _) arg harg
  exact Nat.lt_one_add_iff.2 hle

end Expr

-- ---------------------------------------------------------------------------
-- Values
-- ---------------------------------------------------------------------------

section
variable {composite called n : Nat}

theorem weight_commaExpr {first : RawExpr} {items : Option (List RawExpr)}
    (hfirst : first.weight composite called ≤ n)
    (h : ∀ item ∈ items.getD [], item.weight composite called ≤ n) :
    (commaExpr first items).weight composite called ≤ composite + n := by
  cases items with
  | none => exact Nat.le_add_left_of_le hfirst
  | some items => exact Expr.weight_list (List.forall_mem_cons.2 ⟨hfirst, h⟩)

namespace Grammar

section
variable {Item : Form RawExpr} (hItem : ∀ s e rest, Item s e rest → e.weight composite called ≤ n)
  {s rest : List Char} {e : RawExpr}
include hItem

theorem SpaceList.weight (h : SpaceList Item s e rest) :
    e.weight composite called ≤ composite + n := by
  obtain ⟨-, hfirst, hmore⟩ := h
  exact Expr.weight_collapse (List.forall_mem_cons.2 ⟨hItem _ _ _ hfirst, hmore.forall_mem hItem⟩)

theorem GroupRest.weight {first : RawExpr} (hfirst : first.weight composite called ≤ n)
    (h : GroupRest Item first s e rest) : e.weight composite called ≤ composite + n := by
  cases h with
  | map _ hvalue hmore =>
    obtain ⟨-, -, hvalue⟩ := hvalue
    exact Expr.weight_map
      (List.forall_mem_cons.2 ⟨⟨hfirst, hItem _ _ _ hvalue⟩, hmore.forall_mem hItem⟩)
  | list _ _ hmore => exact weight_commaExpr hfirst (hmore.forall_mem hItem)

theorem Group.weight (h : Group Item s e rest) : e.weight composite called ≤ composite + n := by
  cases h with
  | empty => exact Nat.zero_le _
  | full _ _ hfirst hinside => exact hinside.weight hItem (hItem _ _ _ hfirst)

theorem CommaList.weight (h : CommaList Item s e rest) :
    e.weight composite called ≤ composite + (composite + n) := by
  obtain ⟨hfirst, hmore⟩ := h
  have hlist : ∀ s e rest, SpaceList Item s e rest → e.weight composite called ≤ composite + n :=
    fun _ _ _ h => SpaceList.weight hItem h
  exact weight_commaExpr (hlist _ _ _ hfirst) (hmore.forall_mem hlist)

end

theorem PrimaryOf.weight {Grp : Form RawExpr} {Args : Form (List RawExpr)}
    (hGrp : ∀ s e rest, Grp s e rest → e.weight composite called ≤ n)
    (hArgs : ∀ s es rest, Args s es rest →
      ∀ name place, (Expr.call name es place).weight composite called ≤ n)
    {s rest : List Char} {e : RawExpr} (h : PrimaryOf Grp Args s e rest) :
    e.weight composite called ≤ n := by
  cases h with
  | group h => exact hGrp _ _ _ h
  | color h => exact Nat.zero_le n
  | quoted _ h => exact Nat.zero_le n
  | number _ h => exact Nat.zero_le n
  | name _ _ h =>
    cases h with
    | name => exact Nat.zero_le n
    | call _ _ hargs => exact hArgs _ _ _ hargs _ _

/-- A level adds a group or a call, and the space lists in it. -/
theorem Primary.weight {levels : Nat} {s rest : List Char} {e : RawExpr}
    (h : Primary levels s e rest) :
    e.weight composite called ≤ levels * (max composite called + composite) := by
  induction levels generalizing s e rest with
  | zero => exact PrimaryOf.weight (fun _ _ _ => False.elim) (fun _ _ _ => False.elim) h
  | succ levels ih =>
    have hitem : ∀ s e rest, SpaceList (Primary levels) s e rest →
        e.weight composite called ≤ composite + levels * (max composite called + composite) :=
      fun _ _ _ h => SpaceList.weight (fun _ _ _ => ih) h
    have hmax : ∀ {k}, k ≤ max composite called →
        k + (composite + levels * (max composite called + composite)) ≤
          (levels + 1) * (max composite called + composite) := by
      intro k hk
      rw [Nat.succ_mul]
      omega
    refine PrimaryOf.weight (fun _ _ _ h => ?_) ?_ h
    · exact Nat.le_trans (Group.weight hitem h) (hmax (Nat.le_max_left _ _))
    · rintro _ _ _ ⟨hargs⟩ name place
      exact Nat.le_trans (Expr.weight_call (hargs.forall_mem hitem)) (hmax (Nat.le_max_right _ _))

end Grammar

end

namespace Grammar

variable {levels : Nat} {s rest : List Char} {e : RawExpr}

theorem CommaList.nesting_le (h : CommaList (Primary levels) s e rest) :
    e.nesting ≤ 2 * levels + 2 := by
  have hweight : e.weight 1 1 ≤ 1 + (1 + levels * 2) :=
    CommaList.weight (fun _ _ _ => Primary.weight) h
  rw [Expr.nesting]
  omega

theorem CommaList.callNesting_le (h : CommaList (Primary levels) s e rest) :
    e.callNesting ≤ levels := by
  have hweight : e.weight 0 1 ≤ 0 + (0 + levels * 1) :=
    CommaList.weight (fun _ _ _ => Primary.weight) h
  rw [Expr.callNesting]
  omega

end Grammar

-- ---------------------------------------------------------------------------
-- Rules
-- ---------------------------------------------------------------------------

inductive Rule.Encloses {p : Type} : Nat → Rule p → Rule p → Prop
  | self (rule : Rule p) : Encloses 0 rule rule
  | nested {n : Nat} {rule r inner : Rule p} : Item.rule r ∈ rule.items → Encloses n r inner →
      Encloses (n + 1) rule inner

theorem Rule.Each.of_encloses {p : Type} {P : Rule p → Prop} {rule : Rule p}
    (h : ∀ n inner, rule.Encloses n inner → P inner) : rule.Each P := by
  induction rule using Rule.treeInduction with
  | mk selectors items place ih =>
    exact .mk (h 0 _ (.self _)) fun r hr => ih r hr fun n inner hinner =>
      h (n + 1) inner (.nested hr hinner)

theorem Grammar.Ruled.encloses {levels : Nat} {s rest : List Char} {rule : RawRule}
    {ts : List Token} (h : Ruled levels s rule ts rest) {n : Nat} {inner : RawRule}
    (hinner : rule.Encloses n inner) :
    n ≤ levels ∧ ∃ s ts rest, Ruled (levels - n) s inner ts rest := by
  induction hinner generalizing levels s ts rest with
  | self => exact ⟨Nat.zero_le _, _, _, _, h⟩
  | nested hr _ ih =>
    cases levels with
    | zero =>
      obtain ⟨-, -, hitems⟩ := h
      obtain ⟨_, _, _, hrule⟩ := hitems.rule_of_mem hr
      exact hrule.elim
    | succ levels =>
      obtain ⟨-, -, hitems⟩ := h
      obtain ⟨_, _, _, hrule⟩ := hitems.rule_of_mem hr
      obtain ⟨hle, hinner⟩ := ih hrule
      exact ⟨Nat.succ_le_succ hle, Nat.succ_sub_succ levels _ ▸ hinner⟩

theorem Grammar.Ruled.declared {levels : Nat} {s rest : List Char} {rule : RawRule}
    {ts : List Token} (h : Ruled levels s rule ts rest) {d : Declaration (List Char)}
    (hd : Item.declaration d ∈ rule.items) :
    ∃ s rest, CommaList (Primary levels) s d.value rest := by
  cases levels <;>
  · obtain ⟨-, -, hitems⟩ := h
    obtain ⟨_, _, _, -, ⟨-, -, -, hvalue, -⟩⟩ := hitems.declaration_of_mem hd
    exact ⟨_, _, hvalue⟩

theorem Rule.Encloses.of_mapPlaces {p q : Type} {f : p → q} {n : Nat} {rule : Rule p}
    {inner : Rule q} (h : (rule.mapPlaces f).Encloses n inner) :
    ∃ old, rule.Encloses n old ∧ old.mapPlaces f = inner := by
  generalize hrule : rule.mapPlaces f = mapped at h
  induction h generalizing rule with
  | self => exact ⟨rule, .self rule, hrule⟩
  | nested hr _ ih =>
    subst hrule
    obtain ⟨item, hitem, heq⟩ := Rule.mem_items_mapPlaces.1 hr
    cases item with
    | declaration d => cases heq
    | rule r =>
      obtain ⟨old, hold, rfl⟩ := ih (Item.rule.inj heq)
      exact ⟨old, .nested hitem hold, rfl⟩

theorem Grammar.Rules.ruled {s : List Char} {rules : List RawRule} {ts : List Token}
    (h : Rules s rules ts) : ∀ r ∈ rules, ∃ s ts rest, Ruled maxNesting s r ts rest := by
  induction h with
  | nil => simp
  | cons _ _ hrule _ ih => exact List.forall_mem_cons.2 ⟨⟨_, _, _, hrule⟩, ih⟩

/-- Rules, groups and calls together nest as deep as the limit, and what is left of it for a value
bounds the lists, maps and calls in the value. -/
theorem Sheet.nesting_of_parse {source : String} {sheet : Sheet Location}
    (h : Sheet.parse source = .ok sheet) {rule : Rule Location} (hrule : rule ∈ sheet) {n : Nat}
    {inner : Rule Location} (hinner : rule.Encloses n inner) :
    n ≤ maxNesting ∧ ∀ d, Item.declaration d ∈ inner.items →
      d.value.callNesting ≤ maxNesting - n ∧ d.value.nesting ≤ 2 * (maxNesting - n) + 2 := by
  obtain ⟨rules, hrules, rfl⟩ := Sheet.parse_ok.1 h
  obtain ⟨ts, hts⟩ := readRules_ok.1 hrules
  obtain ⟨r, hr, rfl⟩ := List.mem_map.1 hrule
  obtain ⟨_, _, _, hruled⟩ := hts.ruled r hr
  obtain ⟨old, hold, rfl⟩ := hinner.of_mapPlaces
  obtain ⟨hle, _, _, _, hruled⟩ := hruled.encloses hold
  refine ⟨hle, fun d hd => ?_⟩
  obtain ⟨item, hitem, heq⟩ := Rule.mem_items_mapPlaces.1 hd
  cases item with
  | rule r => cases heq
  | declaration d' =>
    obtain rfl := Item.declaration.inj heq
    obtain ⟨_, _, hvalue⟩ := hruled.declared hitem
    simp only [Declaration.mapPlaces, Expr.nesting, Expr.callNesting, Expr.weight_mapPlaces]
    exact ⟨hvalue.callNesting_le, hvalue.nesting_le⟩

end HostSheet
