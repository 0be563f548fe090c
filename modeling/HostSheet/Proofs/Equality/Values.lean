import Mathlib
import HostSheet.HostValue.Equality
import HostSheet.Proofs.Conversion.Tree
import HostSheet.Proofs.Equality.Pairing

/-!
# Equality of values

Equality of sheet values and of host values is symmetric and transitive, and a value equals itself
exactly if no NaN is in it. Two maps are equal exactly if their entries can be paired one to one,
equal keys with equal values, so the order of entries plays no part and their number does.
-/

namespace HostSheet

-- ---------------------------------------------------------------------------
-- Scalars
-- ---------------------------------------------------------------------------

theorem Number.beq_iff {a b : Number} :
    (a == b) = true ↔ (a.magnitude == b.magnitude) = true ∧ a.unit = b.unit := by
  change (a.magnitude == b.magnitude && a.unit == b.unit) = true ↔ _
  simp

instance : PartialEquivBEq Number where
  symm h := by
    obtain ⟨hmagnitude, hunit⟩ := Number.beq_iff.1 h
    exact Number.beq_iff.2 ⟨BEq.symm hmagnitude, hunit.symm⟩
  trans h h' := by
    obtain ⟨hmagnitude, hunit⟩ := Number.beq_iff.1 h
    obtain ⟨hmagnitude', hunit'⟩ := Number.beq_iff.1 h'
    exact Number.beq_iff.2 ⟨BEq.trans hmagnitude hmagnitude', hunit.trans hunit'⟩

theorem Number.beq_self (n : Number) : (n == n) = !n.magnitude.isNaN := by
  rw [Bool.eq_iff_iff, Number.beq_iff]
  simp

theorem Color.beq_iff {a b : Color} :
    (a == b) = true ↔ a.red = b.red ∧ a.green = b.green ∧ a.blue = b.blue ∧
      (a.alpha == b.alpha) = true := by
  change (a.red == b.red && (a.green == b.green && (a.blue == b.blue && a.alpha == b.alpha))) =
    true ↔ _
  simp

instance : PartialEquivBEq Color where
  symm h := by
    obtain ⟨hred, hgreen, hblue, halpha⟩ := Color.beq_iff.1 h
    exact Color.beq_iff.2 ⟨hred.symm, hgreen.symm, hblue.symm, BEq.symm halpha⟩
  trans h h' := by
    obtain ⟨hred, hgreen, hblue, halpha⟩ := Color.beq_iff.1 h
    obtain ⟨hred', hgreen', hblue', halpha'⟩ := Color.beq_iff.1 h'
    exact Color.beq_iff.2 ⟨hred.trans hred', hgreen.trans hgreen', hblue.trans hblue',
      BEq.trans halpha halpha'⟩

theorem Color.beq_self (c : Color) : (c == c) = !c.alpha.isNaN := by
  rw [Bool.eq_iff_iff, Color.beq_iff]
  simp

-- ---------------------------------------------------------------------------
-- Entries
-- ---------------------------------------------------------------------------

def EntriesBEq {α : Type} [BEq α] (entry other : α × α) : Prop :=
  (entry.1 == other.1) = true ∧ (entry.2 == other.2) = true

section
variable {α : Type} [BEq α] [PartialEquivBEq α]

theorem beq_partialEquivAt (a : α) : PartialEquivAt (fun a b => a == b) a :=
  ⟨fun _ => BEq.comm, fun _ _ => BEq.trans⟩

theorem entryFits_beq (entry : α × α) : PartialEquivAt (entryFits (fun a b => a == b)) entry :=
  (beq_partialEquivAt entry.1).entry (beq_partialEquivAt entry.2)

theorem pairOff_beq_iff {entries others : List (α × α)} :
    pairOff (entryFits (fun a b => a == b)) entries others = true ↔
      Multiset.Rel EntriesBEq (entries : Multiset (α × α)) others := by
  rw [pairOff_iff fun entry _ => entryFits_beq entry]
  simp only [entryFits, Bool.and_eq_true]
  rfl

end

-- ---------------------------------------------------------------------------
-- Sheet values
-- ---------------------------------------------------------------------------

namespace Value

theorem equalItems_iff {items others : List Value} :
    equalItems items others = true ↔
      List.Forall₂ (fun a b => equal a b = true) items others := by
  induction items generalizing others with
  | nil =>
    cases others with
    | nil => exact iff_of_true rfl .nil
    | cons => exact ⟨nofun, nofun⟩
  | cons item items ih =>
    cases others with
    | nil => exact ⟨nofun, nofun⟩
    | cons other others =>
      change (equal item other && equalItems items others) = true ↔ _
      rw [Bool.and_eq_true, ih, List.forall₂_cons]

theorem equalEntries_eq (entries others : List (Value × Value)) :
    equalEntries entries others = pairOff (entryFits equal) entries others := by
  induction entries generalizing others with
  | nil => rfl
  | cons entry entries ih =>
    have test : (fun other => equal entry.1 other.1 && equal entry.2 other.2) =
        entryFits equal entry := rfl
    rw [equalEntries, pairOff, test]
    cases takeFirst? (entryFits equal entry) others with
    | none => rfl
    | some rest => exact ih rest

theorem equal_list {items others : List Value} {separator separator' : Separator} :
    equal (list items separator) (list others separator') =
      (separator == separator' && equalItems items others) :=
  rfl

theorem equal_map {entries others : List (Value × Value)} :
    equal (map entries) (map others) = pairOff (entryFits equal) entries others :=
  equalEntries_eq entries others

theorem equal_list_iff {items : List Value} {separator : Separator} {other : Value} :
    equal (list items separator) other = true ↔ ∃ others, other = list others separator ∧
      List.Forall₂ (fun a b => equal a b = true) items others := by
  cases other with
  | list others separator' =>
    rw [equal_list, Bool.and_eq_true, beq_iff_eq, equalItems_iff]
    constructor
    · rintro ⟨rfl, h⟩
      exact ⟨others, rfl, h⟩
    · rintro ⟨_, ⟨⟩, h⟩
      exact ⟨rfl, h⟩
  | _ => exact ⟨nofun, nofun⟩

theorem equal_map_iff {entries : List (Value × Value)} {other : Value} :
    equal (map entries) other = true ↔ ∃ others, other = map others ∧
      pairOff (entryFits equal) entries others = true := by
  cases other with
  | map others =>
    rw [equal_map]
    constructor
    · exact fun h => ⟨others, rfl, h⟩
    · rintro ⟨_, ⟨⟩, h⟩
      exact h
  | _ => exact ⟨nofun, nofun⟩

theorem eq_of_equal {value other : Value} (h : value.isComposite = false)
    (hnumber : ∀ n, value ≠ number n) (hcolor : ∀ c, value ≠ color c)
    (heq : equal value other = true) : value = other := by
  cases value with
  | list | map => cases h
  | number n => exact absurd rfl (hnumber n)
  | color c => exact absurd rfl (hcolor c)
  | null => cases other <;> first | rfl | cases heq
  | bool b =>
    cases other with
    | bool b' => rw [eq_of_beq (show (b == b') = true from heq)]
    | _ => cases heq
  | string text quoted =>
    cases other with
    | string text' quoted' =>
      have both : (text == text' && quoted == quoted') = true := heq
      rw [Bool.and_eq_true, beq_iff_eq, beq_iff_eq] at both
      rw [both.1, both.2]
    | _ => cases heq
  | error message =>
    cases other with
    | error message' => rw [eq_of_beq (show (message == message') = true from heq)]
    | _ => cases heq
  | warning message =>
    cases other with
    | warning message' => rw [eq_of_beq (show (message == message') = true from heq)]
    | _ => cases heq

theorem equal_number_iff {n : Number} {other : Value} :
    equal (number n) other = true ↔ ∃ m, other = number m ∧ (n == m) = true := by
  cases other with
  | number m =>
    constructor
    · exact fun h => ⟨m, rfl, h⟩
    · rintro ⟨_, ⟨⟩, h⟩
      exact h
  | _ => exact ⟨nofun, nofun⟩

theorem equal_color_iff {c : Color} {other : Value} :
    equal (color c) other = true ↔ ∃ d, other = color d ∧ (c == d) = true := by
  cases other with
  | color d =>
    constructor
    · exact fun h => ⟨d, rfl, h⟩
    · rintro ⟨_, ⟨⟩, h⟩
      exact h
  | _ => exact ⟨nofun, nofun⟩

theorem partialEquivAt (value : Value) : PartialEquivAt equal value := by
  -- A map needs both laws of its entries for each of its own, so they are proved together.
  induction value using Value.treeInduction with
  | list items separator ih =>
    refine ⟨fun b => ?_, fun b c hb hc => ?_⟩
    · cases b with
      | list others separator' =>
        rw [equal_list, equal_list, BEq.comm, Bool.eq_iff_iff, Bool.and_eq_true, Bool.and_eq_true,
          equalItems_iff, equalItems_iff, forall₂_comm ih]
      | _ => rfl
    · obtain ⟨others, rfl, hothers⟩ := equal_list_iff.1 hb
      obtain ⟨rest, rfl, hrest⟩ := equal_list_iff.1 hc
      exact equal_list_iff.2 ⟨rest, rfl, forall₂_trans ih hothers hrest⟩
  | map entries ih =>
    have fits : ∀ entry ∈ entries, PartialEquivAt (entryFits equal) entry :=
      fun entry he => (ih entry he).1.entry (ih entry he).2
    refine ⟨fun b => ?_, fun b c hb hc => ?_⟩
    · cases b with
      | map others => rw [equal_map, equal_map, pairOff_comm fits]
      | _ => rfl
    · obtain ⟨others, rfl, hothers⟩ := equal_map_iff.1 hb
      obtain ⟨rest, rfl, hrest⟩ := equal_map_iff.1 hc
      exact equal_map_iff.2 ⟨rest, rfl, pairOff_trans fits hothers hrest⟩
  | leaf value h =>
    refine ⟨fun b => ?_, fun b c hb hc => ?_⟩
    · cases value <;> cases b <;> simp [equal, isComposite, BEq.comm] at h ⊢
    · cases value with
      | list | map => cases h
      | number n =>
        obtain ⟨m, rfl, hm⟩ := equal_number_iff.1 hb
        obtain ⟨k, rfl, hk⟩ := equal_number_iff.1 hc
        exact equal_number_iff.2 ⟨k, rfl, BEq.trans hm hk⟩
      | color n =>
        obtain ⟨m, rfl, hm⟩ := equal_color_iff.1 hb
        obtain ⟨k, rfl, hk⟩ := equal_color_iff.1 hc
        exact equal_color_iff.2 ⟨k, rfl, BEq.trans hm hk⟩
      | _ => exact eq_of_equal h (by simp) (by simp) hb ▸ hc

instance : PartialEquivBEq Value where
  symm {a b} h := ((partialEquivAt a).comm b).symm.trans h
  trans {a b c} := (partialEquivAt a).trans b c

/-- The entries can be paired one to one, none being left over on either side. -/
theorem beq_map_iff {entries : List (Value × Value)} {other : Value} :
    (map entries == other) = true ↔ ∃ others, other = map others ∧
      Multiset.Rel EntriesBEq (entries : Multiset (Value × Value)) others := by
  simp only [← pairOff_beq_iff]
  exact equal_map_iff

def isNaN : Value → Bool
  | .number n => n.magnitude.isNaN
  | .color c => c.alpha.isNaN
  | _ => false

/-- No magnitude and no alpha anywhere in it is a NaN. -/
def NaNFree (value : Value) : Prop :=
  ∀ leaf ∈ value.leaves, leaf.isNaN = false

theorem beq_self_iff (value : Value) : (value == value) = true ↔ value.NaNFree := by
  change equal value value = true ↔ _
  induction value using Value.treeInduction with
  | list items separator ih =>
    rw [equal_list, Bool.and_eq_true, equalItems_iff, List.forall₂_same, NaNFree,
      forall_leaves_list, forall₂_congr ih]
    exact and_iff_right (beq_self_eq_true separator)
  | map entries ih =>
    rw [equal_map, NaNFree, forall_leaves_map,
      pairOff_self_iff (p := entryFits equal) fun entry _ => entryFits_beq entry]
    refine forall₂_congr fun entry he => ?_
    rw [entryFits, Bool.and_eq_true, (ih entry he).1, (ih entry he).2]
    rfl
  | leaf value h =>
    cases value <;>
      simp [isComposite, equal, NaNFree, leaves, isNaN, Number.beq_self, Color.beq_self] at h ⊢

end Value

-- ---------------------------------------------------------------------------
-- Host values
-- ---------------------------------------------------------------------------

namespace HostValue

theorem equalItems_iff {items others : List HostValue} :
    equalItems items others = true ↔
      List.Forall₂ (fun a b => equal a b = true) items others := by
  induction items generalizing others with
  | nil =>
    cases others with
    | nil => exact iff_of_true rfl .nil
    | cons => exact ⟨nofun, nofun⟩
  | cons item items ih =>
    cases others with
    | nil => exact ⟨nofun, nofun⟩
    | cons other others =>
      change (equal item other && equalItems items others) = true ↔ _
      rw [Bool.and_eq_true, ih, List.forall₂_cons]

theorem equalEntries_eq (entries others : List (HostValue × HostValue)) :
    equalEntries entries others = pairOff (entryFits equal) entries others := by
  induction entries generalizing others with
  | nil => rfl
  | cons entry entries ih =>
    have test : (fun other => equal entry.1 other.1 && equal entry.2 other.2) =
        entryFits equal entry := rfl
    rw [equalEntries, pairOff, test]
    cases takeFirst? (entryFits equal entry) others with
    | none => rfl
    | some rest => exact ih rest

theorem equal_sequence {items others : List HostValue} :
    equal (sequence items) (sequence others) = equalItems items others :=
  rfl

theorem equal_map {entries others : List (HostValue × HostValue)} :
    equal (map entries) (map others) = pairOff (entryFits equal) entries others :=
  equalEntries_eq entries others

theorem equal_sequence_iff {items : List HostValue} {other : HostValue} :
    equal (sequence items) other = true ↔ ∃ others, other = sequence others ∧
      List.Forall₂ (fun a b => equal a b = true) items others := by
  cases other with
  | sequence others =>
    rw [equal_sequence, equalItems_iff]
    constructor
    · exact fun h => ⟨others, rfl, h⟩
    · rintro ⟨_, ⟨⟩, h⟩
      exact h
  | _ => exact ⟨nofun, nofun⟩

theorem equal_map_iff {entries : List (HostValue × HostValue)} {other : HostValue} :
    equal (map entries) other = true ↔ ∃ others, other = map others ∧
      pairOff (entryFits equal) entries others = true := by
  cases other with
  | map others =>
    rw [equal_map]
    constructor
    · exact fun h => ⟨others, rfl, h⟩
    · rintro ⟨_, ⟨⟩, h⟩
      exact h
  | _ => exact ⟨nofun, nofun⟩

theorem eq_of_equal {value other : HostValue} (h : value.isLeaf = true)
    (hnumber : ∀ n, value ≠ number n) (heq : equal value other = true) : value = other := by
  cases value <;> cases other <;> simp_all [equal, isLeaf]

theorem equal_number_iff {n : Number} {other : HostValue} :
    equal (number n) other = true ↔ ∃ m, other = number m ∧ (n == m) = true := by
  cases other with
  | number m =>
    constructor
    · exact fun h => ⟨m, rfl, h⟩
    · rintro ⟨_, ⟨⟩, h⟩
      exact h
  | _ => exact ⟨nofun, nofun⟩

theorem partialEquivAt (value : HostValue) : PartialEquivAt equal value := by
  induction value using HostValue.treeInduction with
  | sequence items ih =>
    refine ⟨fun b => ?_, fun b c hb hc => ?_⟩
    · cases b with
      | sequence others =>
        rw [equal_sequence, equal_sequence, Bool.eq_iff_iff, equalItems_iff, equalItems_iff,
          forall₂_comm ih]
      | _ => rfl
    · obtain ⟨others, rfl, hothers⟩ := equal_sequence_iff.1 hb
      obtain ⟨rest, rfl, hrest⟩ := equal_sequence_iff.1 hc
      exact equal_sequence_iff.2 ⟨rest, rfl, forall₂_trans ih hothers hrest⟩
  | map entries ih =>
    have fits : ∀ entry ∈ entries, PartialEquivAt (entryFits equal) entry :=
      fun entry he => (ih entry he).1.entry (ih entry he).2
    refine ⟨fun b => ?_, fun b c hb hc => ?_⟩
    · cases b with
      | map others => rw [equal_map, equal_map, pairOff_comm fits]
      | _ => rfl
    · obtain ⟨others, rfl, hothers⟩ := equal_map_iff.1 hb
      obtain ⟨rest, rfl, hrest⟩ := equal_map_iff.1 hc
      exact equal_map_iff.2 ⟨rest, rfl, pairOff_trans fits hothers hrest⟩
  | leaf value h =>
    refine ⟨fun b => ?_, fun b c hb hc => ?_⟩
    · cases value <;> cases b <;> simp [equal, isLeaf, BEq.comm] at h ⊢
    · cases value with
      | sequence | map => cases h
      | number n =>
        obtain ⟨m, rfl, hm⟩ := equal_number_iff.1 hb
        obtain ⟨k, rfl, hk⟩ := equal_number_iff.1 hc
        exact equal_number_iff.2 ⟨k, rfl, BEq.trans hm hk⟩
      | _ => exact eq_of_equal h (by simp) hb ▸ hc

instance : PartialEquivBEq HostValue where
  symm {a b} h := ((partialEquivAt a).comm b).symm.trans h
  trans {a b c} := (partialEquivAt a).trans b c

/-- The entries can be paired one to one, none being left over on either side. -/
theorem beq_map_iff {entries : List (HostValue × HostValue)} {other : HostValue} :
    (map entries == other) = true ↔ ∃ others, other = map others ∧
      Multiset.Rel EntriesBEq (entries : Multiset (HostValue × HostValue)) others := by
  simp only [← pairOff_beq_iff]
  exact equal_map_iff

def isNaN : HostValue → Bool
  | .number n => n.magnitude.isNaN
  | _ => false

/-- No magnitude anywhere in it is a NaN. -/
def NaNFree (value : HostValue) : Prop :=
  ∀ leaf ∈ value.leaves, leaf.isNaN = false

theorem beq_self_iff (value : HostValue) : (value == value) = true ↔ value.NaNFree := by
  change equal value value = true ↔ _
  induction value using HostValue.treeInduction with
  | sequence items ih =>
    rw [equal_sequence, equalItems_iff, List.forall₂_same, NaNFree, forall_leaves_sequence,
      forall₂_congr ih]
    rfl
  | map entries ih =>
    rw [equal_map, NaNFree, forall_leaves_map,
      pairOff_self_iff (p := entryFits equal) fun entry _ => entryFits_beq entry]
    refine forall₂_congr fun entry he => ?_
    rw [entryFits, Bool.and_eq_true, (ih entry he).1, (ih entry he).2]
    rfl
  | leaf value h =>
    cases value <;> simp [isLeaf, equal, NaNFree, leaves, isNaN, Number.beq_self] at h ⊢

end HostValue

-- ---------------------------------------------------------------------------
-- Multisets of entries
-- ---------------------------------------------------------------------------

/-- Equality of trees whose maps are multisets of entries and whose doubles may be NaN. -/
structure MultisetEquality {α : Type} [BEq α] (map : List (α × α) → α) (NaNFree : α → Prop) :
    Prop where
  comm : ∀ a b : α, (a == b) = (b == a)
  trans : ∀ a b c : α, (a == b) = true → (b == c) = true → (a == c) = true
  self_iff : ∀ a : α, (a == a) = true ↔ NaNFree a
  /-- The entries can be paired one to one, none being left over on either side. -/
  map_iff : ∀ entries others : List (α × α),
    (map entries == map others) = true ↔
      Multiset.Rel EntriesBEq (entries : Multiset (α × α)) (others : Multiset (α × α))

/-- Both sheet values and host values, nested to any depth, are compared in this way. -/
theorem multisetEquality_values :
    MultisetEquality Value.map Value.NaNFree ∧
      MultisetEquality HostValue.map HostValue.NaNFree := by
  constructor
  · refine ⟨fun _ _ => BEq.comm, fun _ _ _ => BEq.trans, Value.beq_self_iff,
      fun entries others => ?_⟩
    rw [Value.beq_map_iff]
    simp
  · refine ⟨fun _ _ => BEq.comm, fun _ _ _ => BEq.trans, HostValue.beq_self_iff,
      fun entries others => ?_⟩
    rw [HostValue.beq_map_iff]
    simp

end HostSheet
