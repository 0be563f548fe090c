import HostSheet.Proofs.Conversion.Decoding

/-!
# Faithful decoding

What decoding gives has the structure its shape asks for, and it consists of the scalars of the
sheet value and nothing else: bare values taken as lists, lists of pairs taken as maps and rows
matched against shapes neither lose nor add nor move a scalar.
-/

namespace HostSheet

-- ---------------------------------------------------------------------------
-- Conformance
-- ---------------------------------------------------------------------------

/-- Induction over a shape, from its parts to the whole. -/
@[elab_as_elim]
theorem Shape.treeInduction {motive : Shape → Prop} (any : motive .any)
    (scalar : ∀ kind, motive (.scalar kind))
    (sequence : ∀ shapes, (∀ shape ∈ shapes, motive shape) → motive (.sequence shapes))
    (list : ∀ element, motive element → motive (.list element))
    (map : ∀ key value, motive key → motive value → motive (.map key value)) :
    ∀ shape, motive shape
  | .any => any
  | .scalar kind => scalar kind
  | .sequence shapes =>
    sequence shapes fun shape h =>
      have := List.sizeOf_lt_of_mem h
      Shape.treeInduction any scalar sequence list map shape
  | .list element => list element (Shape.treeInduction any scalar sequence list map element)
  | .map key value =>
    map key value (Shape.treeInduction any scalar sequence list map key)
      (Shape.treeInduction any scalar sequence list map value)

def ScalarKind.accepts : ScalarKind → HostValue → Bool
  | .null, .null => true
  | .bool, .bool _ => true
  | .number, .number _ => true
  | .string, .string _ => true
  | .color, .color _ => true
  | _, _ => false

mutual

def Conforms : Shape → HostValue → Prop
  | .any, value => value.Passable
  | .scalar kind, value => kind.accepts value = true
  | .sequence shapes, .sequence items => ConformsRow shapes items
  | .list element, .sequence items => ∀ item ∈ items, Conforms element item
  | .map key value, .map entries =>
    ∀ entry ∈ entries, Conforms key entry.1 ∧ Conforms value entry.2
  | _, _ => False

def ConformsRow : List Shape → List HostValue → Prop
  | [], [] => True
  | shape :: shapes, item :: items => Conforms shape item ∧ ConformsRow shapes items
  | _, _ => False

end

theorem conformsRow_iff {shapes : List Shape} {items : List HostValue} :
    ConformsRow shapes items ↔ List.Forall₂ Conforms shapes items := by
  induction shapes generalizing items with
  | nil => cases items <;> simp [ConformsRow]
  | cons shape shapes ih => cases items <;> simp [ConformsRow, ih]

-- ---------------------------------------------------------------------------
-- Leaves
-- ---------------------------------------------------------------------------

/-- The host's form of a scalar; lists, maps, errors and warnings are no scalars. -/
def Value.scalar? : Value → Option HostValue
  | .null => some .null
  | .bool b => some (.bool b)
  | .number n => some (.number n)
  | .string text _ => some (.string text)
  | .color c => some (.color c.toRgba)
  | _ => none

theorem decodeAny_leaf_ok {value : Value} {decoded : HostValue} (h : value.isComposite = false) :
    decodeAny value = .ok decoded ↔ value.scalar? = some decoded := by
  cases value <;> simp [Value.isComposite, decodeAny, Value.scalar?] at h ⊢

/-- The leaves of a sheet value, each turned into the host's form on its own, are the leaves of the
host value in the same order. -/
def SameLeaves (value : Value) (decoded : HostValue) : Prop :=
  value.leaves.map Value.scalar? = decoded.leaves.map some

theorem flatMap_eq_of_forall₂ {α β γ : Type} {f : α → List γ} {g : β → List γ} {as : List α}
    {bs : List β} (h : List.Forall₂ (fun a b => f a = g b) as bs) :
    as.flatMap f = bs.flatMap g := by
  induction h with
  | nil => rfl
  | cons head _ ih => rw [List.flatMap_cons, List.flatMap_cons, head, ih]

theorem sameLeaves_sequence {value : Value} {items : List Value} {values : List HostValue}
    (hv : value.leaves = items.flatMap Value.leaves) (h : List.Forall₂ SameLeaves items values) :
    SameLeaves value (.sequence values) := by
  rw [SameLeaves, hv, HostValue.leaves_sequence, List.map_flatMap, List.map_flatMap]
  exact flatMap_eq_of_forall₂ h

theorem sameLeaves_map {value : Value} {entries : List (Value × Value)}
    {values : List (HostValue × HostValue)}
    (hv : value.leaves = entries.flatMap fun entry => entry.1.leaves ++ entry.2.leaves)
    (h : List.Forall₂ (fun entry v => SameLeaves entry.1 v.1 ∧ SameLeaves entry.2 v.2)
      entries values) :
    SameLeaves value (.map values) := by
  rw [SameLeaves, hv, HostValue.leaves_map, List.map_flatMap, List.map_flatMap]
  refine flatMap_eq_of_forall₂ (h.imp fun entry v both => ?_)
  rw [List.map_append, List.map_append, both.1, both.2]

theorem sameLeaves_of_scalar {value : Value} {decoded : HostValue}
    (h : value.scalar? = some decoded) : SameLeaves value decoded := by
  cases value <;> simp [Value.scalar?] at h <;> subst h <;> rfl

section
variable {value : Value} {decoded : HostValue}

theorem SameLeaves.passable (h : SameLeaves value decoded) : value.Passable := by
  intro leaf hl
  have : leaf.scalar? ∈ decoded.leaves.map some := h ▸ List.mem_map_of_mem hl
  obtain ⟨_, -, hs⟩ := List.mem_map.1 this
  cases leaf <;> simp [Value.scalar?] at hs <;> rfl

theorem SameLeaves.decoded_passable (h : SameLeaves value decoded) : decoded.Passable := by
  intro leaf hl
  have : some leaf ∈ value.leaves.map Value.scalar? := by
    rw [show value.leaves.map Value.scalar? = _ from h]
    exact List.mem_map_of_mem hl
  obtain ⟨scalar, -, hs⟩ := List.mem_map.1 this
  cases scalar <;> simp [Value.scalar?] at hs <;> subst hs <;> rfl

end

-- ---------------------------------------------------------------------------
-- What each step keeps
-- ---------------------------------------------------------------------------

theorem sameLeaves_decodeAny {value : Value} {decoded : HostValue}
    (h : decodeAny value = .ok decoded) : SameLeaves value decoded := by
  induction value using Value.treeInduction generalizing decoded with
  | list items separator ih =>
    obtain ⟨values, hv, rfl⟩ := decodeAny_list_ok.1 h
    refine sameLeaves_sequence (Value.leaves_list items separator) ?_
    exact forall₂_of_forall_mem (fun item hi _ => ih item hi) hv
  | map entries ih =>
    obtain ⟨values, hv, rfl⟩ := decodeAny_map_ok.1 h
    refine sameLeaves_map (Value.leaves_map entries) (forall₂_of_forall_mem ?_ hv)
    rintro entry he _ ⟨hkey, hvalue⟩
    exact ⟨(ih entry he).1 hkey, (ih entry he).2 hvalue⟩
  | leaf value hleaf => exact sameLeaves_of_scalar ((decodeAny_leaf_ok hleaf).1 h)

theorem decodeScalar_ok {kind : ScalarKind} {value : Value} {decoded : HostValue} :
    decodeScalar kind value = .ok decoded ↔
      value.scalar? = some decoded ∧ kind.accepts decoded = true := by
  cases kind <;> cases value <;> simp [decodeScalar, Value.scalar?] <;>
    (try rintro rfl) <;> rfl

theorem leaves_listItems (value : Value) :
    value.leaves = (listItems value).flatMap Value.leaves := by
  unfold listItems
  split
  · exact Value.leaves_list _ _
  · simp

theorem leaves_entryOf {value : Value} {entry : Value × Value} (h : entryOf value = .ok entry) :
    value.leaves = entry.1.leaves ++ entry.2.leaves := by
  obtain ⟨separator, rfl⟩ := entryOf_ok.1 h
  simp

theorem leaves_mapEntries {value : Value} {entries : List (Value × Value)}
    (h : mapEntries value = .ok entries) :
    value.leaves = entries.flatMap fun entry => entry.1.leaves ++ entry.2.leaves := by
  unfold mapEntries at h
  split at h
  · cases h
    exact Value.leaves_map entries
  · rw [Value.leaves_list]
    exact flatMap_eq_of_forall₂ ((mapM_ok.1 h).imp fun _ _ => leaves_entryOf)
  · cases h

theorem sameLeaves_decode {shape : Shape} {value : Value} {decoded : HostValue}
    (h : decode shape value = .ok decoded) : SameLeaves value decoded := by
  induction shape using Shape.treeInduction generalizing value decoded with
  | any => exact sameLeaves_decodeAny h
  | scalar kind => exact sameLeaves_of_scalar (decodeScalar_ok.1 h).1
  | sequence shapes ih =>
    obtain ⟨items, hitems, hlength, values, hv, rfl⟩ := decode_sequence_ok.1 h
    have pairs : List.Forall₂ (fun p v => SameLeaves p.2 v) (shapes.zip items) values :=
      forall₂_of_forall_mem (fun p hp _ => ih p.1 (List.of_mem_zip hp).1) hv
    -- Both lists have the same length, so that the row drops no item.
    have row : (shapes.zip items).map Prod.snd = items := List.map_snd_zip (Nat.le_of_eq hlength)
    obtain ⟨-, rfl⟩ := rowItems_ok.1 hitems
    refine sameLeaves_sequence (leaves_listItems value) ?_
    rwa [← row, List.forall₂_map_left_iff]
  | list element ih =>
    obtain ⟨values, hv, rfl⟩ := decode_list_ok.1 h
    exact sameLeaves_sequence (leaves_listItems value) (hv.imp fun _ _ => ih)
  | map key val ihkey ihval =>
    obtain ⟨entries, he, values, hv, rfl⟩ := decode_map_ok.1 h
    refine sameLeaves_map (leaves_mapEntries he) (hv.imp ?_)
    exact fun _ _ both => ⟨ihkey both.1, ihval both.2⟩

theorem conforms_decode {shape : Shape} {value : Value} {decoded : HostValue}
    (h : decode shape value = .ok decoded) : Conforms shape decoded := by
  induction shape using Shape.treeInduction generalizing value decoded with
  | any => exact (sameLeaves_decodeAny h).decoded_passable
  | scalar kind => exact (decodeScalar_ok.1 h).2
  | sequence shapes ih =>
    obtain ⟨items, -, hlength, values, hv, rfl⟩ := decode_sequence_ok.1 h
    have pairs : List.Forall₂ (fun p v => Conforms p.1 v) (shapes.zip items) values :=
      forall₂_of_forall_mem (fun p hp _ => ih p.1 (List.of_mem_zip hp).1) hv
    have row : (shapes.zip items).map Prod.fst = shapes :=
      List.map_fst_zip (Nat.le_of_eq hlength.symm)
    rw [Conforms, conformsRow_iff]
    rwa [← row, List.forall₂_map_left_iff]
  | list element ih =>
    obtain ⟨values, hv, rfl⟩ := decode_list_ok.1 h
    exact forall_mem_of_forall₂ (fun _ _ => ih) hv
  | map key val ihkey ihval =>
    obtain ⟨entries, -, values, hv, rfl⟩ := decode_map_ok.1 h
    exact forall_mem_of_forall₂ (fun _ _ both => ⟨ihkey both.1, ihval both.2⟩) hv

/-- Decoding gives what the shape asks for, works only on values that decode under any shape, and
keeps every scalar in its order. -/
theorem decode_faithful {shape : Shape} {value : Value} {decoded : HostValue}
    (h : decode shape value = .ok decoded) :
    Conforms shape decoded ∧
      (value.Passable ∧ ∃ whole, decode .any value = .ok whole) ∧
      value.leaves.map Value.scalar? = decoded.leaves.map some := by
  have same : SameLeaves value decoded := sameLeaves_decode h
  have whole : ∃ whole, decode .any value = .ok whole := exists_decodeAny_iff.2 same.passable
  exact ⟨conforms_decode h, ⟨same.passable, whole⟩, same⟩

/-- A list of pairs taken as a map, one of its values being a bare one taken as a list. -/
theorem decode_faithful_pairs :
    let shape : Shape := .map (.scalar .string) (.list .any)
    let value : Value := .list
      [.list [.string "wide" true, .bool true] .comma,
        .list [.string "narrow" false, .list [.null, .list [] .comma, .bool false] .space] .space]
      .comma
    let decoded : HostValue := .map
      [(.string "wide", .sequence [.bool true]),
        (.string "narrow", .sequence [.null, .sequence [], .bool false])]
    decode shape value = .ok decoded ∧
      Conforms shape decoded ∧
      (value.Passable ∧ ∃ whole, decode .any value = .ok whole) ∧
      value.leaves.map Value.scalar? = decoded.leaves.map some :=
  ⟨rfl, decode_faithful rfl⟩

end HostSheet
