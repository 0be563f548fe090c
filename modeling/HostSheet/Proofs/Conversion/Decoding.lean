import HostSheet.Conversion.Decode
import HostSheet.Proofs.Conversion.Tree
import HostSheet.Proofs.Result

/-!
# What decoding does

One lemma for each step of the decoder says when the step succeeds, and with what. Marks of places
belong to failures, so they play no part here.
-/

namespace HostSheet

-- ---------------------------------------------------------------------------
-- Passes over lists
-- ---------------------------------------------------------------------------

@[simp] theorem atElement_ok {α : Type} {index : Nat} {result : Except DecodeError α} {a : α} :
    atElement index result = .ok a ↔ result = .ok a := by
  cases result <;> simp [atElement]

theorem decodeAnyItems_eq (items : List Value) : decodeAnyItems items = items.mapM decodeAny := by
  induction items with
  | nil => rfl
  | cons item items ih => rw [decodeAnyItems, ih, List.mapM_cons]

theorem decodeAnyEntries_eq (entries : List (Value × Value)) :
    decodeAnyEntries entries =
      entries.mapM fun entry => do return (← decodeAny entry.1, ← decodeAny entry.2) := by
  induction entries with
  | nil => rfl
  | cons entry entries ih =>
    rw [decodeAnyEntries, ih, List.mapM_cons]
    simp only [bind_assoc, pure_bind]

section
variable {f g : Value → Except DecodeError HostValue}

theorem decodeItems_ok {index : Nat} {items : List Value} {values : List HostValue} :
    decodeItems f index items = .ok values ↔
      List.Forall₂ (fun item value => f item = .ok value) items values := by
  induction items generalizing index values with
  | nil =>
    simp only [decodeItems, Except.ok.injEq, List.forall₂_nil_left_iff]
    exact eq_comm
  | cons item items ih =>
    simp only [decodeItems, cons_ok, atElement_ok, ih, List.forall₂_cons_left_iff]

theorem decodeEntries_eq (entries : List (Value × Value)) :
    decodeEntries f g entries =
      entries.mapM fun entry => do return (← f entry.1, ← g entry.2) := by
  induction entries with
  | nil => rfl
  | cons entry entries ih =>
    rw [decodeEntries, ih, List.mapM_cons]
    simp only [bind_assoc, pure_bind]

end

theorem decodeRow_ok {shapes : List Shape} {index : Nat} {items : List Value}
    {values : List HostValue} :
    decodeRow shapes index items = .ok values ↔
      List.Forall₂ (fun p value => decode p.1 p.2 = .ok value) (shapes.zip items) values := by
  induction shapes generalizing index items values with
  | nil =>
    simp only [decodeRow, Except.ok.injEq, List.zip_nil_left, List.forall₂_nil_left_iff]
    exact eq_comm
  | cons shape shapes ih =>
    cases items with
    | nil =>
      simp only [decodeRow, Except.ok.injEq, List.zip_nil_right, List.forall₂_nil_left_iff]
      exact eq_comm
    | cons item items =>
      simp only [decodeRow, cons_ok, atElement_ok, ih, List.zip_cons_cons,
        List.forall₂_cons_left_iff]

-- ---------------------------------------------------------------------------
-- Values of any shape
-- ---------------------------------------------------------------------------

theorem decodeAny_list_ok {items : List Value} {separator : Separator} {value : HostValue} :
    decodeAny (.list items separator) = .ok value ↔
      ∃ values, List.Forall₂ (fun item v => decodeAny item = .ok v) items values ∧
        .sequence values = value := by
  simp only [decodeAny, bind_ok, pure_ok, decodeAnyItems_eq, mapM_ok]

theorem decodeAny_map_ok {entries : List (Value × Value)} {value : HostValue} :
    decodeAny (.map entries) = .ok value ↔
      ∃ decoded, List.Forall₂ (fun entry d => decodeAny entry.1 = .ok d.1 ∧
        decodeAny entry.2 = .ok d.2) entries decoded ∧ .map decoded = value := by
  simp only [decodeAny, bind_ok, pure_ok]
  simp only [decodeAnyEntries_eq, mapM_ok, pair_ok]

/-- What is passed on is exactly what holds no error and no warning. -/
theorem exists_decodeAny_iff {value : Value} :
    (∃ decoded, decodeAny value = .ok decoded) ↔ value.Passable := by
  induction value using Value.treeInduction with
  | list items separator ih =>
    simp only [Value.passable_list, ← forall₂_congr ih, ← exists_forall₂_iff, decodeAny_list_ok]
    constructor
    · rintro ⟨_, values, hv, -⟩
      exact ⟨values, hv⟩
    · rintro ⟨values, hv⟩
      exact ⟨_, values, hv, rfl⟩
  | map entries ih =>
    have parts : ∀ entry ∈ entries, (∃ d : HostValue × HostValue,
        decodeAny entry.1 = .ok d.1 ∧ decodeAny entry.2 = .ok d.2) ↔
        entry.1.Passable ∧ entry.2.Passable := fun entry he =>
      exists_pair_iff.trans (and_congr (ih entry he).1 (ih entry he).2)
    simp only [Value.passable_map, ← forall₂_congr parts, ← exists_forall₂_iff, decodeAny_map_ok]
    constructor
    · rintro ⟨_, decoded, hd, -⟩
      exact ⟨decoded, hd⟩
    · rintro ⟨decoded, hd⟩
      exact ⟨_, decoded, hd, rfl⟩
  | leaf value h =>
    cases value <;> simp_all [decodeAny, Value.Passable, Value.leaves, Value.isReport,
      Value.isComposite]

theorem itemsDepth_eq {items : List Value} {values : List HostValue}
    (h : List.Forall₂ (fun item value => value.depth = item.depth) items values) :
    HostValue.itemsDepth values = Value.itemsDepth items := by
  induction h with
  | nil => rfl
  | cons head _ ih => rw [HostValue.itemsDepth, Value.itemsDepth, head, ih]

theorem entriesDepth_eq {entries : List (Value × Value)} {values : List (HostValue × HostValue)}
    (h : List.Forall₂ (fun entry v => v.1.depth = entry.1.depth ∧ v.2.depth = entry.2.depth)
      entries values) :
    HostValue.entriesDepth values = Value.entriesDepth entries := by
  induction h with
  | nil => rfl
  | cons head _ ih => rw [HostValue.entriesDepth, Value.entriesDepth, head.1, head.2, ih]

theorem depth_decodeAny {value : Value} {decoded : HostValue}
    (h : decodeAny value = .ok decoded) : decoded.depth = value.depth := by
  induction value using Value.treeInduction generalizing decoded with
  | list items separator ih =>
    obtain ⟨values, hv, rfl⟩ := decodeAny_list_ok.1 h
    rw [HostValue.depth, Value.depth]
    exact itemsDepth_eq (forall₂_of_forall_mem (fun item hi _ => ih item hi) hv)
  | map entries ih =>
    obtain ⟨values, hv, rfl⟩ := decodeAny_map_ok.1 h
    rw [HostValue.depth, Value.depth]
    refine entriesDepth_eq (forall₂_of_forall_mem ?_ hv)
    rintro entry he _ ⟨hkey, hvalue⟩
    exact ⟨(ih entry he).1 hkey, (ih entry he).2 hvalue⟩
  | leaf value hleaf =>
    cases value <;> simp [Value.isComposite] at hleaf <;> cases h <;> rfl

-- ---------------------------------------------------------------------------
-- Values of a shape
-- ---------------------------------------------------------------------------

theorem rowItems_ok {count : Nat} {value : Value} {items : List Value} :
    rowItems count value = .ok items ↔
      (value.kind = .list ∨ count = 1) ∧ listItems value = items := by
  unfold rowItems listItems
  cases value with
  | list => simp [Value.kind]
  | _ =>
    by_cases h : count = 1
    · simp [h]
    · simp [h, Value.kind]

theorem entryOf_ok {value : Value} {entry : Value × Value} :
    entryOf value = .ok entry ↔ ∃ separator, value = .list [entry.1, entry.2] separator := by
  constructor
  · intro h
    unfold entryOf at h
    split at h
    · cases h
      exact ⟨_, rfl⟩
    · cases h
  · rintro ⟨separator, rfl⟩
    rfl

theorem decode_sequence_ok {shapes : List Shape} {value : Value} {decoded : HostValue} :
    decode (.sequence shapes) value = .ok decoded ↔
      ∃ items, rowItems shapes.length value = .ok items ∧ items.length = shapes.length ∧
        ∃ values, List.Forall₂ (fun p v => decode p.1 p.2 = .ok v) (shapes.zip items) values ∧
          .sequence values = decoded := by
  simp only [decode, bind_ok]
  refine exists_congr fun items => and_congr_right fun _ => ?_
  split
  · rename_i h
    simp [bind_ok, h]
  · rename_i h
    simp only [bind_ok, pure_ok, decodeRow_ok]
    simp [not_not.1 h]

theorem decode_list_ok {element : Shape} {value : Value} {decoded : HostValue} :
    decode (.list element) value = .ok decoded ↔
      ∃ values, List.Forall₂ (fun item v => decode element item = .ok v) (listItems value) values ∧
        .sequence values = decoded := by
  simp only [decode, bind_ok, pure_ok, decodeItems_ok]

theorem decode_map_ok {key val : Shape} {value : Value} {decoded : HostValue} :
    decode (.map key val) value = .ok decoded ↔
      ∃ entries, mapEntries value = .ok entries ∧
        ∃ values, List.Forall₂ (fun entry v => decode key entry.1 = .ok v.1 ∧
          decode val entry.2 = .ok v.2) entries values ∧ .map values = decoded := by
  simp only [decode, bind_ok, pure_ok]
  simp only [decodeEntries_eq, mapM_ok, pair_ok]

end HostSheet
