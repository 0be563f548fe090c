import HostSheet.Proofs.Conversion.Decoding
import HostSheet.Proofs.Conversion.Conformance
import HostSheet.Proofs.Failure

/-!
# What decoding fails with

A value that does not decode has a first part that does not. The failure is what the shape of that
part raises about it, and the message names the elements of lists and rows that it lies in, from the
outermost on. Entries of maps and parts of values of any shape are not named.
-/

namespace HostSheet

-- ---------------------------------------------------------------------------
-- Marks of places
-- ---------------------------------------------------------------------------

namespace DecodeError

def within (path : List Nat) (cause : DecodeError) : DecodeError :=
  path.foldr element cause

theorem category_within (path : List Nat) (cause : DecodeError) :
    (cause.within path).category = cause.category := by
  induction path with
  | nil => rfl
  | cons i path ih => exact ih

end DecodeError

theorem atElement_error {α : Type} {index : Nat} {result : Except DecodeError α}
    {e : DecodeError} :
    atElement index result = .error e ↔
      ∃ cause, result = .error cause ∧ e = .element index cause := by
  cases result <;> simp [atElement, eq_comm]

theorem fails_atElement {α : Type} {index : Nat} {result : Except DecodeError α} :
    Fails (atElement index result) ↔ Fails result := by
  cases result <;> simp [atElement, Fails]

-- ---------------------------------------------------------------------------
-- Passes over lists
-- ---------------------------------------------------------------------------

/-- The failure of the first element that fails, marked with its place. The places are counted from
`index` on. -/
def MarkedFailure {α β : Type} (f : α → Except DecodeError β) (index : Nat) (as : List α)
    (e : DecodeError) : Prop :=
  ∃ i a, FirstAt (fun a => Fails (f a)) as i a ∧
    ∃ cause, f a = .error cause ∧ e = .element (index + i) cause

section
variable {α β : Type} {f : α → Except DecodeError β} {index : Nat} {e : DecodeError}

theorem markedFailure_zero {as : List α} :
    MarkedFailure f 0 as e ↔ ∃ i a, FirstAt (fun a => Fails (f a)) as i a ∧
      ∃ cause, f a = .error cause ∧ e = .element i cause := by
  simp only [MarkedFailure, Nat.zero_add]

theorem not_markedFailure_nil : ¬ MarkedFailure f index [] e := by
  rintro ⟨i, a, h, -⟩
  exact not_firstAt_nil h

theorem markedFailure_cons {a : α} {as : List α} {rest : Except DecodeError (List β)}
    (h : rest = .error e ↔ MarkedFailure f (index + 1) as e) :
    (do let b ← atElement index (f a); return b :: (← rest)) = .error e ↔
      MarkedFailure f index (a :: as) e := by
  rw [both_error, h, atElement_error, fails_atElement, MarkedFailure, MarkedFailure,
    exists_firstAt_cons]
  refine or_congr ?_ ?_
  · constructor
    · rintro ⟨cause, hcause, rfl⟩
      exact ⟨⟨cause, hcause⟩, cause, hcause, rfl⟩
    · exact And.right
  · simp only [Nat.add_assoc, Nat.add_comm 1]

end

section
variable {f g : Value → Except DecodeError HostValue} {e : DecodeError}

theorem decodeItems_error {index : Nat} {items : List Value} :
    decodeItems f index items = .error e ↔ MarkedFailure f index items e := by
  induction items generalizing index with
  | nil => simp only [decodeItems, reduceCtorEq, not_markedFailure_nil]
  | cons item items ih =>
    rw [decodeItems]
    exact markedFailure_cons ih

theorem decodeRow_error {shapes : List Shape} {index : Nat} {items : List Value} :
    decodeRow shapes index items = .error e ↔
      MarkedFailure (fun p => decode p.2 p.1) index (items.zip shapes) e := by
  induction items generalizing index shapes with
  | nil =>
    cases shapes <;>
      simp only [decodeRow, reduceCtorEq, List.zip_nil_left, not_markedFailure_nil]
  | cons item items ih =>
    cases shapes with
    | nil => simp only [decodeRow, reduceCtorEq, List.zip_nil_right, not_markedFailure_nil]
    | cons shape shapes =>
      rw [decodeRow, List.zip_cons_cons]
      exact markedFailure_cons (f := fun p => decode p.2 p.1) (a := (item, shape)) ih

theorem decodeEntries_error {entries : List (Value × Value)} :
    decodeEntries f g entries = .error e ↔
      ∃ i entry, FirstAt (fun entry => Fails (f entry.1) ∨ Fails (g entry.2)) entries i entry ∧
        (f entry.1 = .error e ∨ ¬ Fails (f entry.1) ∧ g entry.2 = .error e) := by
  rw [decodeEntries_eq, mapM_error]
  simp only [fails_both, both_error]

end

-- ---------------------------------------------------------------------------
-- What each shape raises
-- ---------------------------------------------------------------------------

/-- A value of any shape fails as its first error or warning. -/
theorem failsByFirst_decodeAny (value : Value) :
    FailsByFirst Value.isReport (fun report => DecodeError.notPassable report.kind) value.leaves
      (decodeAny value) := by
  induction value using Value.treeInduction with
  | list items separator ih =>
    rw [decodeAny, decodeAnyItems_eq, Value.leaves_list]
    exact (FailsByFirst.mapM ih).map
  | map entries ih =>
    rw [decodeAny, decodeAnyEntries_eq, Value.leaves_map]
    exact (FailsByFirst.mapM fun entry he => (ih entry he).1.both (ih entry he).2).map
  | leaf value h =>
    cases value <;> simp [FailsByFirst, Value.isComposite, decodeAny, Value.leaves, Value.isReport,
      Value.kind] at h ⊢

theorem decodeScalar_error {kind : ScalarKind} {value : Value} {e : DecodeError} :
    decodeScalar kind value = .error e ↔
      kind.name ≠ value.kind.name ∧ e = .mismatch kind.name value.kind.name := by
  cases kind <;> cases value <;>
    simp [decodeScalar, ScalarKind.name, Value.kind, Kind.name, eq_comm]

theorem rowItems_error {count : Nat} {value : Value} {e : DecodeError} :
    rowItems count value = .error e ↔
      value.kind ≠ .list ∧ count ≠ 1 ∧ e = .mismatch "list" value.kind.name := by
  unfold rowItems
  cases value with
  | list => simp [Value.kind]
  | _ =>
    by_cases h : count = 1
    · simp [h]
    · simp [h, Value.kind, eq_comm]

theorem rowItems_of_length {shapes : List Shape} {value : Value}
    (h : (listItems value).length = shapes.length) :
    rowItems shapes.length value = .ok (listItems value) := by
  refine rowItems_ok.2 ⟨?_, rfl⟩
  cases value with
  | list => exact .inl rfl
  | _ => exact .inr h.symm

def Value.IsPair (value : Value) : Prop :=
  ∃ key val separator, value = .list [key, val] separator

theorem entryOf_error {value : Value} {e : DecodeError} :
    entryOf value = .error e ↔ ¬ value.IsPair ∧ e = .notAPair value.kind := by
  unfold entryOf Value.IsPair
  split
  · simp
  · rename_i h
    have hpair : ¬ ∃ key val separator, value = .list [key, val] separator := by
      rintro ⟨key, val, separator, rfl⟩
      exact h key val separator rfl
    simp [hpair, eq_comm]

/-- A list is looked through for a map's entries before any of them is decoded. -/
theorem mapM_entryOf_error {items : List Value} {e : DecodeError} :
    items.mapM entryOf = .error e ↔
      ∃ i item, FirstAt (fun item => ¬ item.IsPair) items i item ∧ e = .notAPair item.kind := by
  have fails_entryOf : ∀ item, Fails (entryOf item) ↔ ¬ item.IsPair := fun item => by
    simp [Fails, entryOf_error]
  simp only [mapM_error, fails_entryOf, entryOf_error]
  refine exists_congr fun i => exists_congr fun item => and_congr_right fun h => ?_
  exact and_iff_right h.holds

section
variable {value : Value} {e : DecodeError}

theorem decode_list_error {element : Shape} :
    decode (.list element) value = .error e ↔
      MarkedFailure (decode element) 0 (listItems value) e := by
  rw [decode, return_error, decodeItems_error]

theorem decode_sequence_error {shapes : List Shape} :
    decode (.sequence shapes) value = .error e ↔
      rowItems shapes.length value = .error e ∨
      ∃ items, rowItems shapes.length value = .ok items ∧
        (items.length ≠ shapes.length ∧ e = .wrongCount shapes.length items.length ∨
          items.length = shapes.length ∧
            MarkedFailure (fun p => decode p.2 p.1) 0 (items.zip shapes) e) := by
  rw [decode, bind_error]
  refine or_congr_right (exists_congr fun items => and_congr_right fun _ => ?_)
  split
  · rename_i h
    rw [bind_error, throw_error]
    simp [h, eq_comm]
  · rename_i h
    have hlength := not_not.1 h
    refine (return_error.trans decodeRow_error).trans ?_
    rw [or_iff_right fun h' => h'.1 hlength, and_iff_right hlength]

theorem decode_map_error {key val : Shape} :
    decode (.map key val) value = .error e ↔
      mapEntries value = .error e ∨
      ∃ entries, mapEntries value = .ok entries ∧ ∃ i entry,
        FirstAt (fun entry => Fails (decode key entry.1) ∨ Fails (decode val entry.2)) entries i
          entry ∧
        (decode key entry.1 = .error e ∨
          ¬ Fails (decode key entry.1) ∧ decode val entry.2 = .error e) := by
  rw [decode, bind_error]
  simp only [return_error, decodeEntries_error]

end

/-- What a shape raises about a value as a whole, whatever the parts of the value decode to. -/
inductive Raises : Shape → Value → DecodeError → Prop
  | report {value report} : value.leaves.find? Value.isReport = some report →
      Raises .any value (.notPassable report.kind)
  | scalar {kind value} : kind.name ≠ value.kind.name →
      Raises (.scalar kind) value (.mismatch kind.name value.kind.name)
  | notAList {shapes value} : value.kind ≠ .list → shapes.length ≠ 1 →
      Raises (.sequence shapes) value (.mismatch "list" value.kind.name)
  | wrongCount {shapes items separator} : items.length ≠ shapes.length →
      Raises (.sequence shapes) (.list items separator) (.wrongCount shapes.length items.length)
  | notAMap {key val value} : value.kind ≠ .list → value.kind ≠ .map →
      Raises (.map key val) value (.mismatch "map" value.kind.name)
  | notAPair {key val items separator i item} :
      FirstAt (fun item => ¬ item.IsPair) items i item →
      Raises (.map key val) (.list items separator) (.notAPair item.kind)

/-- The way down from a value to the first part of it that fails by itself. Elements of lists and
rows are on the path of places; entries of maps are passed without a place, and a key comes before
its value. -/
inductive LeadsTo : Shape → Value → List Nat → Shape → Value → Prop
  | here {shape value} : LeadsTo shape value [] shape value
  | item {element value i item path asked part} :
      FirstAt (fun item => Fails (decode element item)) (listItems value) i item →
      LeadsTo element item path asked part → LeadsTo (.list element) value (i :: path) asked part
  | component {shapes value i item component path asked part} :
      (listItems value).length = shapes.length →
      FirstAt (fun p => Fails (decode p.2 p.1)) ((listItems value).zip shapes) i (item, component) →
      LeadsTo component item path asked part →
      LeadsTo (.sequence shapes) value (i :: path) asked part
  | key {key val value entries i entry path asked part} : mapEntries value = .ok entries →
      FirstAt (fun entry => Fails (decode key entry.1) ∨ Fails (decode val entry.2)) entries i
        entry →
      LeadsTo key entry.1 path asked part → LeadsTo (.map key val) value path asked part
  | value {key val value entries i entry path asked part} : mapEntries value = .ok entries →
      FirstAt (fun entry => Fails (decode key entry.1) ∨ Fails (decode val entry.2)) entries i
        entry →
      ¬ Fails (decode key entry.1) →
      LeadsTo val entry.2 path asked part → LeadsTo (.map key val) value path asked part

section
variable {value : Value} {e : DecodeError}

theorem raises_any_iff : Raises .any value e ↔ decodeAny value = .error e := by
  rw [failsByFirst_decodeAny value e, Option.map_eq_some_iff]
  constructor
  · intro h
    cases h with
    | report h => exact ⟨_, h, rfl⟩
  · rintro ⟨report, h, rfl⟩
    exact .report h

theorem raises_scalar_iff {kind : ScalarKind} :
    Raises (.scalar kind) value e ↔ decodeScalar kind value = .error e := by
  rw [decodeScalar_error]
  constructor
  · intro h
    cases h with
    | scalar h => exact ⟨h, rfl⟩
  · rintro ⟨h, rfl⟩
    exact .scalar h

theorem raises_sequence_iff {shapes : List Shape} :
    Raises (.sequence shapes) value e ↔
      rowItems shapes.length value = .error e ∨
      ∃ items, rowItems shapes.length value = .ok items ∧ items.length ≠ shapes.length ∧
        e = .wrongCount shapes.length items.length := by
  rw [rowItems_error]
  constructor
  · intro h
    cases h with
    | notAList hkind hone => exact .inl ⟨hkind, hone, rfl⟩
    | wrongCount hlength => exact .inr ⟨_, rfl, hlength, rfl⟩
  · rintro (⟨hkind, hone, rfl⟩ | ⟨items, hitems, hlength, rfl⟩)
    · exact .notAList hkind hone
    · obtain ⟨hlist, rfl⟩ := rowItems_ok.1 hitems
      cases value with
      | list items separator => exact .wrongCount hlength
      | _ =>
        -- A value alone is a row of one, and of that length.
        obtain hkind | hone := hlist
        · cases hkind
        · exact absurd hone.symm hlength

theorem raises_map_iff {key val : Shape} :
    Raises (.map key val) value e ↔ mapEntries value = .error e := by
  constructor
  · intro h
    cases h with
    | notAMap hlist hmap =>
      cases value with
      | list => exact absurd rfl hlist
      | map => exact absurd rfl hmap
      | _ => rfl
    | notAPair h => exact mapM_entryOf_error.2 ⟨_, _, h, rfl⟩
  · intro h
    cases value with
    | list items separator =>
      obtain ⟨i, item, hitem, rfl⟩ := mapM_entryOf_error.1 h
      exact .notAPair hitem
    | map => cases h
    | _ =>
      cases h
      exact .notAMap nofun nofun

theorem decode_of_raises {shape : Shape} (h : Raises shape value e) :
    decode shape value = .error e := by
  cases shape with
  | any => exact raises_any_iff.1 h
  | scalar kind => exact raises_scalar_iff.1 h
  | sequence shapes =>
    rw [decode_sequence_error]
    refine (raises_sequence_iff.1 h).imp_right ?_
    rintro ⟨items, hitems, hlength⟩
    exact ⟨items, hitems, .inl hlength⟩
  | list element => cases h
  | map key val => exact decode_map_error.2 (.inl (raises_map_iff.1 h))

-- ---------------------------------------------------------------------------
-- The way to what failed
-- ---------------------------------------------------------------------------

theorem decode_of_leadsTo {shape asked : Shape} {path : List Nat} {part : Value}
    (h : LeadsTo shape value path asked part) (he : decode asked part = .error e) :
    decode shape value = .error (e.within path) := by
  induction h with
  | here => exact he
  | item hitem _ ih =>
    exact decode_list_error.2 (markedFailure_zero.2 ⟨_, _, hitem, _, ih he, rfl⟩)
  | component hlength hitem _ ih =>
    refine decode_sequence_error.2 (.inr ⟨_, rowItems_of_length hlength, .inr ⟨hlength, ?_⟩⟩)
    exact markedFailure_zero.2 ⟨_, _, hitem, _, ih he, rfl⟩
  | key hentries hentry _ ih =>
    exact decode_map_error.2 (.inr ⟨_, hentries, _, _, hentry, .inl (ih he)⟩)
  | value hentries hentry hkey _ ih =>
    exact decode_map_error.2 (.inr ⟨_, hentries, _, _, hentry, .inr ⟨hkey, ih he⟩⟩)

end

/-- The second entry of the second item has a key of the wrong kind; the map between the two lists
adds no mark, and the row that is too short further on is not come to. -/
example :
    let pair (key val : Value) : Value := .list [key, val] .space
    let shape : Shape := .list (.map (.list (.scalar .bool)) (.sequence [.any, .any]))
    let value : Value := .list
      [.map [], .list [pair (.bool true) (.list [.null, .null] .comma),
        pair (.list [.bool true, .null] .comma) (.list [.null] .comma)] .comma] .comma
    (decode shape value).mapError DecodeError.message =
      .error "element 1: element 1: type mismatch: expected bool, found null" := by
  rfl

end HostSheet
