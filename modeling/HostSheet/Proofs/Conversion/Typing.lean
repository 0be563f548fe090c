import HostSheet.Proofs.Conversion.RoundTrip
import Mathlib.Data.Set.List

/-!
# Typed values never fail on their own

A type decodes under its shape, and what was decoded under that shape is a typed value already: the
conversion behind the decoder has nothing left to refuse. What it would do with a value of another
type, a row of another length or a missing component makes no difference.
-/

namespace HostSheet.HostType

-- ---------------------------------------------------------------------------
-- The conversion with its refusals left open
-- ---------------------------------------------------------------------------

abbrev Refusal : Type :=
  (t : HostType) → HostValue → Except DecodeError t.Carrier

section
variable (refuse : Refusal) (absent : HostValue)

mutual

/-- The conversion to a type, with any answer to a value that does not fit and with any value in
place of a component that is not there. -/
def ofHostWith : (t : HostType) → HostValue → Except DecodeError t.Carrier
  | .bool, value =>
    match value with
    | .bool b => .ok b
    | found => refuse .bool found
  | .string, value =>
    match value with
    | .string text => .ok text
    | found => refuse .string found
  | .number, value =>
    match value with
    | .number n => .ok n
    | found => refuse .number found
  | .color, value =>
    match value with
    | .color c => .ok c
    | found => refuse .color found
  | .any, value => .ok value
  | .list element, value =>
    match value with
    | .sequence items => items.mapM (ofHostWith element)
    | found => refuse (.list element) found
  | .tuple components, value =>
    match value with
    | .sequence items =>
      if items.length ≠ components.length then
        refuse (.tuple components) (.sequence items)
      else componentsOfHostWith components items
    | found => refuse (.tuple components) found

def componentsOfHostWith : (ts : List HostType) → List HostValue →
    Except DecodeError (Components ts)
  | [], _ => .ok ()
  | t :: ts, items => do
    let value ← ofHostWith t (items.headD absent)
    let values ← componentsOfHostWith ts items.tail
    return (value, values)

end

end

def refusal : Refusal
  | .bool, found => mismatch "bool" found
  | .string, found => mismatch "string" found
  | .number, found => mismatch "number" found
  | .color, found => mismatch "color" found
  | .any, found => .ok found
  | .list _, found => mismatch "sequence" found
  | .tuple components, .sequence items => .error (.wrongCount components.length items.length)
  | .tuple _, found => mismatch "sequence" found

-- As in the round trip, the equations hold by unfolding; the carriers keep `rw` from them.

theorem componentsOfHostWith_cons {refuse : Refusal} {absent : HostValue} {t : HostType}
    {ts : List HostType} {items : List HostValue}
    (ht : ofHostWith refuse absent t (items.headD absent) = t.ofHost (items.headD .null))
    (hts : componentsOfHostWith refuse absent ts items.tail = componentsOfHost ts items.tail) :
    componentsOfHostWith refuse absent (t :: ts) items = componentsOfHost (t :: ts) items :=
  (congrArg (· >>= _) ht).trans (bind_congr fun _ => congrArg (· >>= _) hts)

mutual

theorem ofHostWith_refusal : (t : HostType) → (value : HostValue) →
    ofHostWith refusal .null t value = t.ofHost value
  | .bool, value | .string, value | .number, value | .color, value => by cases value <;> rfl
  | .any, _ => rfl
  | .list element, value => by
    have helement : ofHostWith refusal .null element = element.ofHost :=
      funext (ofHostWith_refusal element)
    cases value with
    | sequence items => exact congrArg (items.mapM ·) helement
    | _ => rfl
  | .tuple components, value => by
    cases value with
    | sequence items =>
      exact congrArg (ite (items.length ≠ components.length) _)
        (componentsOfHostWith_refusal components items)
    | _ => rfl

theorem componentsOfHostWith_refusal : (ts : List HostType) → (items : List HostValue) →
    componentsOfHostWith refusal .null ts items = componentsOfHost ts items
  | [], _ => rfl
  | t :: ts, _ =>
    componentsOfHostWith_cons (ofHostWith_refusal t _) (componentsOfHostWith_refusal ts _)

end

-- ---------------------------------------------------------------------------
-- Values that conform
-- ---------------------------------------------------------------------------

theorem length_of_conformsRow {ts : List HostType} {items : List HostValue}
    (h : ConformsRow (shapes ts) items) : items.length = ts.length := by
  rw [← (conformsRow_iff.1 h).length_eq, length_shapes]

theorem mapM_congr {f g : HostValue → Except DecodeError α} {items : List HostValue}
    (h : ∀ item ∈ items, f item = g item) : items.mapM f = items.mapM g := by
  induction items with
  | nil => rfl
  | cons item items ih =>
    rw [List.forall_mem_cons] at h
    rw [List.mapM_cons, List.mapM_cons, h.1, ih h.2]

section
variable (refuse : Refusal) (absent : HostValue)

theorem ofHostWith_tuple {ts : List HostType} {items : List HostValue}
    (h : items.length = ts.length) :
    ofHostWith refuse absent (tuple ts) (.sequence items) =
      componentsOfHostWith refuse absent ts items :=
  if_neg (not_not.2 h)

mutual

/-- A value with the structure of the type's shape is not refused anywhere in it. -/
theorem ofHostWith_of_conforms : (t : HostType) → {value : HostValue} → Conforms t.shape value →
    ofHostWith refuse absent t value = t.ofHost value
  | .bool, value, h | .string, value, h | .number, value, h | .color, value, h => by
    cases value <;> first | rfl | cases h
  | .any, _, _ => rfl
  | .list element, value, h => by
    cases value with
    | sequence items => exact mapM_congr fun item hi => ofHostWith_of_conforms element (h item hi)
    | _ => cases h
  | .tuple components, value, h => by
    cases value with
    | sequence items =>
      have hlength := length_of_conformsRow h
      exact (ofHostWith_tuple refuse absent hlength).trans
        ((componentsOfHostWith_of_conforms components h).trans (ofHost_tuple hlength).symm)
    | _ => cases h

theorem componentsOfHostWith_of_conforms : (ts : List HostType) → {items : List HostValue} →
    ConformsRow (shapes ts) items →
    componentsOfHostWith refuse absent ts items = componentsOfHost ts items
  | [], _, _ => rfl
  | _ :: _, [], h => h.elim
  | t :: ts, _ :: _, h =>
    componentsOfHostWith_cons (ofHostWith_of_conforms t h.1)
      (componentsOfHostWith_of_conforms ts h.2)

end

end

mutual

theorem exists_toHost_of_conforms : (t : HostType) → {value : HostValue} →
    Conforms t.shape value → ∃ x, t.toHost x = value
  | .bool, value, h | .string, value, h | .number, value, h | .color, value, h => by
    cases value <;> first | exact ⟨_, rfl⟩ | cases h
  | .any, value, _ => ⟨value, rfl⟩
  | .list element, value, h => by
    cases value with
    | sequence items =>
      have hitems : items ∈ Set.range (List.map element.toHost) := by
        rw [Set.range_list_map]
        exact fun item hi => exists_toHost_of_conforms element (h item hi)
      obtain ⟨xs, hxs⟩ := hitems
      exact ⟨xs, congrArg HostValue.sequence hxs⟩
    | _ => cases h
  | .tuple components, value, h => by
    cases value with
    | sequence items =>
      obtain ⟨xs, hxs⟩ := exists_componentsToHost_of_conforms components h
      exact ⟨xs, congrArg HostValue.sequence hxs⟩
    | _ => cases h

theorem exists_componentsToHost_of_conforms : (ts : List HostType) → {items : List HostValue} →
    ConformsRow (shapes ts) items → ∃ xs, componentsToHost ts xs = items
  | [], [], _ => ⟨(), rfl⟩
  | [], _ :: _, h => h.elim
  | _ :: _, [], h => h.elim
  | t :: ts, _ :: _, h => by
    obtain ⟨x, hx⟩ := exists_toHost_of_conforms t h.1
    obtain ⟨xs, hxs⟩ := exists_componentsToHost_of_conforms ts h.2
    exact ⟨(x, xs), congrArg₂ List.cons hx hxs⟩

end

-- ---------------------------------------------------------------------------
-- What is decoded
-- ---------------------------------------------------------------------------

/-- Receiving a typed value succeeds exactly if its shape decodes, with what was decoded, and it
fails with the decoder's own failure. Neither a refusal of the conversion behind the decoder nor its
placeholder for a missing component is ever come to: any other would do as well. -/
theorem unmarshal_eq_decode (t : HostType) (value : Value) :
    (t.unmarshal value).map t.toHost = decode t.shape value ∧
    ∀ refuse absent,
      (decode t.shape value >>= ofHostWith refuse absent t) = t.unmarshal value := by
  rw [unmarshal]
  cases h : decode t.shape value with
  | error e => exact ⟨rfl, fun _ _ => rfl⟩
  | ok decoded =>
    have hconforms := conforms_decode h
    obtain ⟨x, rfl⟩ := t.exists_toHost_of_conforms hconforms
    refine ⟨?_, fun refuse absent => ?_⟩
    · rw [ok_bind, ofHost_toHost]
      rfl
    · exact ofHostWith_of_conforms refuse absent t hconforms

end HostSheet.HostType
