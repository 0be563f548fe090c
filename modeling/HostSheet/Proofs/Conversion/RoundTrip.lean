import HostSheet.Conversion.Typed
import HostSheet.Proofs.Conversion.Conformance
import HostSheet.Proofs.Conversion.Encoding

/-!
# Round trips

What a host encodes, it decodes again under every shape that the value conforms to. The steps of an
alpha are the only place where the two sides differ in precision, and each of them comes back.
-/

namespace HostSheet

-- ---------------------------------------------------------------------------
-- Colours
-- ---------------------------------------------------------------------------

theorem Alpha.toStep_ofStep_ofNat :
    ∀ n : Fin 256, Alpha.toStep (Alpha.ofStep (UInt8.ofNat n)) = UInt8.ofNat n := by
  decide +kernel

theorem Alpha.toStep_ofStep (step : UInt8) : Alpha.toStep (Alpha.ofStep step) = step := by
  have h := Alpha.toStep_ofStep_ofNat ⟨step.toNat, step.toNat_lt⟩
  rwa [UInt8.ofNat_toNat] at h

@[simp] theorem Rgba.toRgba_toColor (c : Rgba) : c.toColor.toRgba = c := by
  rw [Rgba.toColor, Color.toRgba, Alpha.toStep_ofStep]

-- ---------------------------------------------------------------------------
-- Host values
-- ---------------------------------------------------------------------------

section
variable {depth : Nat}

theorem forall₂_zip_of_forall₂ {α β γ : Type} {R : α → β → Prop} {S : β → γ → Prop}
    {T : α × γ → β → Prop} {as : List α} {bs : List β} {cs : List γ}
    (hR : List.Forall₂ R as bs) (hS : List.Forall₂ S bs cs)
    (h : ∀ a ∈ as, ∀ b c, R a b → S b c → T (a, c) b) : List.Forall₂ T (as.zip cs) bs := by
  induction hR generalizing cs with
  | nil => exact .nil
  | cons hab _ ih =>
    cases hS with
    | cons hbc rest =>
      rw [List.zip_cons_cons]
      rw [List.forall_mem_cons] at h
      exact .cons (h.1 _ _ hab hbc) (ih rest h.2)

theorem decodeAny_encodeAt {value : HostValue} {encoded : Value}
    (h : encodeAt depth value = .ok encoded) : decodeAny encoded = .ok value := by
  induction value using HostValue.treeInduction generalizing depth encoded with
  | sequence items ih =>
    obtain ⟨-, values, hv, rfl⟩ := encodeAt_sequence_ok.1 h
    refine decodeAny_list_ok.2 ⟨items, List.Forall₂.flip ?_, rfl⟩
    exact forall₂_of_forall_mem (fun item hi _ => ih item hi) hv
  | map entries ih =>
    obtain ⟨-, encoded, he, rfl⟩ := encodeAt_map_ok.1 h
    refine decodeAny_map_ok.2 ⟨entries, List.Forall₂.flip (forall₂_of_forall_mem ?_ he), rfl⟩
    rintro entry hmem _ ⟨hkey, hvalue⟩
    exact ⟨(ih entry hmem).1 hkey, (ih entry hmem).2 hvalue⟩
  | leaf value hleaf =>
    unfold encodeAt at h
    split at h
    · cases h
    · cases value <;> simp [HostValue.isLeaf] at hleaf h <;> subst h <;> simp [decodeAny]

theorem decodeScalar_encodeAt {kind : ScalarKind} {value : HostValue} {encoded : Value}
    (hk : kind.accepts value = true) (h : encodeAt depth value = .ok encoded) :
    decodeScalar kind encoded = .ok value := by
  unfold encodeAt at h
  split at h
  · cases h
  · cases kind <;> cases value <;> simp [ScalarKind.accepts] at hk <;> cases h <;>
      simp [decodeScalar]

/-- Decoding undoes encoding under every shape that the value conforms to. -/
theorem decode_encodeAt {shape : Shape} {value : HostValue} {encoded : Value}
    (hc : Conforms shape value) (h : encodeAt depth value = .ok encoded) :
    decode shape encoded = .ok value := by
  -- The shape leads: an encoded sequence is a list, so no bare value is wrapped on the way back.
  induction shape using Shape.treeInduction generalizing depth value encoded with
  | any => exact decodeAny_encodeAt h
  | scalar kind => exact decodeScalar_encodeAt hc h
  | sequence shapes ih =>
    cases value with
    | sequence items =>
      rw [Conforms, conformsRow_iff] at hc
      obtain ⟨-, values, hv, rfl⟩ := encodeAt_sequence_ok.1 h
      have lengths : values.length = shapes.length := hv.length_eq.symm.trans hc.length_eq.symm
      refine decode_sequence_ok.2 ⟨values, rfl, lengths, items, ?_, rfl⟩
      exact forall₂_zip_of_forall₂ hc hv fun shape hs _ _ => ih shape hs
    | _ => simp [Conforms] at hc
  | list element ih =>
    cases value with
    | sequence items =>
      obtain ⟨-, values, hv, rfl⟩ := encodeAt_sequence_ok.1 h
      refine decode_list_ok.2 ⟨items, List.Forall₂.flip ?_, rfl⟩
      exact forall₂_of_forall_mem (fun item hi _ => ih (hc item hi)) hv
    | _ => simp [Conforms] at hc
  | map key val ihkey ihval =>
    cases value with
    | map entries =>
      obtain ⟨-, encoded, he, rfl⟩ := encodeAt_map_ok.1 h
      refine decode_map_ok.2 ⟨encoded, rfl, entries, List.Forall₂.flip ?_, rfl⟩
      refine forall₂_of_forall_mem ?_ he
      rintro entry hmem _ ⟨hkey, hvalue⟩
      exact ⟨ihkey (hc entry hmem).1 hkey, ihval (hc entry hmem).2 hvalue⟩
    | _ => simp [Conforms] at hc

end

-- ---------------------------------------------------------------------------
-- Typed values
-- ---------------------------------------------------------------------------

namespace HostType

theorem length_shapes (ts : List HostType) : (shapes ts).length = ts.length := by
  induction ts with
  | nil => rfl
  | cons t ts ih => exact congrArg (· + 1) ih

theorem length_componentsToHost (ts : List HostType) (values : Components ts) :
    (componentsToHost ts values).length = ts.length := by
  induction ts with
  | nil => rfl
  | cons t ts ih =>
    obtain ⟨value, values⟩ := values
    exact congrArg (· + 1) (ih values)

theorem ofHost_tuple {ts : List HostType} {items : List HostValue}
    (h : items.length = ts.length) :
    (tuple ts).ofHost (.sequence items) = componentsOfHost ts items :=
  if_neg (not_not.2 h)

theorem componentsOfHost_cons_ok {t : HostType} {ts : List HostType} {item : HostValue}
    {items : List HostValue} {value : t.Carrier} {values : Components ts} :
    componentsOfHost (t :: ts) (item :: items) = .ok (value, values) ↔
      t.ofHost item = .ok value ∧ componentsOfHost ts items = .ok values := by
  constructor
  · intro h
    obtain ⟨_, ht, h⟩ := bind_ok.1 h
    obtain ⟨_, hts, h⟩ := bind_ok.1 h
    cases h
    exact ⟨ht, hts⟩
  · rintro ⟨ht, hts⟩
    exact bind_ok.2 ⟨value, ht, bind_ok.2 ⟨values, hts, rfl⟩⟩

theorem mapM_ofHost_toHost {t : HostType} (h : ∀ x, t.ofHost (t.toHost x) = .ok x)
    (items : List t.Carrier) : (items.map t.toHost).mapM t.ofHost = .ok items := by
  rw [mapM_ok, List.forall₂_map_left_iff, List.forall₂_same]
  exact fun x _ => h x

-- The carriers of lists and tuples compute, so these equations hold by unfolding; rewriting with
-- them would have to look through the carriers.

mutual

theorem ofHost_toHost : (t : HostType) → (x : t.Carrier) → t.ofHost (t.toHost x) = .ok x
  | .bool, _ | .string, _ | .number, _ | .color, _ | .any, _ => rfl
  | .list element, items => mapM_ofHost_toHost (ofHost_toHost element) items
  | .tuple components, values =>
    (ofHost_tuple (length_componentsToHost components values)).trans
      (componentsOfHost_toHost components values)

theorem componentsOfHost_toHost : (ts : List HostType) → (values : Components ts) →
    componentsOfHost ts (componentsToHost ts values) = .ok values
  | [], _ => rfl
  | t :: ts, (value, values) =>
    componentsOfHost_cons_ok.2 ⟨ofHost_toHost t value, componentsOfHost_toHost ts values⟩

end

mutual

/-- A typed value has the structure of its type's shape; what stands for itself must be fit to
cross. -/
theorem conforms_toHost : (t : HostType) → (x : t.Carrier) → (t.toHost x).Passable →
    Conforms t.shape (t.toHost x)
  | .bool, _, _ | .string, _, _ | .number, _, _ | .color, _, _ => rfl
  | .any, _, h => h
  | .list element, items, h => by
    rw [toHost, HostValue.passable_sequence] at h
    intro item hi
    obtain ⟨x, -, rfl⟩ := List.mem_map.1 hi
    exact conforms_toHost element x (h _ hi)
  | .tuple components, values, h => by
    rw [toHost, HostValue.passable_sequence] at h
    exact conformsRow_componentsToHost components values h

theorem conformsRow_componentsToHost : (ts : List HostType) → (values : Components ts) →
    (∀ item ∈ componentsToHost ts values, item.Passable) →
    ConformsRow (shapes ts) (componentsToHost ts values)
  | [], _, _ => trivial
  | t :: ts, (value, values), h => by
    rw [componentsToHost, List.forall_mem_cons] at h
    exact ⟨conforms_toHost t value h.1, conformsRow_componentsToHost ts values h.2⟩

end

-- ---------------------------------------------------------------------------
-- Types that are sent and received
-- ---------------------------------------------------------------------------

/-- The types of which a host can also send values: a tuple is only received. -/
def sendable : HostType → Bool
  | .list element => element.sendable
  | .tuple _ => false
  | _ => true

/-- The instance by which the values of a type are sent. -/
@[reducible] def sender : (t : HostType) → t.sendable = true → ToHost t.Carrier
  | .bool, _ => inferInstanceAs (ToHost Bool)
  | .string, _ => inferInstanceAs (ToHost String)
  | .number, _ => inferInstanceAs (ToHost Number)
  | .color, _ => inferInstanceAs (ToHost Rgba)
  | .any, _ => inferInstanceAs (ToHost HostValue)
  | .list element, h =>
    let _ : ToHost element.Carrier := element.sender h
    inferInstanceAs (ToHost (List element.Carrier))

theorem toHost_sender : (t : HostType) → (h : t.sendable = true) → (x : t.Carrier) →
    (t.sender h).toHost x = t.toHost x
  | .bool, _, _ | .string, _, _ | .number, _, _ | .color, _, _ | .any, _, _ => rfl
  | .list element, h, items => by
    have same : (element.sender h).toHost = element.toHost := funext (element.toHost_sender h)
    exact congrArg (fun f => HostValue.sequence (List.map f items)) same

theorem unmarshal_of_encode {t : HostType} {x : t.Carrier} {encoded : Value}
    (h : encode (t.toHost x) = .ok encoded) : t.unmarshal encoded = .ok x := by
  have passable : (t.toHost x).Passable := (exists_encode_iff.1 ⟨encoded, h⟩).1
  have back : decode t.shape encoded = .ok (t.toHost x) :=
    decode_encodeAt (t.conforms_toHost x passable) h
  rw [unmarshal, back]
  exact t.ofHost_toHost x

end HostType

/-- What is encoded decodes to itself under every matching shape. A value of a type that is sent and
received can be sent exactly if nothing in it is bound to the host and it is not too deep, and what
is sent is then received again. The same holds of tuples, seen as sequences. -/
theorem decode_undoes_encode :
    (∀ (shape : Shape) (value : HostValue) (encoded : Value),
      Conforms shape value → encode value = .ok encoded → decode shape encoded = .ok value) ∧
    (∀ (t : HostType) (h : t.sendable = true) (x : t.Carrier),
      let _ : ToHost t.Carrier := t.sender h
      ((∃ encoded, marshal x = .ok encoded) ↔ (toHost x).Passable ∧ (toHost x).depth ≤ maxDepth) ∧
      ∀ encoded, marshal x = .ok encoded → t.unmarshal encoded = .ok x) ∧
    ∀ (t : HostType) (x : t.Carrier) (encoded : Value),
      encode (t.toHost x) = .ok encoded → t.unmarshal encoded = .ok x := by
  refine ⟨fun shape value encoded hc h => decode_encodeAt hc h,
    fun t h x => ⟨exists_encode_iff, ?_⟩, fun t x encoded => HostType.unmarshal_of_encode⟩
  intro encoded hmarshal
  have hsent : encode ((t.sender h).toHost x) = .ok encoded := hmarshal
  rw [t.toHost_sender h] at hsent
  exact HostType.unmarshal_of_encode hsent

/-- A half transparent colour beside a list of maps, lists of numbers that are sent, and a list of
pairs of which one part is of any type. -/
theorem decode_undoes_encode_nested :
    let shape : Shape :=
      .sequence [.scalar .color, .list (.map .any (.scalar .string))]
    let value : HostValue :=
      .sequence [.color ⟨255, 128, 0, 127⟩, .sequence [.map [(.null, .string "a")], .map []]]
    let encoded : Value :=
      .list [.color (Rgba.toColor ⟨255, 128, 0, 127⟩),
        .list [.map [(.null, .string "a" true)], .map []] .comma] .comma
    let rows : List (List Bool) := [[true, false], [], [true]]
    let encodedRows : Value :=
      .list [.list [.bool true, .bool false] .comma, .list [] .comma, .list [.bool true] .comma]
        .comma
    let pairs : HostType := .list (.tuple [.bool, .any])
    let items : List (Bool × HostValue × Unit) :=
      [(true, .sequence [], ()), (false, .string "b", ())]
    let encodedItems : Value :=
      .list [.list [.bool true, .list [] .comma] .comma,
        .list [.bool false, .string "b" true] .comma] .comma
    (Conforms shape value ∧ encode value = .ok encoded ∧ decode shape encoded = .ok value) ∧
      (marshal rows = .ok encodedRows ∧
        (HostType.list (.list .bool)).unmarshal encodedRows = .ok rows) ∧
      encode (pairs.toHost items) = .ok encodedItems ∧
      pairs.unmarshal encodedItems = .ok items := by
  intro shape value encoded rows encodedRows pairs items encodedItems
  have conforms : Conforms shape value := by
    simp [shape, value, Conforms, ConformsRow, ScalarKind.accepts, HostValue.Passable,
      HostValue.leaves, HostValue.isHostOnly]
  have hvalue : encode value = .ok encoded := rfl
  have hrows : marshal rows = .ok encodedRows := rfl
  have hitems : encode (pairs.toHost items) = .ok encodedItems := rfl
  exact ⟨⟨conforms, hvalue, decode_undoes_encode.1 shape value encoded conforms hvalue⟩,
    ⟨hrows, (decode_undoes_encode.2.1 (.list (.list .bool)) rfl rows).2 encodedRows hrows⟩,
    hitems, decode_undoes_encode.2.2 pairs items encodedItems hitems⟩

end HostSheet
