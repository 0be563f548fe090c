import HostSheet.Proofs.Conversion.RoundTrip
import HostSheet.Proofs.Equality.Values

/-!
# Conversions of equal values

Equal values convert alike, under every shape and in both directions: either both conversions fail,
or both give equal results. Conversions go through the entries of a map in their order and stop at
the first failure; still the order plays no part in whether there is a result and in what it equals.
-/

namespace HostSheet

-- ---------------------------------------------------------------------------
-- Results
-- ---------------------------------------------------------------------------

def Agree {ε α : Type} [BEq α] : Except ε α → Except ε α → Prop
  | .ok a, .ok b => (a == b) = true
  | .error _, .error _ => True
  | _, _ => False

/-- What `f` makes of `a`, it makes up to equality of everything that equals `a`. -/
def RespectsAt {ε α β : Type} [BEq α] [BEq β] (f : α → Except ε β) (a : α) : Prop :=
  ∀ b c, (a == b) = true → f a = .ok c → ∃ d, f b = .ok d ∧ (c == d) = true

/-- Following successes is enough: equality can be turned round, so failures follow as well. -/
theorem agree_of_respectsAt {ε α β : Type} [BEq α] [PartialEquivBEq α] [BEq β]
    {f : α → Except ε β} {a b : α} (ha : RespectsAt f a) (hb : RespectsAt f b)
    (h : (a == b) = true) : Agree (f a) (f b) := by
  cases hfa : f a with
  | ok c =>
    obtain ⟨d, hfb, hcd⟩ := ha b c h hfa
    rw [hfb]
    exact hcd
  | error =>
    cases hfb : f b with
    | error => trivial
    | ok d =>
      obtain ⟨c, hc, -⟩ := hb a d (BEq.symm h) hfb
      rw [hfa] at hc
      cases hc

-- ---------------------------------------------------------------------------
-- Lists and maps
-- ---------------------------------------------------------------------------

section
variable {α β : Type} {R : α → α → Prop} {F : α → β → Prop} {S : β → β → Prop} {as bs : List α}
  {cs : List β}

theorem forall₂_follows (hR : List.Forall₂ R as bs) (hF : List.Forall₂ F as cs)
    (h : ∀ a ∈ as, ∀ b c, R a b → F a c → ∃ d, F b d ∧ S c d) :
    ∃ ds, List.Forall₂ F bs ds ∧ List.Forall₂ S cs ds := by
  induction hF generalizing bs with
  | nil =>
    cases hR
    exact ⟨[], .nil, .nil⟩
  | cons hac _ ih =>
    cases hR with
    | cons hab hrest =>
      rw [List.forall_mem_cons] at h
      obtain ⟨d, hbd, hcd⟩ := h.1 _ _ hab hac
      obtain ⟨ds, hds, hS⟩ := ih hrest h.2
      exact ⟨d :: ds, .cons hbd hds, .cons hcd hS⟩

theorem rel_follows (hR : Multiset.Rel R (as : Multiset α) bs) (hF : List.Forall₂ F as cs)
    (h : ∀ a ∈ as, ∀ b c, R a b → F a c → ∃ d, F b d ∧ S c d) :
    ∃ ds, List.Forall₂ F bs ds ∧ Multiset.Rel S (cs : Multiset β) ds := by
  -- The other list is put into the order of the first one, and the results are put back.
  induction hF generalizing bs with
  | nil =>
    rw [Multiset.coe_nil, Multiset.rel_zero_left, Multiset.coe_eq_zero] at hR
    subst hR
    exact ⟨[], .nil, .zero⟩
  | @cons a c as cs hac _ ih =>
    rw [← Multiset.cons_coe, Multiset.rel_cons_left] at hR
    obtain ⟨b, rest, hab, hrest, hbs⟩ := hR
    obtain ⟨rest, rfl⟩ := Quot.exists_rep rest
    rw [List.forall_mem_cons] at h
    obtain ⟨d, hbd, hcd⟩ := h.1 b c hab hac
    obtain ⟨ds, hds, hS⟩ := ih hrest h.2
    have order : List.Perm bs (b :: rest) := Multiset.coe_eq_coe.1 hbs
    obtain ⟨ds', hbs', hperm⟩ := List.perm_comp_forall₂ order (.cons hbd hds)
    refine ⟨ds', hbs', ?_⟩
    rw [Multiset.coe_eq_coe.2 hperm]
    exact .cons hcd hS

theorem forall₂_zip_right {γ : Type} (rs : List γ) (h : List.Forall₂ R as bs) :
    List.Forall₂ (fun p q => p.1 = q.1 ∧ R p.2 q.2) (rs.zip as) (rs.zip bs) := by
  induction h generalizing rs with
  | nil =>
    rw [List.zip_nil_right]
    exact .nil
  | cons hab _ ih =>
    cases rs with
    | nil => exact .nil
    | cons r rs => exact .cons ⟨rfl, hab⟩ (ih rs)

end

section
variable {ε α β : Type} [BEq α] [BEq β] {f g : α → Except ε β}

theorem RespectsAt.entries {as bs : List (α × α)} {cs : List (β × β)}
    (h : ∀ entry ∈ as, RespectsAt f entry.1 ∧ RespectsAt g entry.2)
    (hab : Multiset.Rel EntriesBEq (as : Multiset (α × α)) bs)
    (hac : List.Forall₂ (fun a c => f a.1 = .ok c.1 ∧ g a.2 = .ok c.2) as cs) :
    ∃ ds : List (β × β), List.Forall₂ (fun b d => f b.1 = .ok d.1 ∧ g b.2 = .ok d.2) bs ds ∧
      Multiset.Rel EntriesBEq (cs : Multiset (β × β)) ds := by
  refine rel_follows hab hac fun entry he other c same results => ?_
  obtain ⟨key, hkey, samekey⟩ := (h entry he).1 _ _ same.1 results.1
  obtain ⟨value, hvalue, samevalue⟩ := (h entry he).2 _ _ same.2 results.2
  exact ⟨(key, value), ⟨hkey, hvalue⟩, samekey, samevalue⟩

end

-- ---------------------------------------------------------------------------
-- Decoding
-- ---------------------------------------------------------------------------

theorem Alpha.toStep_of_beq {x y : Float} (h : (x == y) = true) :
    Alpha.toStep x = Alpha.toStep y := by
  obtain ⟨-, -, rfl | ⟨rfl, rfl⟩ | ⟨rfl, rfl⟩⟩ := Float.beq_iff_ne_nan_and_eq.1 h
  · rfl
  · decide +kernel
  · decide +kernel

theorem Color.toRgba_of_beq {a b : Color} (h : (a == b) = true) : a.toRgba = b.toRgba := by
  obtain ⟨hred, hgreen, hblue, halpha⟩ := Color.beq_iff.1 h
  rw [Color.toRgba, Color.toRgba, hred, hgreen, hblue, Alpha.toStep_of_beq halpha]

section
variable {value other : Value}

theorem kind_of_beq (h : (value == other) = true) : value.kind = other.kind := by
  change Value.equal value other = true at h
  cases value <;> cases other <;> first | rfl | cases h

theorem scalar?_of_beq {decoded : HostValue} (h : (value == other) = true)
    (hd : value.scalar? = some decoded) :
    ∃ decoded', other.scalar? = some decoded' ∧ (decoded == decoded') = true := by
  cases value with
  | list | map | error | warning => cases hd
  | null =>
    obtain rfl := Value.eq_of_equal rfl (by simp) (by simp) h
    cases hd
    exact ⟨_, rfl, rfl⟩
  | bool b =>
    obtain rfl := Value.eq_of_equal rfl (by simp) (by simp) h
    cases hd
    exact ⟨.bool b, rfl, beq_self_eq_true b⟩
  | string text =>
    obtain rfl := Value.eq_of_equal rfl (by simp) (by simp) h
    cases hd
    exact ⟨.string text, rfl, beq_self_eq_true text⟩
  | number n =>
    obtain ⟨m, rfl, hm⟩ := Value.equal_number_iff.1 h
    cases hd
    exact ⟨.number m, rfl, hm⟩
  | color c =>
    obtain ⟨d, rfl, hcd⟩ := Value.equal_color_iff.1 h
    cases hd
    rw [Color.toRgba_of_beq hcd]
    exact ⟨.color d.toRgba, rfl, beq_self_eq_true d.toRgba⟩

theorem respectsAt_decodeAny (value : Value) : RespectsAt decodeAny value := by
  induction value using Value.treeInduction with
  | list items separator ih =>
    intro other decoded h hd
    obtain ⟨others, rfl, hothers⟩ := Value.equal_list_iff.1 h
    obtain ⟨values, hvalues, rfl⟩ := decodeAny_list_ok.1 hd
    obtain ⟨values', hvalues', same⟩ := forall₂_follows hothers hvalues ih
    exact ⟨.sequence values', decodeAny_list_ok.2 ⟨values', hvalues', rfl⟩,
      HostValue.equal_sequence_iff.2 ⟨values', rfl, same⟩⟩
  | map entries ih =>
    intro other decoded h hd
    obtain ⟨others, rfl, hothers⟩ := Value.beq_map_iff.1 h
    obtain ⟨values, hvalues, rfl⟩ := decodeAny_map_ok.1 hd
    obtain ⟨values', hvalues', same⟩ := RespectsAt.entries ih hothers hvalues
    exact ⟨.map values', decodeAny_map_ok.2 ⟨values', hvalues', rfl⟩,
      HostValue.beq_map_iff.2 ⟨values', rfl, same⟩⟩
  | leaf value hleaf =>
    intro other decoded h hd
    have leaf : other.isComposite = false := by
      rw [← hleaf]
      cases other <;> cases value <;> first | rfl | cases h
    obtain ⟨decoded', hd', same⟩ := scalar?_of_beq h ((decodeAny_leaf_ok hleaf).1 hd)
    exact ⟨decoded', (decodeAny_leaf_ok leaf).2 hd', same⟩

theorem accepts_of_beq {kind : ScalarKind} {decoded decoded' : HostValue}
    (h : (decoded == decoded') = true) : kind.accepts decoded = kind.accepts decoded' := by
  change HostValue.equal decoded decoded' = true at h
  cases kind <;> cases decoded <;> cases decoded' <;> first | rfl | cases h

theorem respectsAt_decodeScalar (kind : ScalarKind) (value : Value) :
    RespectsAt (decodeScalar kind) value := by
  intro other decoded h hd
  obtain ⟨hscalar, haccepts⟩ := decodeScalar_ok.1 hd
  obtain ⟨decoded', hscalar', same⟩ := scalar?_of_beq h hscalar
  exact ⟨decoded', decodeScalar_ok.2 ⟨hscalar', accepts_of_beq same ▸ haccepts⟩, same⟩

theorem listItems_of_beq (h : (value == other) = true) :
    List.Forall₂ (fun a b => (a == b) = true) (listItems value) (listItems other) := by
  cases value with
  | list items separator =>
    obtain ⟨others, rfl, hothers⟩ := Value.equal_list_iff.1 h
    exact hothers
  | _ =>
    cases other with
    | list => cases h
    | _ => exact .cons h .nil

theorem rowItems_of_beq {count : Nat} {items : List Value} (h : (value == other) = true)
    (hi : rowItems count value = .ok items) :
    ∃ others, rowItems count other = .ok others ∧
      List.Forall₂ (fun a b => (a == b) = true) items others := by
  obtain ⟨fits, rfl⟩ := rowItems_ok.1 hi
  exact ⟨listItems other, rowItems_ok.2 ⟨kind_of_beq h ▸ fits, rfl⟩, listItems_of_beq h⟩

theorem entryOf_of_beq {entry : Value × Value} (h : (value == other) = true)
    (he : entryOf value = .ok entry) :
    ∃ entry', entryOf other = .ok entry' ∧ EntriesBEq entry entry' := by
  obtain ⟨separator, rfl⟩ := entryOf_ok.1 he
  obtain ⟨others, rfl, _ | ⟨hkey, _ | ⟨hvalue, _ | _⟩⟩⟩ := Value.equal_list_iff.1 h
  exact ⟨_, rfl, hkey, hvalue⟩

theorem mapEntries_of_beq {entries : List (Value × Value)} (h : (value == other) = true)
    (he : mapEntries value = .ok entries) :
    ∃ others, mapEntries other = .ok others ∧
      Multiset.Rel EntriesBEq (entries : Multiset (Value × Value)) others := by
  cases value with
  | map written =>
    obtain ⟨others, rfl, hothers⟩ := Value.beq_map_iff.1 h
    cases he
    exact ⟨others, rfl, hothers⟩
  | list items separator =>
    obtain ⟨others, rfl, hothers⟩ := Value.equal_list_iff.1 h
    obtain ⟨entries', he', same⟩ := forall₂_follows hothers (mapM_ok.1 he)
      fun item _ other entry => entryOf_of_beq
    exact ⟨entries', mapM_ok.2 he', rel_of_forall₂ same⟩
  | _ => cases he

end

theorem respectsAt_decode (shape : Shape) (value : Value) : RespectsAt (decode shape) value := by
  induction shape using Shape.treeInduction generalizing value with
  | any => exact respectsAt_decodeAny value
  | scalar kind => exact respectsAt_decodeScalar kind value
  | sequence shapes ih =>
    intro other decoded h hd
    obtain ⟨items, hitems, hlength, values, hvalues, rfl⟩ := decode_sequence_ok.1 hd
    obtain ⟨others, hothers, same⟩ := rowItems_of_beq h hitems
    obtain ⟨values', hvalues', same'⟩ := forall₂_follows (forall₂_zip_right shapes same) hvalues
      fun p hp q c both => by
        obtain ⟨hshape, hitem⟩ := both
        rw [← hshape]
        exact ih p.1 (List.of_mem_zip hp).1 p.2 q.2 c hitem
    exact ⟨.sequence values',
      decode_sequence_ok.2 ⟨others, hothers, same.length_eq ▸ hlength, values', hvalues', rfl⟩,
      HostValue.equal_sequence_iff.2 ⟨values', rfl, same'⟩⟩
  | list element ih =>
    intro other decoded h hd
    obtain ⟨values, hvalues, rfl⟩ := decode_list_ok.1 hd
    obtain ⟨values', hvalues', same⟩ :=
      forall₂_follows (listItems_of_beq h) hvalues fun item _ => ih item
    exact ⟨.sequence values', decode_list_ok.2 ⟨values', hvalues', rfl⟩,
      HostValue.equal_sequence_iff.2 ⟨values', rfl, same⟩⟩
  | map key val ihkey ihval =>
    intro other decoded h hd
    obtain ⟨entries, hentries, values, hvalues, rfl⟩ := decode_map_ok.1 hd
    obtain ⟨others, hothers, same⟩ := mapEntries_of_beq h hentries
    obtain ⟨values', hvalues', same'⟩ := RespectsAt.entries
      (fun entry _ => ⟨ihkey entry.1, ihval entry.2⟩) same hvalues
    exact ⟨.map values', decode_map_ok.2 ⟨others, hothers, values', hvalues', rfl⟩,
      HostValue.beq_map_iff.2 ⟨values', rfl, same'⟩⟩

-- ---------------------------------------------------------------------------
-- Encoding
-- ---------------------------------------------------------------------------

/-- A NaN would come back as the lowest step, and the alpha of that one is zero. -/
theorem Alpha.ofStep_ne_nan (step : UInt8) : Alpha.ofStep step ≠ Float.nan := by
  intro h
  have lowest : step = 0 := by
    rw [← Alpha.toStep_ofStep step, h]
    decide +kernel
  subst lowest
  exact absurd h (by decide +kernel)

theorem nanFree_of_encodeAt {depth : Nat} {value : HostValue} {encoded : Value}
    (hleaf : value.isLeaf = true) (hnumber : ∀ n, value ≠ .number n)
    (h : encodeAt depth value = .ok encoded) : encoded.NaNFree := by
  unfold encodeAt at h
  split at h
  · cases h
  · cases value with
    | sequence | map => cases hleaf
    | number n => exact absurd rfl (hnumber n)
    | color c =>
      cases h
      simp [Value.NaNFree, Value.leaves, Value.isNaN, Rgba.toColor, Alpha.ofStep_ne_nan]
    | _ => cases h <;> simp [Value.NaNFree, Value.leaves, Value.isNaN]

theorem respectsAt_encodeAt (depth : Nat) (value : HostValue) :
    RespectsAt (encodeAt depth) value := by
  induction value using HostValue.treeInduction generalizing depth with
  | sequence items ih =>
    intro other encoded h he
    obtain ⟨others, rfl, hothers⟩ := HostValue.equal_sequence_iff.1 h
    obtain ⟨hdepth, values, hvalues, rfl⟩ := encodeAt_sequence_ok.1 he
    obtain ⟨values', hvalues', same⟩ :=
      forall₂_follows hothers hvalues fun item hi => ih item hi (depth + 1)
    exact ⟨.list values' .comma, encodeAt_sequence_ok.2 ⟨hdepth, values', hvalues', rfl⟩,
      Value.equal_list_iff.2 ⟨values', rfl, same⟩⟩
  | map entries ih =>
    intro other encoded h he
    obtain ⟨others, rfl, hothers⟩ := HostValue.beq_map_iff.1 h
    obtain ⟨hdepth, values, hvalues, rfl⟩ := encodeAt_map_ok.1 he
    obtain ⟨values', hvalues', same⟩ := RespectsAt.entries
      (fun entry hmem => ⟨(ih entry hmem).1 (depth + 1), (ih entry hmem).2 (depth + 1)⟩)
      hothers hvalues
    exact ⟨.map values', encodeAt_map_ok.2 ⟨hdepth, values', hvalues', rfl⟩,
      Value.beq_map_iff.2 ⟨values', rfl, same⟩⟩
  | leaf value hleaf =>
    intro other encoded h he
    cases value with
    | number n =>
      obtain ⟨m, rfl, hm⟩ := HostValue.equal_number_iff.1 h
      unfold encodeAt at he ⊢
      split at he
      · cases he
      · cases he
        exact ⟨.number m, if_neg ‹_›, hm⟩
    | _ =>
      obtain rfl := HostValue.eq_of_equal hleaf (by simp) h
      exact ⟨encoded, he,
        (Value.beq_self_iff encoded).2 (nanFree_of_encodeAt hleaf (by simp) he)⟩

/-- Equal values convert alike in both directions, and what is encoded alike was alike. -/
theorem conversions_respect_equality :
    (∀ (shape : Shape) (value other : Value), (value == other) = true →
      Agree (decode shape value) (decode shape other)) ∧
    (∀ value other : HostValue, (value == other) = true →
      Agree (encode value) (encode other)) ∧
    ∀ (value other : HostValue) (encoded encoded' : Value), encode value = .ok encoded →
      encode other = .ok encoded' → (encoded == encoded') = true → (value == other) = true := by
  refine ⟨fun shape value other h => ?_, fun value other h => ?_,
    fun value other encoded encoded' he he' h => ?_⟩
  · exact agree_of_respectsAt (respectsAt_decode shape value) (respectsAt_decode shape other) h
  · exact agree_of_respectsAt (respectsAt_encodeAt 0 value) (respectsAt_encodeAt 0 other) h
  · have back : decodeAny encoded' = .ok other := decodeAny_encodeAt he'
    obtain ⟨other', back', same⟩ :=
      respectsAt_decodeAny encoded encoded' value h (decodeAny_encodeAt he)
    rw [back] at back'
    cases back'
    exact same

/-- Nested maps in two orders with the two zeros, once taken whole and once refused for a key. -/
theorem conversions_respect_equality_map :
    let value : Value := .map [(.string "a" true, .number ⟨0, "px"⟩),
      (.null, .map [(.bool true, .null), (.bool false, .null)])]
    let other : Value := .map [(.null, .map [(.bool false, .null), (.bool true, .null)]),
      (.string "a" true, .number ⟨-0, "px"⟩)]
    let received : HostValue := .map [(.string "a", .number ⟨0, "px"⟩),
      (.null, .map [(.bool true, .null), (.bool false, .null)])]
    let received' : HostValue := .map [(.null, .map [(.bool false, .null), (.bool true, .null)]),
      (.string "a", .number ⟨-0, "px"⟩)]
    ((value == other) = true ∧ Agree (decode .any value) (decode .any other) ∧
      Agree (decode (.map (.scalar .string) .any) value)
        (decode (.map (.scalar .string) .any) other)) ∧
    ((received == received') = true ∧ Agree (encode received) (encode received')) ∧
    encode received = .ok value ∧ encode received' = .ok other := by
  intro value other received received'
  obtain ⟨decoding, encoding, back⟩ := conversions_respect_equality
  have same : (value == other) = true := by decide +kernel
  have encoded : encode received = .ok value := rfl
  have encoded' : encode received' = .ok other := rfl
  have same' : (received == received') = true := back received received' _ _ encoded encoded' same
  exact ⟨⟨same, decoding _ value other same, decoding _ value other same⟩,
    ⟨same', encoding received received' same'⟩, encoded, encoded'⟩

end HostSheet
