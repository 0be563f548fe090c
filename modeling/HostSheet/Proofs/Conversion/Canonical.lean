import HostSheet.Proofs.Conversion.RoundTrip

/-!
# Canonical values

A value that passes through a function of the host and back keeps its tree and loses only what the
host does not know: whether a string was quoted, how a list was separated, and what of an alpha lies
between two steps. What comes back is the canonical form of the value, and passing it through again
changes nothing more.
-/

namespace HostSheet

namespace Value

mutual

/-- The value with every string quoted, every list separated by commas and every alpha moved to its
nearest step. -/
def canonical : Value → Value
  | .string text _ => .string text true
  | .color c => .color { c with alpha := Alpha.ofStep (Alpha.toStep c.alpha) }
  | .list items _ => .list (canonicalItems items) .comma
  | .map entries => .map (canonicalEntries entries)
  | value => value

def canonicalItems : List Value → List Value
  | [] => []
  | item :: items => item.canonical :: canonicalItems items

def canonicalEntries : List (Value × Value) → List (Value × Value)
  | [] => []
  | (key, value) :: entries => (key.canonical, value.canonical) :: canonicalEntries entries

end

theorem canonicalItems_eq (items : List Value) : canonicalItems items = items.map canonical := by
  induction items with
  | nil => rfl
  | cons item items ih => rw [canonicalItems, ih, List.map_cons]

theorem canonicalEntries_eq (entries : List (Value × Value)) :
    canonicalEntries entries =
      entries.map fun entry => (entry.1.canonical, entry.2.canonical) := by
  induction entries with
  | nil => rfl
  | cons entry entries ih => rw [canonicalEntries, ih, List.map_cons]

@[simp] theorem canonical_list (items : List Value) (separator : Separator) :
    (list items separator).canonical = .list (items.map canonical) .comma := by
  rw [canonical, canonicalItems_eq]

@[simp] theorem canonical_map (entries : List (Value × Value)) :
    (map entries).canonical =
      .map (entries.map fun entry => (entry.1.canonical, entry.2.canonical)) := by
  rw [canonical, canonicalEntries_eq]

end Value

theorem map_eq_of_forall₂ {α β : Type} {f : α → β} {as : List α} {bs : List β}
    (h : List.Forall₂ (fun a b => f a = b) as bs) : as.map f = bs := by
  rw [← List.forall₂_eq_eq_eq]
  exact List.forall₂_map_left_iff.2 h

/-- What comes back is the canonical form, at whatever depth the value is encoded. -/
theorem canonical_eq_of_encodeAt {depth : Nat} {value : Value} {received : HostValue}
    {encoded : Value} (hd : decodeAny value = .ok received)
    (he : encodeAt depth received = .ok encoded) : value.canonical = encoded := by
  induction value using Value.treeInduction generalizing depth received encoded with
  | list items separator ih =>
    obtain ⟨values, hvalues, rfl⟩ := decodeAny_list_ok.1 hd
    obtain ⟨-, encodings, hencodings, rfl⟩ := encodeAt_sequence_ok.1 he
    rw [Value.canonical_list, map_eq_of_forall₂]
    exact forall₂_trans_of_forall_mem hvalues hencodings fun item hi _ _ => ih item hi
  | map entries ih =>
    obtain ⟨values, hvalues, rfl⟩ := decodeAny_map_ok.1 hd
    obtain ⟨-, encodings, hencodings, rfl⟩ := encodeAt_map_ok.1 he
    rw [Value.canonical_map, map_eq_of_forall₂]
    refine forall₂_trans_of_forall_mem hvalues hencodings ?_
    rintro entry hentry _ _ ⟨hkey, hvalue⟩ ⟨hkey', hvalue'⟩
    exact Prod.ext ((ih entry hentry).1 hkey hkey') ((ih entry hentry).2 hvalue hvalue')
  | leaf value hleaf =>
    cases value <;> simp [Value.isComposite] at hleaf <;> cases hd <;> unfold encodeAt at he <;>
      split at he <;> cases he <;> rfl

/-- The value that a function gives back which returns what it was given, if it can. -/
def passThrough (value : Value) : Option Value := do
  let received ← (decode .any value).toOption
  (encode received).toOption

def passThroughTimes : Nat → Value → Option Value
  | 0, value => some value
  | count + 1, value => do passThroughTimes count (← passThrough value)

theorem passThrough_eq {value : Value} {received : HostValue} {encoded : Value}
    (hd : decode .any value = .ok received) (he : encode received = .ok encoded) :
    passThrough value = some encoded := by
  simp [passThrough, hd, he, Except.toOption]

theorem passThroughTimes_of_fixed {value : Value} (h : passThrough value = some value)
    (count : Nat) : passThroughTimes count value = some value := by
  induction count with
  | zero => rfl
  | succ count ih => rw [passThroughTimes, h, Option.bind_eq_bind, Option.bind_some, ih]

/-- Whatever can pass comes back in its canonical form. The canonical form stands for the same host
value, so it comes back as it is however often it is passed on. -/
theorem passes_canonical {value : Value} (hpassable : value.Passable)
    (hdepth : value.depth ≤ maxDepth) :
    ∃ received, decode .any value = .ok received ∧ encode received = .ok value.canonical ∧
      decode .any value.canonical = .ok received ∧
      ∀ count, passThroughTimes (count + 1) value = some value.canonical := by
  obtain ⟨received, hd⟩ := exists_decodeAny_iff.2 hpassable
  have hd' : decode .any value = .ok received := hd
  have fits : received.Passable ∧ received.depth ≤ maxDepth :=
    ⟨(sameLeaves_decodeAny hd).decoded_passable, depth_decodeAny hd ▸ hdepth⟩
  obtain ⟨encoded, he⟩ := exists_encode_iff.2 fits
  obtain rfl : value.canonical = encoded := canonical_eq_of_encodeAt hd he
  have back : decode .any value.canonical = .ok received := decodeAny_encodeAt he
  refine ⟨received, hd', he, back, fun count => ?_⟩
  rw [passThroughTimes, passThrough_eq hd' he]
  exact passThroughTimes_of_fixed (passThrough_eq back he) count

/-- A map with an unquoted key, a list with blanks and a half transparent colour. -/
theorem passes_canonical_map :
    let value : Value := .map
      [(.string "a" false, .list [.color ⟨255, 128, 0, 0.5⟩, .list [] .space] .space),
        (.null, .string "b" true)]
    let canonical : Value := .map
      [(.string "a" true, .list [.color ⟨255, 128, 0, Alpha.ofStep 128⟩, .list [] .comma] .comma),
        (.null, .string "b" true)]
    (value.Passable ∧ value.depth ≤ maxDepth) ∧ value.canonical = canonical ∧
      ∃ received, decode .any value = .ok received ∧ encode received = .ok canonical ∧
        decode .any canonical = .ok received ∧
        ∀ count, passThroughTimes (count + 1) value = some canonical := by
  intro value canonical
  have passable : value.Passable := exists_decodeAny_iff.1 ⟨_, rfl⟩
  have depth : value.depth ≤ maxDepth := by decide
  have step : Alpha.toStep 0.5 = 128 := by decide +kernel
  have form : value.canonical = canonical := by
    simp [value, canonical, Value.canonical, Value.canonicalEntries, Value.canonicalItems, step]
  exact ⟨⟨passable, depth⟩, form, form ▸ passes_canonical passable depth⟩

end HostSheet
