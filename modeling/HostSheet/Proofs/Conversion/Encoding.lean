import HostSheet.Conversion.Encode
import HostSheet.Proofs.Conversion.Tree
import HostSheet.Proofs.Result

/-!
# What can be encoded

A host value encodes exactly if nothing in it is bound to the host and it has no more levels than
are followed.
-/

namespace HostSheet

section
variable {depth : Nat}

theorem encodeItems_eq (items : List HostValue) :
    encodeItems depth items = items.mapM (encodeAt depth) := by
  induction items with
  | nil => rfl
  | cons item items ih => rw [encodeItems, ih, List.mapM_cons]

theorem encodeEntries_eq (entries : List (HostValue × HostValue)) :
    encodeEntries depth entries =
      entries.mapM fun entry => do return (← encodeAt depth entry.1, ← encodeAt depth entry.2) := by
  induction entries with
  | nil => rfl
  | cons entry entries ih =>
    rw [encodeEntries, ih, List.mapM_cons]
    simp only [bind_assoc, pure_bind]

theorem encodeAt_sequence_ok {items : List HostValue} {value : Value} :
    encodeAt depth (.sequence items) = .ok value ↔ depth ≤ maxDepth ∧
      ∃ values, List.Forall₂ (fun item v => encodeAt (depth + 1) item = .ok v) items values ∧
        .list values .comma = value := by
  rw [encodeAt]
  split
  · simp only [reduceCtorEq, false_iff, not_and]
    omega
  · simp only [bind_ok, pure_ok, encodeItems_eq, mapM_ok]
    exact ⟨fun h => ⟨by omega, h⟩, fun h => h.2⟩

theorem encodeAt_map_ok {entries : List (HostValue × HostValue)} {value : Value} :
    encodeAt depth (.map entries) = .ok value ↔ depth ≤ maxDepth ∧
      ∃ encoded, List.Forall₂ (fun entry e => encodeAt (depth + 1) entry.1 = .ok e.1 ∧
        encodeAt (depth + 1) entry.2 = .ok e.2) entries encoded ∧ .map encoded = value := by
  rw [encodeAt]
  split
  · simp only [reduceCtorEq, false_iff, not_and]
    omega
  · simp only [bind_ok, pure_ok]
    simp only [encodeEntries_eq, mapM_ok, pair_ok]
    exact ⟨fun h => ⟨by omega, h⟩, fun h => h.2⟩

theorem exists_encodeAt_sequence_iff {items : List HostValue} :
    (∃ value, encodeAt depth (.sequence items) = .ok value) ↔
      depth ≤ maxDepth ∧ ∀ item ∈ items, ∃ value, encodeAt (depth + 1) item = .ok value := by
  simp only [encodeAt_sequence_ok, ← exists_forall₂_iff]
  constructor
  · rintro ⟨_, hd, values, hv, -⟩
    exact ⟨hd, values, hv⟩
  · rintro ⟨hd, values, hv⟩
    exact ⟨_, hd, values, hv, rfl⟩

theorem exists_encodeAt_map_iff {entries : List (HostValue × HostValue)} :
    (∃ value, encodeAt depth (.map entries) = .ok value) ↔
      depth ≤ maxDepth ∧ ∀ entry ∈ entries,
        (∃ key, encodeAt (depth + 1) entry.1 = .ok key) ∧
          ∃ value, encodeAt (depth + 1) entry.2 = .ok value := by
  simp only [encodeAt_map_ok, ← exists_pair_iff, ← exists_forall₂_iff]
  constructor
  · rintro ⟨_, hd, encoded, he, -⟩
    exact ⟨hd, encoded, he⟩
  · rintro ⟨hd, encoded, he⟩
    exact ⟨_, hd, encoded, he, rfl⟩

theorem exists_encodeAt_iff {value : HostValue} :
    (∃ encoded, encodeAt depth value = .ok encoded) ↔
      value.Passable ∧ depth + value.depth ≤ maxDepth := by
  -- The level is looked at first, so an empty sequence too deep fails as well.
  induction value using HostValue.treeInduction generalizing depth with
  | sequence items ih =>
    rw [exists_encodeAt_sequence_iff, HostValue.passable_sequence, HostValue.depth,
      HostValue.itemsDepth_le, and_left_comm, ← forall₂_and]
    exact and_congr_right fun _ => forall₂_congr fun item hi => ih item hi
  | map entries ih =>
    rw [exists_encodeAt_map_iff, HostValue.passable_map, HostValue.depth,
      HostValue.entriesDepth_le, and_left_comm, ← forall₂_and]
    refine and_congr_right fun _ => forall₂_congr fun entry he => ?_
    rw [(ih entry he).1, (ih entry he).2]
    exact and_and_and_comm
  | leaf value h =>
    cases value <;> simp_all [encodeAt, HostValue.Passable, HostValue.leaves, HostValue.depth,
      HostValue.isLeaf, HostValue.isHostOnly]
    all_goals split <;> simp <;> omega

end

/-- Encoding works exactly on what is not bound to the host and not too deep. -/
theorem exists_encode_iff {value : HostValue} :
    (∃ encoded, encode value = .ok encoded) ↔ value.Passable ∧ value.depth ≤ maxDepth := by
  rw [← Nat.zero_add value.depth]
  exact exists_encodeAt_iff

end HostSheet
