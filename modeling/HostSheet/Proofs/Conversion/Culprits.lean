import HostSheet.Proofs.Conversion.Encoding
import HostSheet.Proofs.Failure

/-!
# What encoding fails with

Encoding goes through a value part by part, each part before those inside it, and stops at the first
one that it cannot represent: one that lies too deep, whatever it is, or one that is bound to the
host. What comes behind, and what lies still deeper, plays no part.
-/

namespace HostSheet

structure HostValue.Part where
  level : Nat
  value : HostValue

namespace HostValue

mutual

/-- A value that lies on a level and all parts of it. A part comes before those inside it, the items
of a sequence come in their order, and a key comes before its value. -/
def parts (level : Nat) : HostValue → List Part
  | .sequence items => ⟨level, .sequence items⟩ :: itemsParts (level + 1) items
  | .map entries => ⟨level, .map entries⟩ :: entriesParts (level + 1) entries
  | leaf => [⟨level, leaf⟩]

def itemsParts (level : Nat) : List HostValue → List Part
  | [] => []
  | item :: items => item.parts level ++ itemsParts level items

def entriesParts (level : Nat) : List (HostValue × HostValue) → List Part
  | [] => []
  | (key, value) :: entries => key.parts level ++ value.parts level ++ entriesParts level entries

end

section
variable {level : Nat}

theorem itemsParts_eq (items : List HostValue) :
    itemsParts level items = items.flatMap (parts level) := by
  induction items with
  | nil => rfl
  | cons item items ih => rw [itemsParts, ih, List.flatMap_cons]

theorem entriesParts_eq (entries : List (HostValue × HostValue)) :
    entriesParts level entries =
      entries.flatMap fun entry => entry.1.parts level ++ entry.2.parts level := by
  induction entries with
  | nil => rfl
  | cons entry entries ih => rw [entriesParts, ih, List.flatMap_cons]

theorem parts_sequence (items : List HostValue) :
    (sequence items).parts level =
      ⟨level, .sequence items⟩ :: items.flatMap (parts (level + 1)) := by
  rw [parts, itemsParts_eq]

theorem parts_map (entries : List (HostValue × HostValue)) :
    (map entries).parts level = ⟨level, .map entries⟩ ::
      entries.flatMap fun entry => entry.1.parts (level + 1) ++ entry.2.parts (level + 1) := by
  rw [parts, entriesParts_eq]

theorem parts_leaf {value : HostValue} (h : value.isLeaf = true) :
    value.parts level = [⟨level, value⟩] := by
  cases value <;> first | rfl | cases h

end

namespace Part

def offends (part : Part) : Bool :=
  maxDepth < part.level || part.value.isHostOnly

def blame (part : Part) : EncodeError :=
  if maxDepth < part.level then .tooDeep else .unsupported part.value.typeName

theorem offends_eq_false_iff {part : Part} :
    part.offends = false ↔ part.value.isHostOnly = false ∧ part.level ≤ maxDepth := by
  rw [offends, Bool.or_eq_false_iff, decide_eq_false_iff_not, Nat.not_lt, and_comm]

/-- A part cannot be encoded, for this reason. Its level is looked at before its value. -/
inductive Blamed : Part → EncodeError → Prop
  | tooDeep {value} : Blamed ⟨maxDepth + 1, value⟩ .tooDeep
  | function {level identity} : level ≤ maxDepth →
      Blamed ⟨level, .function identity⟩ (.unsupported "function")
  | foreign {level name} : level ≤ maxDepth → Blamed ⟨level, .foreign name⟩ (.unsupported name)

theorem Blamed.offends {part : Part} {e : EncodeError} (h : part.Blamed e) :
    part.offends = true ∧ part.blame = e := by
  cases h with
  | tooDeep => exact ⟨by simp [Part.offends], if_pos (Nat.lt_succ_self _)⟩
  | function h => exact ⟨by simp [Part.offends, isHostOnly], if_neg (Nat.not_lt.2 h)⟩
  | foreign h => exact ⟨by simp [Part.offends, isHostOnly], if_neg (Nat.not_lt.2 h)⟩

theorem blamed_of_offends {part : Part} (hlevel : part.level ≤ maxDepth + 1)
    (hoffends : part.offends = true) : part.Blamed part.blame := by
  obtain ⟨level, value⟩ := part
  by_cases h : maxDepth < level
  · obtain rfl : level = maxDepth + 1 := Nat.le_antisymm hlevel h
    rw [blame, if_pos h]
    exact .tooDeep
  · rw [blame, if_neg h]
    rw [offends, decide_eq_false h, Bool.false_or] at hoffends
    cases value with
    | function => exact .function (Nat.not_lt.1 h)
    | foreign => exact .foreign (Nat.not_lt.1 h)
    | _ => cases hoffends

end Part

end HostValue

open HostValue (Part)

theorem failsByFirst_level {level : Nat} {value : HostValue} {rest : List Part}
    {x : Except EncodeError Value} (hvalue : value.isHostOnly = false)
    (hx : FailsByFirst Part.offends Part.blame rest x) :
    FailsByFirst Part.offends Part.blame (⟨level, value⟩ :: rest)
      (if maxDepth < level then .error .tooDeep else x) := by
  split
  · rename_i h
    have hblame : Part.blame ⟨level, value⟩ = .tooDeep := if_pos h
    rw [← hblame]
    exact .head (by simp [Part.offends, h])
  · rename_i h
    exact hx.cons (Part.offends_eq_false_iff.2 ⟨hvalue, Nat.not_lt.1 h⟩)

theorem failsByFirst_hostOnly {level : Nat} {value : HostValue} (h : value.isHostOnly = true) :
    FailsByFirst Part.offends Part.blame [⟨level, value⟩]
      (if maxDepth < level then .error .tooDeep else .error (.unsupported value.typeName) :
        Except EncodeError Value) := by
  have hblame : Part.blame ⟨level, value⟩ =
      if maxDepth < level then .tooDeep else .unsupported value.typeName := rfl
  rw [← apply_ite Except.error, ← hblame]
  exact .head (by simp [Part.offends, h])

theorem find?_offends_cons {level : Nat} {value : HostValue} {rest : List Part} {part : Part}
    (h : (⟨level, value⟩ :: rest : List Part).find? Part.offends = some part) :
    ⟨level, value⟩ = part ∨ level ≤ maxDepth ∧ rest.find? Part.offends = some part := by
  rw [List.find?_cons] at h
  split at h
  · exact .inl (Option.some.inj h)
  · rename_i hoffends
    exact .inr ⟨(Part.offends_eq_false_iff.1 hoffends).2, h⟩

/-- Encoding fails exactly if there is a part that cannot be encoded, and as the first of them. -/
theorem failsByFirst_encodeAt (value : HostValue) (level : Nat) :
    FailsByFirst Part.offends Part.blame (value.parts level) (encodeAt level value) := by
  induction value using HostValue.treeInduction generalizing level with
  | sequence items ih =>
    rw [HostValue.parts_sequence, encodeAt, encodeItems_eq]
    exact failsByFirst_level rfl (FailsByFirst.mapM fun item hi => ih item hi _).map
  | map entries ih =>
    rw [HostValue.parts_map, encodeAt, encodeEntries_eq]
    refine failsByFirst_level rfl (FailsByFirst.mapM fun entry he => ?_).map
    exact ((ih entry he).1 _).both ((ih entry he).2 _)
  | leaf value h =>
    rw [HostValue.parts_leaf h]
    cases value with
    | function identity => exact failsByFirst_hostOnly rfl
    | foreign name => exact failsByFirst_hostOnly rfl
    | sequence | map => cases h
    | _ => exact failsByFirst_level rfl (.nil _)

/-- The first part that cannot be encoded lies at most one level below those that are followed. -/
theorem level_of_find?_offends {value : HostValue} {level : Nat} {part : Part}
    (hlevel : level ≤ maxDepth + 1) (h : (value.parts level).find? Part.offends = some part) :
    part.level ≤ maxDepth + 1 := by
  induction value using HostValue.treeInduction generalizing level with
  | sequence items ih =>
    rw [HostValue.parts_sequence] at h
    obtain rfl | ⟨hle, h⟩ := find?_offends_cons h
    · exact hlevel
    · rw [List.find?_flatMap] at h
      obtain ⟨item, hi, h⟩ := List.exists_of_findSome?_eq_some h
      exact ih item hi (Nat.succ_le_succ hle) h
  | map entries ih =>
    rw [HostValue.parts_map] at h
    obtain rfl | ⟨hle, h⟩ := find?_offends_cons h
    · exact hlevel
    · rw [List.find?_flatMap] at h
      obtain ⟨entry, he, h⟩ := List.exists_of_findSome?_eq_some h
      rw [List.find?_append, Option.or_eq_some_iff] at h
      obtain h | ⟨-, h⟩ := h
      · exact (ih entry he).1 (Nat.succ_le_succ hle) h
      · exact (ih entry he).2 (Nat.succ_le_succ hle) h
  | leaf value hleaf =>
    rw [HostValue.parts_leaf hleaf] at h
    obtain rfl | ⟨-, h⟩ := find?_offends_cons h
    · exact hlevel
    · cases h

/-- Encoding works exactly if no part is a function or a foreign value and none lies more than 256
levels down. Otherwise it fails with the first part in pre-order that is one of these: one that lies
too deep lies just below the last level that is followed, and is blamed for that alone. -/
theorem encode_blames_first (value : HostValue) :
    ((∃ encoded, encode value = .ok encoded) ↔
      ∀ part ∈ value.parts 0, part.value.isHostOnly = false ∧ part.level ≤ 256) ∧
    (∀ e, encode value = .error e ↔ ∃ before part after,
      value.parts 0 = before ++ part :: after ∧
      (∀ other ∈ before, other.value.isHostOnly = false ∧ other.level ≤ 256) ∧
      part.Blamed e) ∧
    EncodeError.tooDeep.typeName = "structure nested deeper than 256 levels" ∧
    ∀ name, (EncodeError.unsupported name).typeName = name := by
  have hfails := failsByFirst_encodeAt value 0
  refine ⟨?_, fun e => ?_, rfl, fun _ => rfl⟩
  · rw [encode, hfails.exists_ok_iff, Option.map_eq_none_iff, List.find?_eq_none]
    refine forall₂_congr fun part _ => ?_
    rw [Bool.not_eq_true]
    exact Part.offends_eq_false_iff
  · rw [encode, hfails e, Option.map_eq_some_iff]
    constructor
    · rintro ⟨part, hpart, rfl⟩
      have hlevel := level_of_find?_offends (Nat.zero_le _) hpart
      obtain ⟨hoffends, before, after, hparts, hbefore⟩ := List.find?_eq_some_iff_append.1 hpart
      refine ⟨before, part, after, hparts, fun other ho => ?_,
        Part.blamed_of_offends hlevel hoffends⟩
      exact Part.offends_eq_false_iff.1 (by simpa using hbefore other ho)
    · rintro ⟨before, part, after, hparts, hbefore, hblamed⟩
      obtain ⟨hoffends, hblame⟩ := hblamed.offends
      refine ⟨part, List.find?_eq_some_iff_append.2 ⟨hoffends, before, after, hparts, ?_⟩, hblame⟩
      intro other ho
      rw [Part.offends_eq_false_iff.2 (hbefore other ho), Bool.not_false]

/-- A key comes before its value, and an entry before what follows its map. -/
example :
    encode (.sequence [.map [(.null, .null), (.foreign "channel", .function 0)], .function 1]) =
      .error (.unsupported "channel") :=
  rfl

end HostSheet
