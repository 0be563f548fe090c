import HostSheet.Proofs.Source.Locating
import HostSheet.Sheet.Trivia
import HostSheet.Source.Slice

/-!
# Cutting texts

A text is cut at an offset into parts that make it up again. So a place in the text, given by what
is left from there on, can be sliced off at its offset.
-/

namespace HostSheet.Source

variable {s t rest front : List Char} {n : Nat}

-- ---------------------------------------------------------------------------
-- Cuts
-- ---------------------------------------------------------------------------

theorem cut?_append (front rest : List Char) :
    cut? (front ++ rest) (byteLength front) = some (front, rest) := by
  induction front with
  | nil => cases rest <;> simp [cut?, byteLength]
  | cons c front ih =>
    have hpos := c.utf8Size_pos
    rw [List.cons_append, cut?, byteLength, if_neg (by omega), if_neg (by omega),
      Nat.add_sub_cancel_left, ih]
    rfl

theorem cut?_eq_some :
    cut? s n = some (front, rest) ↔ front ++ rest = s ∧ byteLength front = n := by
  constructor
  · intro h
    induction s generalizing n front with
    | nil =>
      rw [cut?] at h
      split at h
      · rename_i hn
        cases h
        exact ⟨rfl, hn.symm⟩
      · cases h
    | cons c s ih =>
      rw [cut?] at h
      split at h
      · rename_i hn
        cases h
        exact ⟨rfl, hn.symm⟩
      split at h
      · cases h
      · obtain ⟨⟨front', rest'⟩, hcut, e⟩ := Option.map_eq_some_iff.1 h
        cases e
        obtain ⟨hs, hlength⟩ := ih hcut
        exact ⟨by rw [List.cons_append, hs], by rw [byteLength]; omega⟩
  · rintro ⟨rfl, rfl⟩
    exact cut?_append front rest

/-- A text is cut exactly at the positions of its string. -/
theorem isSome_cut? {source : String} :
    (cut? source.toList n).isSome = true ↔ (String.Pos.Raw.mk n).IsValid source := by
  rw [Option.isSome_iff_exists, String.Pos.Raw.isValid_iff_exists_append]
  constructor
  · rintro ⟨⟨front, rest⟩, hcut⟩
    obtain ⟨hs, rfl⟩ := cut?_eq_some.1 hcut
    refine ⟨String.ofList front, String.ofList rest, ?_, ?_⟩
    · rw [← String.ofList_append, hs, String.ofList_toList]
    · rw [String.rawEndPos, ← byteLength_toList, String.toList_ofList]
  · rintro ⟨front, rest, rfl, hn⟩
    cases hn
    rw [String.toList_append, ← byteLength_toList]
    exact ⟨_, cut?_append front.toList rest.toList⟩

theorem sliceFrom?_append (front rest : List Char) :
    sliceFrom? (front ++ rest) (byteLength front) = some rest := by
  rw [sliceFrom?, cut?_append]
  rfl

theorem sliceTo?_append (front rest : List Char) :
    sliceTo? (front ++ rest) (byteLength front) = some front := by
  rw [sliceTo?, cut?_append]
  rfl

-- ---------------------------------------------------------------------------
-- Places
-- ---------------------------------------------------------------------------

theorem add_offsetOf (front : List Char) (h : front ++ rest <:+ s) :
    offsetOf s (front ++ rest) + byteLength front = offsetOf s rest := by
  have hle := byteLength_le_of_suffix h
  rw [byteLength_append] at hle
  rw [offsetOf, offsetOf, byteLength_append]
  omega

@[simp] theorem offsetOf_self (s : List Char) : offsetOf s s = 0 :=
  Nat.sub_self _

theorem sliceFrom?_offsetOf (h : rest <:+ s) : sliceFrom? s (offsetOf s rest) = some rest := by
  obtain ⟨front, rfl⟩ := h
  rw [offsetOf_append, sliceFrom?_append]

theorem sliceTo?_offsetOf (h : front ++ rest = s) : sliceTo? s (offsetOf s rest) = some front := by
  rw [← h, offsetOf_append, sliceTo?_append]

theorem slice?_offsetOf (h : front ++ rest <:+ s) :
    slice? s (offsetOf s (front ++ rest)) (offsetOf s rest) = some front := by
  obtain ⟨before, rfl⟩ := h
  have hstop : offsetOf (before ++ (front ++ rest)) rest = byteLength (before ++ front) := by
    rw [← List.append_assoc, offsetOf_append]
  rw [slice?, hstop, ← List.append_assoc, sliceTo?_append, List.append_assoc, offsetOf_append]
  exact sliceFrom?_append before front

-- ---------------------------------------------------------------------------
-- Searches
-- ---------------------------------------------------------------------------

theorem findChar?_getD (p : Char → Bool) (s : List Char) :
    (findChar? p s).getD (byteLength s) = byteLength (s.takeWhile (!p ·)) := by
  induction s with
  | nil => rfl
  | cons c s ih =>
    rw [findChar?, List.takeWhile_cons]
    cases hc : p c with
    | true => rfl
    | false =>
      simp only [Bool.false_eq_true, if_false, Bool.not_false, if_true, byteLength, ← ih]
      cases findChar? p s <;> rfl

theorem findChar?_offsetOf (p : Char → Bool) (s : List Char) :
    (findChar? p s).getD (byteLength s) = offsetOf s (s.dropWhile (!p ·)) := by
  have htext := offsetOf_append (s.takeWhile (!p ·)) (s.dropWhile (!p ·))
  rw [findChar?_getD, ← htext, List.takeWhile_append_dropWhile]

theorem find?_close (s : List Char) :
    find? ['*', '/'] s = (closeComment s).map fun closed => byteLength closed.1 := by
  fun_induction closeComment s with
  | case1 => rfl
  | case2 s => rfl
  | case3 c s hopen ih =>
    have hprefix : ['*', '/'].isPrefixOf (c :: s) = false := by
      cases s with
      | nil => cases hc : '*' == c <;> simp [List.isPrefixOf]
      | cons d s =>
        have hne : ¬ ('*' = c ∧ '/' = d) := by
          rintro ⟨rfl, rfl⟩
          exact hopen s rfl rfl
        simpa [List.isPrefixOf] using hne
    rw [find?, hprefix, ih, Option.map_map, if_neg (by decide), Option.map_map]
    rfl

-- ---------------------------------------------------------------------------
-- Comments
-- ---------------------------------------------------------------------------

theorem isPrefixOf_pair {a b : Char} :
    [a, b].isPrefixOf s = true ↔ ∃ t, s = a :: b :: t := by
  rw [List.isPrefixOf_iff_prefix]
  exact ⟨fun ⟨t, ht⟩ => ⟨t, ht.symm⟩, fun ⟨t, ht⟩ => ⟨t, ht.symm⟩⟩

theorem sliceFrom?_pair {a b : Char} (ha : a.utf8Size = 1) (hb : b.utf8Size = 1) (t : List Char) :
    sliceFrom? (a :: b :: t) 2 = some t := by
  have hslice := sliceFrom?_append [a, b] t
  rwa [byteLength, byteLength, ha, hb] at hslice

theorem byteLength_comment (inside : List Char) :
    byteLength ('/' :: '*' :: inside ++ ['*', '/']) = byteLength inside + 4 := by
  have hslash : '/'.utf8Size = 1 := rfl
  have hstar : '*'.utf8Size = 1 := rfl
  rw [byteLength_append]
  simp only [byteLength, hslash, hstar]
  omega

end HostSheet.Source
