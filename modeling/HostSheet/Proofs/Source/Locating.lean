import HostSheet.Source.Text
import Mathlib.Data.String.Basic

/-!
# Lines and offsets

An offset is located by what stands in front of it: each line feed there is a line. A text behind
whole lines is located as by itself, so many lines further down.
-/

namespace HostSheet

def Location.below (lines : Nat) (l : Location) : Location :=
  ⟨l.line + lines, l.column⟩

namespace Source

-- ---------------------------------------------------------------------------
-- Offsets
-- ---------------------------------------------------------------------------

section
variable {a b s rest : List Char}

theorem byteLength_toList (source : String) : byteLength source.toList = source.utf8ByteSize := by
  have hbytes : ∀ cs, byteLength cs = String.utf8Len cs := by
    intro cs
    induction cs with
    | nil => rfl
    | cons c cs ih => rw [byteLength, ih, String.utf8Len_cons, Nat.add_comm]
  rw [hbytes, ← String.utf8ByteSize_ofList, String.ofList_toList]

theorem byteLength_eq_zero : byteLength s = 0 ↔ s = [] := by
  cases s with
  | nil => simp [byteLength]
  | cons c s => simp [byteLength, Nat.ne_of_gt c.utf8Size_pos]

theorem byteLength_le_of_suffix (h : rest <:+ s) : byteLength rest ≤ byteLength s := by
  obtain ⟨before, rfl⟩ := h
  rw [byteLength_append]
  exact Nat.le_add_left _ _

theorem offsetOf_le (s rest : List Char) : offsetOf s rest ≤ byteLength s :=
  Nat.sub_le _ _

theorem offsetOf_eq_byteLength (h : rest <:+ s) : offsetOf s rest = byteLength s ↔ rest = [] := by
  have hle := byteLength_le_of_suffix h
  rw [offsetOf, ← byteLength_eq_zero]
  omega

theorem offsetOf_append_right (a rest b : List Char) :
    offsetOf (a ++ b) (rest ++ b) = offsetOf a rest := by
  rw [offsetOf, byteLength_append, byteLength_append, offsetOf, Nat.add_sub_add_right]

theorem offsetOf_append_left (a : List Char) (h : rest <:+ b) :
    offsetOf (a ++ b) rest = byteLength a + offsetOf b rest := by
  rw [offsetOf, byteLength_append, offsetOf, Nat.add_sub_assoc (byteLength_le_of_suffix h)]

end

-- ---------------------------------------------------------------------------
-- Walks
-- ---------------------------------------------------------------------------

section
variable {line column byte left : Nat} {c : Char} {a b s : List Char}

@[simp] theorem walk_zero (s : List Char) : walk line column byte 0 s = ⟨line, column⟩ := by
  cases s <;> simp [walk]

theorem walk_cons_add (c : Char) (left : Nat) (s : List Char) :
    walk line column byte (c.utf8Size + left) (c :: s) =
      if c = '\n' then walk (line + 1) 1 1 left s
      else walk line (column + 1) (byte + c.utf8Size) left s := by
  have hpos := c.utf8Size_pos
  rw [walk, if_neg (by omega), if_neg (by omega), Nat.add_sub_cancel_left]

theorem walk_append (b : List Char) (h : left ≤ byteLength a) :
    walk line column byte left (a ++ b) = walk line column byte left a := by
  induction a generalizing line column byte left with
  | nil =>
    obtain rfl := Nat.le_zero.1 h
    rw [walk_zero, walk_zero]
  | cons c a ih =>
    rw [List.cons_append, walk, walk]
    split
    · rfl
    split
    · rfl
    rw [byteLength] at h
    rw [ih (by omega), ih (by omega)]

theorem walk_lines (xs : List Char) (left : Nat) (b : List Char) :
    walk line column byte (byteLength (xs ++ ['\n']) + left) ((xs ++ ['\n']) ++ b) =
      walk (line + (xs ++ ['\n']).count '\n') 1 1 left b := by
  induction xs generalizing line column byte with
  | nil =>
    rw [List.nil_append, List.singleton_append, byteLength, byteLength, Nat.add_zero, walk_cons_add,
      if_pos rfl]
    rfl
  | cons c xs ih =>
    rw [List.cons_append, List.cons_append, byteLength, Nat.add_assoc, walk_cons_add,
      List.count_cons]
    split
    · rename_i hc
      rw [ih, if_pos (by simpa using hc)]
      exact congrArg (walk · 1 1 left b) (by omega)
    · rename_i hc
      rw [ih, if_neg (by simpa using hc), Nat.add_zero]

theorem walk_below (n : Nat) :
    walk (line + n) column byte left s = (walk line column byte left s).below n := by
  induction s generalizing line column byte left with
  | nil =>
    rw [walk, walk]
    split <;> rfl
  | cons c s ih =>
    rw [walk, walk]
    split
    · rfl
    split
    · rfl
    split
    · rw [← ih, Nat.add_right_comm]
    · exact ih

theorem line_walk_byteLength (s : List Char) :
    (walk line column byte (byteLength s) s).line = line + s.count '\n' := by
  induction s generalizing line column byte with
  | nil => simp [byteLength]
  | cons c s ih =>
    rw [byteLength, walk_cons_add, List.count_cons]
    split
    · rename_i hc
      rw [ih, if_pos (by simpa using hc)]
      omega
    · rename_i hc
      rw [ih, if_neg (by simpa using hc), Nat.add_zero]

end

section
variable {a s rest : List Char} {offset : Nat}

theorem locate_append (b : List Char) (h : offset ≤ byteLength a) :
    locate (a ++ b) offset = locate a offset :=
  walk_append b h

/-- Behind whole lines a text is located as by itself, further down. -/
theorem locate_behind (ha : a.getLast? = some '\n') (b : List Char) (offset : Nat) :
    locate (a ++ b) (byteLength a + offset) = (locate b offset).below (a.count '\n') := by
  obtain ⟨xs, rfl⟩ := List.getLast?_eq_some_iff.1 ha
  rw [locate, walk_lines, walk_below]
  rfl

theorem line_locate (before rest : List Char) :
    (locate (before ++ rest) (offsetOf (before ++ rest) rest)).line = before.count '\n' + 1 := by
  rw [offsetOf_append, locate_append rest (Nat.le_refl _), locate, line_walk_byteLength,
    Nat.add_comm]

end

end Source

-- ---------------------------------------------------------------------------
-- Lines
-- ---------------------------------------------------------------------------

theorem Text.length_splitAtEach (cut : Char → Bool) (s : List Char) :
    (splitAtEach cut s).length = s.countP cut + 1 := by
  induction s with
  | nil => rfl
  | cons c s ih =>
    obtain ⟨piece, pieces, hpieces⟩ := List.exists_cons_of_ne_nil (splitAtEach_ne_nil cut s)
    rw [hpieces] at ih
    rw [splitAtEach, hpieces]
    cases hc : cut c with
    | true => rw [List.countP_cons_of_pos hc, ← ih, List.length_cons]
    | false => rw [List.countP_cons_of_neg (by simp [hc]), ← ih, List.length_cons, List.length_cons]

namespace SourceText

variable (s : SourceText)

theorem length_lines : s.lines.length = s.lineCount :=
  List.length_map _

theorem lineCount_of_ends (h : s.content.getLast? = some '\n') :
    s.lineCount = s.content.count '\n' := by
  rw [lineCount, rawLines, if_pos h, List.length_dropLast, Text.length_splitAtEach]
  rfl

theorem lineCount_of_not_ends (h : s.content.getLast? ≠ some '\n') :
    s.lineCount = s.content.count '\n' + 1 := by
  rw [lineCount, rawLines, if_neg h, Text.length_splitAtEach]
  rfl

end SourceText

end HostSheet
