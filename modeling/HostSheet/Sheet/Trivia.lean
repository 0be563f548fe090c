import HostSheet.Sheet.Reader
import HostSheet.Text.Blank

/-!
# Blank space and comments

Between the tokens of a sheet there may be blanks, comments from `/*` to `*/` and comments from `//`
to the end of the line. `skipTrivia` passes over all of them.
-/

namespace HostSheet

def closeComment : List Char → Option (List Char × List Char)
  | [] => none
  | '*' :: '/' :: s => some ([], s)
  | c :: s => (closeComment s).map fun (inside, after) => (c :: inside, after)

theorem length_closeComment {s inside after : List Char}
    (h : closeComment s = some (inside, after)) : after.length < s.length := by
  fun_induction closeComment s generalizing inside with
  | case1 => simp at h
  | case2 s =>
    simp only [Option.some.injEq, Prod.mk.injEq] at h
    simp only [← h.2, List.length_cons]
    omega
  | case3 c s _ ih =>
    obtain ⟨⟨inside', after'⟩, h', e⟩ := Option.map_eq_some_iff.1 h
    simp only [Prod.mk.injEq] at e
    obtain ⟨-, rfl⟩ := e
    have := ih h'
    simp only [List.length_cons]
    omega

theorem closeComment_eq {s inside after : List Char}
    (h : closeComment s = some (inside, after)) :
    inside ++ '*' :: '/' :: after = s := by
  fun_induction closeComment s generalizing inside with
  | case1 => simp at h
  | case2 s => simp at h; simp [← h.1, ← h.2]
  | case3 c s _ ih =>
    obtain ⟨⟨inside', after'⟩, h', e⟩ := Option.map_eq_some_iff.1 h
    simp only [Prod.mk.injEq] at e
    obtain ⟨rfl, rfl⟩ := e
    simp [ih h']

/-- The text from the end of the line on; the line feed is still there. -/
def dropLine (s : List Char) : List Char :=
  s.dropWhile (· != '\n')

theorem length_dropLine_le (s : List Char) : (dropLine s).length ≤ s.length :=
  (List.dropWhile_sublist _).length_le

def readComment? : (s : List Char) → Except Fault (Option (Taken Unit s))
  | '/' :: '/' :: s =>
    .ok (some (((⟨(), dropLine s, length_dropLine_le s⟩ : Skipped Unit s).behind '/').behind '/'))
  | '/' :: '*' :: s =>
    match h : closeComment s with
    | none => .error ⟨.unterminatedComment, '/' :: '*' :: s⟩
    | some (_, after) =>
      .ok (some (((⟨(), after, length_closeComment h⟩ : Taken Unit s).behind '*').behind '/'))
  | _ => .ok none

def skipBlanks (s : List Char) : Skipped Unit s :=
  ⟨(), Text.trimStart s, Text.length_trimStart_le s⟩

def skipTrivia (s : List Char) : Except Fault (Skipped Unit s) := do
  match ← readComment? (skipBlanks s).rest with
  | none => return skipBlanks s
  | some comment =>
    let more ← skipTrivia comment.rest
    return ((skipBlanks s).andTake comment).toSkipped.andSkip more
termination_by s.length
decreasing_by exact ((skipBlanks s).andTake comment).shorter

end HostSheet
