import HostSheet.Cursor.Block
import HostSheet.Proofs.Cursor.Expressions
import HostSheet.Proofs.Cursor.Scans

/-!
# Sheets read by a cursor

A cursor that starts in front of a text comes to the sheet or the value that is read from the text,
or it reports the same error.
-/

namespace HostSheet.CursorM

variable {source : List Char} {depth : Nat} {s : List Char}

-- ---------------------------------------------------------------------------
-- Headings
-- ---------------------------------------------------------------------------

section
variable {isMark : Char → Bool} {mark : Char}

theorem exec_bytesBefore? (hs : s <:+ source) :
    (bytesBefore? isMark mark).exec source (.facing source s depth) =
      some (.ok ((textBefore? isMark mark s).map fun name => Source.offsetOf s (mark :: name.rest),
        .facing source s depth)) := by
  cases htext : textBefore? isMark mark s with
  | none => exact exec_bytesBefore?_none hs htext
  | some name => exact exec_bytesBefore?_some hs htext

theorem exec_advance_mark {name : Taken (List Char) s} (hmark : mark.utf8Size = 1)
    (h : textBefore? isMark mark s = some name) (hs : s <:+ source) :
    (advance (Source.offsetOf s (mark :: name.rest) + 1)).exec source (.facing source s depth) =
      some (.ok ((), .facing source name.rest depth)) := by
  obtain ⟨before, hfound, -⟩ := findMark_of_textBefore? h
  have hbytes := Source.add_offsetOf [mark] (findMark_suffix hfound)
  rw [Source.byteLength, hmark] at hbytes
  have hjump : Source.offsetOf s (mark :: name.rest) + 1 = Source.offsetOf s name.rest := hbytes
  rw [hjump]
  exact exec_advance_offsetOf (textBefore?_suffix h) hs

end

-- ---------------------------------------------------------------------------
-- Declarations
-- ---------------------------------------------------------------------------

theorem tracks_endDeclaration (hs : s <:+ source) :
    Tracks source depth endDeclaration s (declarationEnd s) (fun _ => ()) Skipped.rest := by
  rw [endDeclaration]
  refine .step (exec_peek hs) ?_
  fun_cases declarationEnd s with
  | case1 s =>
    rw [List.head?_cons, if_pos rfl]
    exact .step (exec_bump hs) (.pure ((List.suffix_cons _ _).trans hs) rfl rfl)
  | case2 s =>
    rw [List.head?_cons, if_neg (by decide), if_pos rfl]
    exact .pure hs rfl rfl
  | case3 s hsemicolon hclose =>
    rw [if_neg, if_neg, declarationEnd.eq_3 s hsemicolon hclose]
    · exact .fail hs _
    · intro hhead
      obtain ⟨t, rfl⟩ := List.head?_eq_some_iff.1 hhead
      exact hclose t rfl
    · intro hhead
      obtain ⟨t, rfl⟩ := List.head?_eq_some_iff.1 hhead
      exact hsemicolon t rfl

theorem tracks_parseDeclaration {value : Reader RawExpr}
    (hvalue : TracksReader source depth parseCommaList value (Expr.mapPlaces (placeIn source))) :
    TracksReader source depth parseDeclaration (readDeclaration value)
      (Declaration.mapPlaces (placeIn source)) := by
  intro s hs
  rw [readDeclaration]
  refine .step exec_offset (.step (exec_bytesBefore? hs) ?_)
  cases hname : textBefore? isPropertyMark ':' s with
  | none => exact .fail hs _
  | some name =>
    refine .step (exec_textAhead hs hname) (.branch (fun _ => .fail hs _) fun _ => ?_)
    refine .step (exec_advance_mark rfl hname hs) ?_
    have hs' := (textBefore?_suffix hname).trans hs
    refine .bind (tracks_skipTrivia hs') fun blank _ hs => ?_
    refine .bind (hvalue hs) fun v _ hs => ?_
    refine .bind (tracks_skipTrivia hs) fun blank' _ hs => ?_
    exact .bind (tracks_endDeclaration hs) fun ended _ hs => .step rfl (.pure hs rfl rfl)

-- ---------------------------------------------------------------------------
-- Rules
-- ---------------------------------------------------------------------------

section
variable {rule : Reader RawRule} {value : Reader RawExpr}
  (hrule : TracksDeeper source depth parseRule rule (Rule.mapPlaces (placeIn source)))
  (hvalue : TracksReader source depth parseCommaList value (Expr.mapPlaces (placeIn source)))
include hrule hvalue

theorem tracks_parseBlock (hs : s <:+ source) :
    Tracks source depth parseBlock s (blockItems rule value s)
      (fun items => Item.mapPlacesAll (placeIn source) items.value) Taken.rest := by
  induction hn : s.length using Nat.strongRecOn generalizing s with
  | ind n ih =>
    rw [parseBlock, blockItems]
    refine .bind (tracks_skipTrivia hs) fun blank _ hs => .step (exec_peek hs) ?_
    cases hclosed : takeChar? '}' blank.rest with
    | some closed =>
      rw [head?_of_takeChar? hclosed]
      exact .step (exec_bump_taken hclosed hs) (.pure ((takeChar?_suffix hclosed).trans hs) rfl rfl)
    | none =>
      cases hsemicolon : takeChar? ';' blank.rest with
      | some semicolon =>
        rw [head?_of_takeChar? hsemicolon]
        have hshorter := hn ▸ (blank.andTake semicolon).shorter
        have hs' := (takeChar?_suffix hsemicolon).trans hs
        refine .step (exec_bump_taken hsemicolon hs) ?_
        exact (ih _ hshorter hs' rfl).wrap (fun _ => rfl) fun _ => rfl
      | none =>
        cases hhead : blank.rest.head? with
        | none =>
          rw [if_pos (List.isEmpty_iff.2 (List.head?_eq_none_iff.1 hhead))]
          exact .fail hs _
        | some c =>
          have hclose : c ≠ '}' := fun hc => takeChar?_none.1 hclosed (hc ▸ hhead)
          have hnext : c ≠ ';' := fun hc => takeChar?_none.1 hsemicolon (hc ▸ hhead)
          have hne : ¬ blank.rest.isEmpty := fun h => by simp [List.isEmpty_iff.1 h] at hhead
          simp only
          rw [startsRule, if_neg hclose, if_neg hnext, if_neg hne]
          refine .step (exec_bytesBefore? hs) ?_
          rw [Option.isSome_map]
          refine .branch (fun _ => ?_) fun _ => ?_
          · refine .nested hs hrule fun r _ hs => ?_
            have hshorter := hn ▸ (blank.andTake r).shorter
            exact .bind (ih _ hshorter hs rfl) fun more _ hs => .pure hs rfl rfl
          · refine .bind (tracks_parseDeclaration hvalue hs) fun d _ hs => ?_
            have hshorter := hn ▸ (blank.andTake d).shorter
            exact .bind (ih _ hshorter hs rfl) fun more _ hs => .pure hs rfl rfl

theorem tracks_ruleWith :
    TracksReader source depth parseRule (ruleWith rule value)
      (Rule.mapPlaces (placeIn source)) := by
  intro s hs
  rw [parseRule, ruleWith]
  refine .step exec_offset (.step (exec_bytesBefore? hs) ?_)
  cases htext : textBefore? isBlockMark '{' s with
  | none => exact .fail hs _
  | some text =>
    refine .step (exec_textAhead hs htext) (.branch (fun _ => .fail hs _) fun _ => ?_)
    refine .step (exec_advance_mark rfl htext hs) ?_
    have hs' := (textBefore?_suffix htext).trans hs
    exact .bind (tracks_parseBlock hrule hvalue hs') fun items _ hs => .step rfl (.pure hs rfl rfl)

end

/-- Rules are read with as many levels as the cursor may still enter. -/
theorem tracks_parseRule (source : List Char) (depth : Nat) :
    TracksReader source depth parseRule (readRule (maxNesting - depth))
      (Rule.mapPlaces (placeIn source)) := by
  have hvalue := tracks_parseCommaList source depth
  generalize hlevels : maxNesting - depth = levels at hvalue ⊢
  induction levels generalizing depth with
  | zero => exact tracks_ruleWith ⟨fun _ => rfl, fun h => absurd h (by omega)⟩ hvalue
  | succ levels ih =>
    have hdeeper : maxNesting - (depth + 1) = levels := by omega
    refine tracks_ruleWith ⟨fun h => absurd h (by omega), fun _ => ?_⟩ hvalue
    exact ih _ hdeeper (hdeeper ▸ tracks_parseCommaList source (depth + 1))

theorem tracks_parseRules (hs : s <:+ source) :
    Tracks source 0 parseRules s (readRules s)
      (fun rules => rules.map (Rule.mapPlaces (placeIn source))) fun _ => [] := by
  induction hn : s.length using Nat.strongRecOn generalizing s with
  | ind n ih =>
    rw [parseRules, readRules]
    refine .bind (tracks_skipTrivia hs) fun blank _ hs => .step (exec_peek hs) ?_
    have hend : blank.rest.head?.isNone = blank.rest.isEmpty := by cases blank.rest <;> rfl
    rw [hend]
    refine .branch (fun hend => ?_) fun _ => ?_
    · exact .pure hs rfl (List.isEmpty_iff.1 hend).symm
    · refine .bind (tracks_parseRule source 0 hs) fun rule _ hs => ?_
      have hshorter := hn ▸ (blank.andTake rule).shorter
      exact .bind (ih _ hshorter hs rfl) fun more _ hs => .pure hs rfl rfl

theorem tracks_parseWhole (hs : s <:+ source) :
    Tracks source 0 parseWhole s (readWhole s) (Expr.mapPlaces (placeIn source)) fun _ => [] := by
  rw [readWhole]
  refine .bind (tracks_skipTrivia hs) fun blank _ hs => ?_
  refine .bind (tracks_parseCommaList source 0 hs) fun value _ hs => ?_
  refine .bind (tracks_skipTrivia hs) fun blank' _ hs => .step (exec_peek hs) ?_
  generalize blank'.rest = t at hs ⊢
  cases t with
  | nil => exact .pure hs rfl rfl
  | cons c t => exact .fail hs _

end HostSheet.CursorM
