import HostSheet.Proofs.Cursor.Blocks

/-!
# Reading comes to an end

A cursor has no result if it slices a text off its boundaries or goes on for ever. It has one on
every text, since it tracks the readers.
-/

namespace HostSheet

namespace CursorM

-- ---------------------------------------------------------------------------
-- Places in strings
-- ---------------------------------------------------------------------------

def Within (source : String) (e : SyntaxError) : Prop :=
  e.offset ≤ source.utf8ByteSize ∧ (String.Pos.Raw.mk e.offset).IsValid source

def ReportsWithin {α : Type} (source : String) : Except SyntaxError α → Prop
  | .ok _ => True
  | .error e => Within source e

/-- Wherever the cursor starts, at a boundary and at any depth, it comes to an end. Either it has
passed over some text, and is at the depth it started at, or it reports an error within the text. -/
def Advances {α : Type} (p : CursorM α) : Prop :=
  ∀ (front rest : String) (depth : Nat),
    (∃ (a : α) (taken behind : String), taken ≠ "" ∧ taken ++ behind = rest ∧
      p.exec (front ++ rest).toList ⟨front.utf8ByteSize, depth⟩ =
        some (.ok (a, ⟨(front ++ taken).utf8ByteSize, depth⟩))) ∨
    ∃ e, Within (front ++ rest) e ∧
      p.exec (front ++ rest).toList ⟨front.utf8ByteSize, depth⟩ = some (.error e)

section
variable {α β : Type} {source : String} {s rest : List Char}

theorem within_inSource {fault : Fault} (h : fault.rest <:+ source.toList) :
    Within source (fault.inSource source.toList) := by
  obtain ⟨front, hfront⟩ := h
  refine ⟨?_, Source.isSome_cut?.1 ?_⟩
  · rw [← Source.byteLength_toList]
    exact Source.offsetOf_le _ _
  · rw [Fault.inSource, ← hfront, Source.offsetOf_append, Source.cut?_append]
    rfl

theorem facing_toList (front rest : String) (depth : Nat) :
    Cursor.facing (front ++ rest).toList rest.toList depth = ⟨front.utf8ByteSize, depth⟩ := by
  rw [Cursor.facing, String.toList_append, Source.offsetOf_append, Source.byteLength_toList]

/-- What tracks a reader advances, since what a reader leaves is shorter. -/
theorem advances_of_tracks {p : CursorM β} {read : Nat → Reader α} {f : List Char → α → β}
    (h : ∀ source depth, TracksReader source depth p (read depth) (f source)) : Advances p := by
  intro front rest depth
  have hs : rest.toList <:+ (front ++ rest).toList :=
    ⟨front.toList, String.toList_append.symm⟩
  have htracks := h _ depth hs
  rw [← facing_toList front rest]
  cases hread : read depth rest.toList with
  | error fault =>
    rw [hread] at htracks
    exact .inr ⟨_, within_inSource htracks.2, htracks.1⟩
  | ok taken =>
    rw [hread] at htracks
    obtain ⟨passed, hpassed⟩ :=
      List.suffix_of_suffix_length_le htracks.2 hs (Nat.le_of_lt taken.shorter)
    have hrest : String.ofList passed ++ String.ofList taken.rest = rest := by
      rw [← String.ofList_append, hpassed, String.ofList_toList]
    refine .inl ⟨f (front ++ rest).toList taken.value, String.ofList passed,
      String.ofList taken.rest, ?_, hrest, ?_⟩
    · intro hnil
      rw [String.ofList_eq_empty_iff.1 hnil, List.nil_append] at hpassed
      exact Nat.ne_of_lt taken.shorter (congrArg List.length hpassed)
    · have hnext := facing_toList (front ++ String.ofList passed) (String.ofList taken.rest) depth
      rw [String.append_assoc, hrest, String.toList_ofList] at hnext
      rw [← hnext]
      exact htracks.1

/-- A cursor that starts in front of a text comes to the end that the reader comes to. -/
theorem parse_of_tracks {p : CursorM β} {x : Except Fault α} {value : α → β}
    {behind : α → List Char} (h : Tracks source.toList 0 p source.toList x value behind)
    {result : Except SyntaxError β}
    (hresult : (x.map value).mapError (Fault.inSource source.toList) = result) :
    parse p source = some result ∧ ReportsWithin source result := by
  have hstart : (⟨0, 0⟩ : Cursor) = .facing source.toList source.toList 0 := by
    rw [Cursor.facing, Source.offsetOf_self]
  subst hresult
  rw [parse, hstart]
  cases x with
  | ok a =>
    rw [h.1]
    exact ⟨rfl, trivial⟩
  | error fault =>
    rw [h.1]
    exact ⟨rfl, within_inSource h.2⟩

end

-- ---------------------------------------------------------------------------
-- Sheets and values
-- ---------------------------------------------------------------------------

theorem parse_parseRules (source : String) :
    parse parseRules source = some (Sheet.parse source) ∧
      ReportsWithin source (Sheet.parse source) := by
  refine parse_of_tracks (tracks_parseRules (List.suffix_refl _)) ?_
  rw [Sheet.parse]
  cases readRules source.toList <;> rfl

theorem parse_parseWhole (source : String) :
    parse parseWhole source = some (Expr.parse source) ∧
      ReportsWithin source (Expr.parse source) := by
  refine parse_of_tracks (tracks_parseWhole (List.suffix_refl _)) ?_
  rw [Expr.parse]
  cases readWhole source.toList <;> rfl

/-- On every text a cursor comes to the sheet or the value that is read from the text, or to an
error within it: it stops, and every slice on its way exists. Each primary, space list, declaration
and rule takes it forward, and the depth is what it was. -/
theorem parse_total :
    (∀ source : String,
      (parse parseRules source = some (Sheet.parse source) ∧
        ReportsWithin source (Sheet.parse source)) ∧
      (parse parseWhole source = some (Expr.parse source) ∧
        ReportsWithin source (Expr.parse source))) ∧
    Advances parsePrimary ∧ Advances parseSpaceList ∧
    Advances parseDeclaration ∧ Advances parseRule := by
  refine ⟨fun source => ⟨parse_parseRules source, parse_parseWhole source⟩, ?_, ?_, ?_, ?_⟩
  · exact advances_of_tracks tracks_parsePrimary
  · exact advances_of_tracks fun source depth =>
      tracks_parseSpaceList (tracks_parsePrimary source depth)
  · exact advances_of_tracks fun source depth =>
      tracks_parseDeclaration (tracks_parseCommaList source depth)
  · exact advances_of_tracks tracks_parseRule

end CursorM

end HostSheet
