import HostSheet.Cursor.Expression
import HostSheet.Proofs.Cursor.Literals
import HostSheet.Proofs.Sheet.Retexting

/-!
# Expressions read by a cursor

The cursor reads what the readers read. Where they are given the levels that are left, it counts
those that it has entered.
-/

namespace HostSheet.CursorM

variable {source : List Char} {depth : Nat} {s : List Char}

-- ---------------------------------------------------------------------------
-- Readers
-- ---------------------------------------------------------------------------

theorem atClose_some {closed : Taken Unit s} (h : takeChar? ')' s = some closed) :
    atClose s = true :=
  takeChar?_elim h fun _ => rfl

theorem atClose_none (h : takeChar? ')' s = none) : ¬ atClose s = true := by
  rw [takeChar?_none] at h
  cases s with
  | nil => exact Bool.false_ne_true
  | cons c s => simpa [atClose] using h

theorem entryValue_bind {α : Type} {item : Reader RawExpr} {blank : Skipped Unit s}
    {colon : Taken Unit blank.rest}
    (hblank : HostSheet.skipTrivia s = .ok blank) (hcolon : takeChar? ':' blank.rest = some colon)
    (k : Taken RawExpr s → Except Fault α) :
    entryValue item s >>= k = HostSheet.skipTrivia colon.rest >>= fun blank' =>
      item blank'.rest >>= fun value =>
        k (blank.andTake (colon.andTake (blank'.andTake value))) := by
  rw [entryValue, hblank, ok_bind, expect_of_takeChar? hcolon, ok_bind]
  simp only [bind_assoc, pure_bind]

theorem mapPlacesItems_getD (f : List Char → Location) (items : Option (List RawExpr)) :
    (items.map (Expr.mapPlacesItems f)).getD [] = Expr.mapPlacesItems f (items.getD []) := by
  cases items <;> rfl

theorem commaValue_mapPlaces (f : List Char → Location) (first : RawExpr)
    (items : Option (List RawExpr)) :
    commaValue (first.mapPlaces f) (items.map (Expr.mapPlacesItems f)) =
      (commaExpr first items).mapPlaces f := by
  cases items <;> rfl

-- ---------------------------------------------------------------------------
-- Lists
-- ---------------------------------------------------------------------------

section
variable {item : Reader RawExpr}

theorem tracks_spaceLoop
    (hitem : TracksReader source depth parsePrimary item (Expr.mapPlaces (placeIn source)))
    (hs : s <:+ source) :
    Tracks source depth spaceLoop s (spaceItems item s)
      (fun items => Expr.mapPlacesItems (placeIn source) items.value) Skipped.rest := by
  induction hn : s.length using Nat.strongRecOn generalizing s with
  | ind n ih =>
    rw [spaceLoop, spaceItems]
    refine .bind (tracks_skipTrivia hs) fun blank _ hs => .step (exec_rest hs) ?_
    refine .branch (fun _ => .pure hs rfl rfl) fun _ => ?_
    refine .bind (hitem hs) fun first _ hs => ?_
    have hshorter := hn ▸ (blank.andTake first).shorter
    exact .bind (ih _ hshorter hs rfl) fun more _ hs => .pure hs rfl rfl

theorem tracks_parseSpaceList
    (hitem : TracksReader source depth parsePrimary item (Expr.mapPlaces (placeIn source))) :
    TracksReader source depth parseSpaceList (spaceList item)
      (Expr.mapPlaces (placeIn source)) := by
  intro s hs
  rw [parseSpaceList, spaceList]
  refine .step (exec_rest hs) (.branch (fun _ => .fail hs _) fun _ => ?_)
  refine .bind (hitem hs) fun first _ hs => ?_
  refine .bind (tracks_spaceLoop hitem hs) fun more _ hs => .pure hs ?_ rfl
  exact (mapPlaces_collapse ..).trans (by rw [Expr.mapPlacesItems_eq]; rfl)

variable (hitem : TracksReader source depth parseSpaceList item (Expr.mapPlaces (placeIn source)))
include hitem

theorem tracks_commaLoop (atEnd : List Char → Bool) (hs : s <:+ source) :
    Tracks source depth (commaLoop atEnd) s (commaItems item atEnd s)
      (fun items => items.value.map (Expr.mapPlacesItems (placeIn source))) Skipped.rest := by
  induction hn : s.length using Nat.strongRecOn generalizing s with
  | ind n ih =>
    rw [commaLoop, commaItems]
    refine .bind (tracks_skipTrivia hs) fun blank _ hs => ?_
    cases hcomma : takeChar? ',' blank.rest with
    | none => exact .eat_none hcomma hs (.pure hs rfl rfl)
    | some comma =>
      refine .eat_some hcomma hs fun hs => ?_
      refine .bind (tracks_skipTrivia hs) fun blank' _ hs => .step (exec_rest hs) ?_
      refine .branch (fun _ => .pure hs rfl rfl) fun _ => ?_
      refine .bind (hitem hs) fun first _ hs => ?_
      have hshorter := hn ▸ (blank.andTake (comma.andTake (blank'.andTake first))).shorter
      refine .bind (ih _ hshorter hs rfl) fun more _ hs => .pure hs ?_ rfl
      exact congrArg (fun items => some (first.value.mapPlaces _ :: items))
        (mapPlacesItems_getD _ more.value).symm

-- ---------------------------------------------------------------------------
-- Groups and calls
-- ---------------------------------------------------------------------------

theorem tracks_parseEntryValue :
    TracksReader source depth parseEntryValue (entryValue item)
      (Expr.mapPlaces (placeIn source)) := by
  intro s hs
  rw [parseEntryValue, entryValue]
  refine .bind (tracks_skipTrivia hs) fun blank _ hs => ?_
  refine .bind (tracks_expect ':' hs) fun colon _ hs => ?_
  refine .bind (tracks_skipTrivia hs) fun blank' _ hs => ?_
  exact (hitem hs).wrap (fun _ => rfl) fun _ => rfl

theorem tracks_entryLoop (hs : s <:+ source) :
    Tracks source depth entryLoop s (mapItems item s)
      (fun entries => Expr.mapPlacesEntries (placeIn source) entries.value) Skipped.rest := by
  induction hn : s.length using Nat.strongRecOn generalizing s with
  | ind n ih =>
    rw [entryLoop, mapItems]
    refine .bind (tracks_skipTrivia hs) fun blank _ hs => ?_
    cases hcomma : takeChar? ',' blank.rest with
    | none => exact .eat_none hcomma hs (.pure hs rfl rfl)
    | some comma =>
      refine .eat_some hcomma hs fun hs => ?_
      refine .bind (tracks_skipTrivia hs) fun blank' _ hs => .step (exec_rest hs) ?_
      refine .branch (fun _ => .pure hs rfl rfl) fun _ => ?_
      refine .bind (hitem hs) fun key _ hs => ?_
      refine .bind (tracks_parseEntryValue hitem hs) fun value _ hs => ?_
      have hshorter := hn ▸
        (blank.andTake (comma.andTake (blank'.andTake (key.andTake value)))).shorter
      exact .bind (ih _ hshorter hs rfl) fun more _ hs => .pure hs rfl rfl

theorem tracks_parseGroupRest (first : RawExpr) (hs : s <:+ source) :
    Tracks source depth (parseGroupRest (first.mapPlaces (placeIn source))) s
      (groupRest item first s) (fun group => group.value.mapPlaces (placeIn source))
      Skipped.rest := by
  rw [parseGroupRest, groupRest]
  refine .bind (tracks_skipTrivia hs) fun blank hblank hrest => ?_
  cases hcolon : takeChar? ':' blank.rest with
  | some colon =>
    refine .eat_some hcolon hrest fun hs => ?_
    simp only [entryValue_bind hblank hcolon]
    refine .bind (tracks_skipTrivia hs) fun blank' _ hs => ?_
    refine .bind (hitem hs) fun value _ hs => ?_
    exact .bind (tracks_entryLoop hitem hs) fun more _ hs => .pure hs rfl rfl
  | none =>
    refine .eat_none hcolon hrest ?_
    have hagain : (commaLoop atClose).exec source (.facing source blank.rest depth) =
        (commaLoop atClose).exec source (.facing source s depth) := by
      rw [commaLoop, exec_bind_ok (exec_skipTrivia hblank hs),
        exec_bind_ok (exec_skipTrivia_again hblank hrest)]
    exact .bind ((tracks_commaLoop hitem atClose hs).of_exec hagain) fun more _ hs =>
      .pure hs (commaValue_mapPlaces _ first more.value).symm rfl

theorem tracks_parseGroup :
    TracksReader source depth parseGroup (readGroup item) (Expr.mapPlaces (placeIn source)) := by
  intro s hs
  rw [parseGroup, readGroup]
  refine .bind (tracks_expect '(' hs) fun opened _ hs => ?_
  refine .bind (tracks_skipTrivia hs) fun blank _ hs => ?_
  cases hclosed : takeChar? ')' blank.rest with
  | some closed =>
    rw [if_pos (atClose_some hclosed), expect_of_takeChar? hclosed, ok_bind]
    exact .eat_some hclosed hs fun hs => .pure hs rfl rfl
  | none =>
    rw [if_neg (atClose_none hclosed)]
    refine .eat_none hclosed hs ?_
    refine .bind (hitem hs) fun first _ hs => ?_
    refine .bind (tracks_parseGroupRest hitem first.value hs) fun group _ hs => ?_
    exact .bind (tracks_expect ')' hs) fun closed _ hs => .pure hs rfl rfl

theorem tracks_argumentLoop (hs : s <:+ source) :
    Tracks source depth argumentLoop s (argumentItems item s)
      (fun args => Expr.mapPlacesItems (placeIn source) args.value) Taken.rest := by
  induction hn : s.length using Nat.strongRecOn generalizing s with
  | ind n ih =>
    rw [argumentLoop, argumentItems]
    refine .bind (tracks_skipTrivia hs) fun blank _ hs => ?_
    cases hclosed : takeChar? ')' blank.rest with
    | some closed =>
      rw [if_pos (atClose_some hclosed), expect_of_takeChar? hclosed, ok_bind]
      exact .eat_some hclosed hs fun hs => .pure hs rfl rfl
    | none =>
      rw [if_neg (atClose_none hclosed)]
      refine .eat_none hclosed hs ?_
      refine .bind (hitem hs) fun first _ hs => ?_
      refine .bind (tracks_skipTrivia hs) fun blank' hblank' hs => ?_
      cases hcomma : takeChar? ',' blank'.rest with
      | some comma =>
        refine .eat_some hcomma hs fun hs => ?_
        have hshorter := hn ▸ (blank.andTake (first.andTake (blank'.andTake comma))).shorter
        exact .bind (ih _ hshorter hs rfl) fun more _ hs => .pure hs rfl rfl
      | none =>
        refine .eat_none hcomma hs (.step (exec_skipTrivia_again hblank' hs) ?_)
        exact .bind (tracks_expect ')' hs) fun closed _ hs => .pure hs rfl rfl

theorem tracks_parseArguments :
    TracksReader source depth parseArguments (readArguments item)
      (Expr.mapPlacesItems (placeIn source)) := by
  intro s hs
  rw [parseArguments, readArguments]
  refine .bind (tracks_expect '(' hs) fun opened _ hs => ?_
  exact (tracks_argumentLoop hitem hs).wrap (fun _ => rfl) fun _ => rfl

end

-- ---------------------------------------------------------------------------
-- Primaries
-- ---------------------------------------------------------------------------

theorem isNameChar_of_starts {c : Char} (h : isNameStart c = true ∨ c = '-') :
    isNameChar c = true := by
  obtain h | rfl := h
  · exact isNameChar_of_isNameStart h
  · rfl

theorem startsAfterHyphen_eq (s : List Char) :
    startsAfterHyphen s = s.head?.any fun c => isNameStart c || c == '-' := by
  cases s <;> rfl

theorem exists_name {c : Char} (h : ¬ (c = '-' ∧ ¬ startsAfterHyphen s)) :
    ∃ name, readName (c :: s) = .ok name ∧
      name.value = String.ofList (c :: s.takeWhile isNameChar) ∧
      name.rest = s.dropWhile isNameChar :=
  ⟨_, if_neg h, rfl, rfl⟩

theorem tracks_parseNameOrCall {arguments : Reader (List RawExpr)} {c : Char}
    (harguments : TracksDeeper source depth parseArguments arguments
      (Expr.mapPlacesItems (placeIn source)))
    (hc : isNameStart c = true ∨ c = '-') (hs : c :: s <:+ source) :
    Tracks source depth parseNameOrCall (c :: s) (readNameOrCall arguments (c :: s))
      (fun taken => taken.value.mapPlaces (placeIn source)) Taken.rest := by
  rw [parseNameOrCall, readNameOrCall]
  refine .step exec_offset (.step (exec_peek hs) (.step (exec_peekSecond hs) ?_))
  rw [List.head?_cons, List.getElem?_cons_succ, ← List.head?_eq_getElem?, ← startsAfterHyphen_eq]
  by_cases hhyphen : c = '-' ∧ ¬ startsAfterHyphen s
  · rw [if_pos (hhyphen.imp_left (congrArg some)), readName, if_pos hhyphen]
    exact .fail hs _
  · obtain ⟨name, hread, hname, hrest⟩ := exists_name hhyphen
    have htext : (c :: s.takeWhile isNameChar) ++ name.rest = c :: s := by
      rw [hrest, List.cons_append, List.takeWhile_append_dropWhile]
    have hrest' : name.rest <:+ source := (List.suffix_append _ name.rest).trans (htext ▸ hs)
    have hpassed : (bumpWhile isNameChar).exec source (.facing source (c :: s) depth) = _ :=
      exec_bumpWhile isNameChar hs
    rw [List.dropWhile_cons_of_pos (isNameChar_of_starts hc), ← hrest] at hpassed
    rw [if_neg fun h => hhyphen (h.imp_left Option.some.inj), hread, ok_bind]
    refine .step hpassed (.step (exec_passed htext hs) (.step (exec_peek hrest') ?_))
    rw [← hname]
    cases hcall : takeChar? '(' name.rest with
    | some opened =>
      rw [if_pos (by rw [takeChar?_some hcall]; rfl)]
      exact .nested hrest' harguments fun args _ hs => .step rfl (.pure hs rfl rfl)
    | none =>
      rw [if_neg (takeChar?_none.1 hcall)]
      exact .pure hrest' rfl rfl

section
variable {group : Reader RawExpr} {arguments : Reader (List RawExpr)}

theorem tracks_primaryWith
    (hgroup : TracksDeeper source depth parseGroup group (Expr.mapPlaces (placeIn source)))
    (harguments : TracksDeeper source depth parseArguments arguments
      (Expr.mapPlacesItems (placeIn source))) :
    TracksReader source depth parsePrimary (primaryWith group arguments)
      (Expr.mapPlaces (placeIn source)) := by
  intro s hs
  rw [parsePrimary]
  refine .step (exec_peek hs) ?_
  cases s with
  | nil => exact .fail hs _
  | cons c s =>
    rw [primaryWith]
    refine .branch (fun _ => ?_) fun _ => ?_
    · rw [← bind_pure (group (c :: s))]
      exact .nested hs hgroup fun _ _ hs => .pure hs rfl rfl
    refine .branch (fun hc => ?_) fun _ => ?_
    · subst hc
      exact (tracks_parseColor hs).wrap (fun _ => rfl) fun _ => rfl
    refine .branch (fun _ => ?_) fun _ => .step (exec_rest hs) ?_
    · exact (tracks_parseQuoted hs).wrap (fun _ => rfl) fun _ => rfl
    refine .branch (fun _ => ?_) fun _ => ?_
    · exact (tracks_parseNumber hs).wrap (fun _ => rfl) fun _ => rfl
    refine .branch (fun hc => ?_) fun _ => .fail hs _
    exact tracks_parseNameOrCall harguments hc hs

end

theorem tracks_parsePrimary (source : List Char) (depth : Nat) :
    TracksReader source depth parsePrimary (readPrimary (maxNesting - depth))
      (Expr.mapPlaces (placeIn source)) := by
  generalize hlevels : maxNesting - depth = levels
  induction levels generalizing depth with
  | zero =>
    have hdepth : ¬ depth < maxNesting := by omega
    exact tracks_primaryWith ⟨fun _ => rfl, fun h => absurd h hdepth⟩
      ⟨fun _ => rfl, fun h => absurd h hdepth⟩
  | succ levels ih =>
    have hdepth : ¬ maxNesting ≤ depth := by omega
    have hitem := tracks_parseSpaceList (ih (depth + 1) (by omega))
    exact tracks_primaryWith
      ⟨fun h => absurd h hdepth, fun _ => tracks_parseGroup hitem⟩
      ⟨fun h => absurd h hdepth, fun _ => tracks_parseArguments hitem⟩

theorem tracks_parseCommaList (source : List Char) (depth : Nat) :
    TracksReader source depth parseCommaList (readValue (maxNesting - depth))
      (Expr.mapPlaces (placeIn source)) := by
  intro s hs
  have hitem := tracks_parseSpaceList (tracks_parsePrimary source depth)
  refine .bind (hitem hs) fun first _ hs => ?_
  exact .bind (tracks_commaLoop hitem atValueEnd hs) fun more _ hs =>
    .pure hs (commaValue_mapPlaces _ first.value more.value).symm rfl

end HostSheet.CursorM
