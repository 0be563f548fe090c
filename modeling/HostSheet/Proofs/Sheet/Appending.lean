import HostSheet.Proofs.Sheet.Passing
import HostSheet.Proofs.Sheet.Retexting
import HostSheet.Proofs.Source.Locating

/-!
# Sheets one behind the other

To tell rules from declarations the text is searched as far as it goes. Every search in a text that
can be read ends at a mark of that text, so that the text is read the same if more stands behind it.
What stands behind whole lines is then read as by itself, further down.
-/

namespace HostSheet

open Grammar

-- ---------------------------------------------------------------------------
-- Comments
-- ---------------------------------------------------------------------------

section
variable {s rest : List Char}

theorem dropLine_append (b : List Char) (h : dropLine s ≠ []) :
    dropLine (s ++ b) = dropLine s ++ b := by
  rw [dropLine, List.dropWhile_append, if_neg (by simpa [dropLine] using h)]
  rfl

theorem takeLine_append (b : List Char) (h : dropLine s ≠ []) :
    (s ++ b).takeWhile (· != '\n') = s.takeWhile (· != '\n') := by
  have htext := List.takeWhile_append_dropWhile (p := (· != '\n')) (l := s ++ b)
  rw [← dropLine, dropLine_append b h, ← List.append_assoc] at htext
  have hline : s.takeWhile (· != '\n') ++ dropLine s = s := List.takeWhile_append_dropWhile
  nth_rewrite 3 [← hline] at htext
  exact List.append_cancel_right (List.append_cancel_right htext)

theorem Comment.append_right (b : List Char) (h : Comment s rest)
    (hend : rest = [] → s.getLast? = some '\n') : Comment (s ++ b) (rest ++ b) := by
  obtain ⟨t, rfl, rfl⟩ | ⟨t, inside, rfl, hclose⟩ := comment_iff.1 h
  · have hline : dropLine t ≠ [] := by
      intro hline
      obtain ⟨xs, hxs⟩ := List.getLast?_eq_some_iff.1 (hend hline)
      have hfeed : '\n' ∈ '/' :: '/' :: t := hxs ▸ List.mem_append_right _ List.mem_cons_self
      have hmem : '\n' ∈ t := by simpa using hfeed
      simpa using List.dropWhile_eq_nil_iff.1 hline _ hmem
    exact comment_iff.2 (.inl ⟨t ++ b, rfl, dropLine_append b hline⟩)
  · exact comment_iff.2 (.inr ⟨t ++ b, inside, rfl, closeComment_append hclose b⟩)

end

-- ---------------------------------------------------------------------------
-- Searches
-- ---------------------------------------------------------------------------

/-- A piece is the same piece if more stands behind what stands behind it. -/
theorem Piece.first_append {quote quote' : Option Char} {c : Char} {s s' : List Char}
    {piece : Piece} (b : List Char) (hcut : first quote c s = ⟨piece, quote', s'⟩) (hs : s' ≠ []) :
    first quote c (s ++ b) = ⟨piece, quote', s' ++ b⟩ := by
  cases quote with
  | some q =>
    by_cases hc : c = '\\'
    · subst hc
      cases s with
      | nil =>
        cases hcut
        exact absurd rfl hs
      | cons d s =>
        cases hcut
        rfl
    · rw [first_quoted q hc] at hcut ⊢
      cases hcut
      rfl
  | none =>
    by_cases hplain : isPlain c = true
    · rw [first_plain hplain] at hcut ⊢
      cases hcut
      rfl
    rcases isPlain_eq_false.1 (Bool.eq_false_iff.2 hplain) with rfl | hquote
    · by_cases hlone : LoneSlash s
      · rw [first_slash hlone] at hcut
        cases hcut
        have hlone' : LoneSlash (s ++ b) := by
          rwa [LoneSlash, List.head?_append_of_ne_nil s hs]
        exact first_slash hlone'
      · obtain ⟨t, rfl | rfl⟩ := not_loneSlash hlone
        · cases hcut
          simp only [first, List.cons_append, takeLine_append b hs, dropLine_append b hs]
        · simp only [first] at hcut
          split at hcut
          · rename_i inside after hclose
            cases hcut
            simp only [first, List.cons_append, closeComment_append hclose b]
          · cases hcut
            exact absurd rfl hs
    · rw [first_quote hquote] at hcut ⊢
      cases hcut
      rfl

theorem Found.ne_nil {isMark : Char → Bool} {quote : Option Char} {depth : Nat}
    {s rest : List Char} {before : List Piece} (h : Found isMark quote depth s before rest) :
    s ≠ [] := by
  cases h <;> exact List.cons_ne_nil _ _

theorem Found.append_right {isMark : Char → Bool} {mark : Char} (hmark : isPlain mark = true)
    {quote : Option Char} {depth : Nat} {s rest : List Char} {before : List Piece} (b : List Char)
    (h : Found isMark quote depth s before (mark :: rest)) :
    Found isMark quote depth (s ++ b) before (mark :: (rest ++ b)) := by
  generalize hfound : mark :: rest = found at h
  induction h with
  | here hmarks =>
    cases hfound
    obtain ⟨d, hcode, -⟩ := Piece.marks_iff.1 hmarks
    obtain ⟨rfl, -⟩ := Piece.first_code hcode
    rw [first_plain hmark] at hmarks
    exact .here (by rwa [first_plain hmark])
  | there hcut hmarks hmore ih =>
    exact .there (Piece.first_append b hcut hmore.ne_nil) hmarks (ih hfound)

-- ---------------------------------------------------------------------------
-- Readings
-- ---------------------------------------------------------------------------

/-- A closing brace is still to come, outside of comments and strings. -/
def Unclosed (s : List Char) : Prop :=
  .code '}' ∈ pieces none s

namespace Unclosed

variable {s rest : List Char}

theorem ne_nil (h : Unclosed s) : s ≠ [] := by
  rintro rfl
  rw [Unclosed, pieces_nil] at h
  cases h

theorem plain {c : Char} (hc : isPlain c = true) (hne : '}' ≠ c) :
    Unclosed (c :: s) ↔ Unclosed s := by
  rw [Unclosed, pieces_plain hc, List.mem_cons, Unclosed]
  simp [hne]

theorem along (h : Walked s rest) (hs : Unclosed s) : Unclosed rest := by
  obtain ⟨ts, hts⟩ := h
  rw [Unclosed, hts.pieces_eq] at hs
  -- The braces of a sheet do not stand in its values.
  refine (List.mem_append.1 hs).resolve_left fun hmem => ?_
  exact absurd (hts.isBlockMark_eq_false hmem) (by decide)

end Unclosed

section
variable {s rest : List Char}

theorem startsToken.append_right (b : List Char) (h : startsToken s) (hs : Unclosed s) :
    startsToken (s ++ b) := by
  cases s with
  | nil => exact absurd rfl hs.ne_nil
  | cons c s =>
    obtain ⟨hblank, hslash⟩ := startsToken_cons.1 h
    rw [List.cons_append]
    refine startsToken_cons.2 ⟨hblank, fun hc => ?_⟩
    subst hc
    rw [Unclosed, pieces_cons, first_slash (hslash rfl), List.mem_cons] at hs
    have hs : Unclosed s := hs.resolve_left (by simp)
    rw [LoneSlash, List.head?_append_of_ne_nil s hs.ne_nil]
    exact hslash rfl

theorem Trivia.append_right (b : List Char) (h : Trivia s rest) (hs : Unclosed s) :
    Trivia (s ++ b) (rest ++ b) := by
  induction h using Trivia.induction with
  | done h => exact .done (h.append_right b hs)
  | blank c s hc _ ih =>
    have hne : '}' ≠ c := by
      rintro rfl
      exact absurd hc (by decide)
    exact .blank hc (ih ((Unclosed.plain (isPlain_of_isBlank hc) hne).1 hs))
  | comment s s' hcomment _ ih =>
    obtain ⟨text, rfl⟩ := hcomment.exists_text
    rw [Unclosed, pieces_comment hcomment, List.mem_cons] at hs
    have hs : Unclosed s' := hs.resolve_left (by simp)
    exact .comment (hcomment.append_right b fun hnil => absurd hnil hs.ne_nil) (ih hs)

end

/-- What is read in front of a closing brace is read the same if more stands behind. -/
theorem sheetRetexting_append (b : List Char) : SheetRetexting (· ++ b) Unclosed where
  along := Unclosed.along
  inside := (Unclosed.plain (by decide) (by decide)).1
  plain _ _ := rfl
  ended h := absurd rfl h.ne_nil
  edge := fun {c s} hc _ => ⟨c, s ++ b, rfl, .inr hc⟩
  trivia := Trivia.append_right b
  quoted := by
    intro quote s v rest hquote h _
    obtain ⟨body, text, hbody, rfl, rfl⟩ := (reads_readQuoted hquote).1 h
    refine ⟨body ++ quote :: rest ++ b, rfl,
      (reads_readQuoted hquote).2 ⟨body, text, hbody, ?_, rfl⟩⟩
    rw [List.append_assoc, List.cons_append]
  back hpieces h := by
    rw [Unclosed, hpieces]
    exact List.mem_append_right _ h
  closing s := by
    rw [Unclosed, pieces_plain (by decide)]
    exact List.mem_cons_self
  search := by
    rintro isMark mark s text us rest - hmark ⟨hfound⟩
    exact ⟨_, .mk (findMark_iff.2 ((findMark_iff.1 hfound).append_right hmark b))⟩

-- ---------------------------------------------------------------------------
-- The end of a text
-- ---------------------------------------------------------------------------

section
variable {s rest : List Char}

theorem readRules_eq (s : List Char) : readRules s = do
    let t ← afterTrivia s
    if t.isEmpty then
      return []
    else
      let rule ← readRule maxNesting t
      let more ← readRules rule.rest
      return rule.value :: more := by
  rw [readRules, afterTrivia]
  cases skipTrivia s <;> rfl

def EndsLine (s : List Char) : Prop :=
  s ≠ [] → s.getLast? = some '\n'

theorem EndsLine.of_suffix (hs : EndsLine s) (h : rest <:+ s) : EndsLine rest := by
  intro hne
  obtain ⟨before, rfl⟩ := h
  rw [← List.getLast?_append_of_ne_nil before hne]
  exact hs (List.append_ne_nil_of_right_ne_nil before hne)

theorem afterTrivia_append (b : List Char) (h : Trivia s []) (hs : EndsLine s) :
    afterTrivia (s ++ b) = afterTrivia b := by
  induction h using Trivia.induction with
  | done => rfl
  | blank c s hc _ ih =>
    rw [List.cons_append, afterTrivia_blank hc, ih (hs.of_suffix (List.suffix_cons c s))]
  | comment s s' hcomment _ ih =>
    obtain ⟨text, rfl⟩ := hcomment.exists_text
    have hne : text ++ s' ≠ [] := by
      obtain ⟨t, ht, -⟩ | ⟨t, _, ht, -⟩ := comment_iff.1 hcomment <;>
        exact ht ▸ List.cons_ne_nil _ _
    rw [afterTrivia_comment (hcomment.append_right b fun _ => hs hne),
      ih (hs.of_suffix (List.suffix_append text s'))]

end

-- ---------------------------------------------------------------------------
-- Sheets
-- ---------------------------------------------------------------------------

theorem Trivia.suffix {s rest : List Char} (h : Trivia s rest) : rest <:+ s := by
  obtain ⟨_, h⟩ := h
  have hpasses := skipTrivia_passes s
  rw [h] at hpasses
  exact hpasses.suffix

theorem Grammar.Ruled.suffix {levels : Nat} {s rest : List Char} {r : RawRule} {ts : List Token}
    (h : Ruled levels s r ts rest) : rest <:+ s := by
  obtain ⟨⟨_, h⟩, -⟩ := h.complete
  have hpasses := readRule_passes levels s
  rw [h] at hpasses
  exact hpasses.suffix

theorem Grammar.Rules.readRules_append {s : List Char} {rules : List RawRule} {ts : List Token}
    (b : List Char) (h : Rules s rules ts) (hs : EndsLine s) :
    readRules (s ++ b) =
      (readRules b).map fun more => rules.map (Rule.mapPlaces (· ++ b)) ++ more := by
  induction h with
  | nil hblank _ =>
    rw [readRules_eq, afterTrivia_append b hblank hs, ← readRules_eq]
    exact (congrFun Except.map_id (readRules b)).symm
  | @cons s ts s' rule us s'' rules vs hblank hlexed hrule _ ih =>
    have hm := sheetRetexting_append b
    obtain ⟨hs', us', hrule'⟩ := hrule.retexts hm
    obtain ⟨_, hblank'⟩ := hm.trivia hblank (hm.back hlexed.pieces_eq hs')
    obtain ⟨⟨_, hread⟩, hstarts⟩ := hrule'.complete
    obtain ⟨_, _, _, hheading⟩ := startsRule_iff.1 hstarts
    have hmore := ih (hs.of_suffix (hrule.suffix.trans hblank.suffix))
    rw [readRules, hblank', ok_bind, if_neg (by simpa using hheading.ne_nil), hread, ok_bind,
      hmore]
    cases readRules b <;> rfl

theorem placeIn_append_right {a rest : List Char} (b : List Char) :
    placeIn (a ++ b) (rest ++ b) = placeIn a rest := by
  rw [placeIn, Source.offsetOf_append_right, Source.locate_append b (Source.offsetOf_le a rest),
    placeIn]

theorem placeIn_append_left {a b rest : List Char} (ha : a.getLast? = some '\n')
    (h : rest <:+ b) : placeIn (a ++ b) rest = (placeIn b rest).below (a.count '\n') := by
  rw [placeIn, Source.offsetOf_append_left a h, Source.locate_behind ha, placeIn]

theorem Fault.inSource_append {fault : Fault} (a : List Char) {b : List Char}
    (h : fault.rest <:+ b) : fault.inSource (a ++ b) =
      ⟨fault.cause, Source.byteLength a + (fault.inSource b).offset⟩ :=
  congrArg (SyntaxError.mk fault.cause) (Source.offsetOf_append_left a h)

/-- Behind a sheet of whole lines a text is read as by itself. Its rules follow those of the sheet,
as many lines further down as the sheet has; what cannot be read there is reported as many bytes
further on as the sheet has. -/
theorem Sheet.parse_append {a : String} {sheet : Sheet Location} (h : Sheet.parse a = .ok sheet)
    (ha : a.toList.getLast? = some '\n') (b : String) :
    (∀ more, Sheet.parse b = .ok more → Sheet.parse (a ++ b) =
      .ok (sheet ++ more.map (Rule.mapPlaces (Location.below (a.toList.count '\n'))))) ∧
    ∀ e, Sheet.parse b = .error e →
      Sheet.parse (a ++ b) = .error ⟨e.cause, a.utf8ByteSize + e.offset⟩ := by
  obtain ⟨rules, hrules, rfl⟩ := Sheet.parse_ok.1 h
  obtain ⟨ts, hts⟩ := readRules_ok.1 hrules
  have hread := hts.readRules_append b.toList fun _ => ha
  have hpasses := readRules_passes b.toList
  rw [Sheet.parse, Sheet.parse, String.toList_append, hread]
  cases hb : readRules b.toList with
  | ok more =>
    refine ⟨?_, fun e he => (by cases he)⟩
    rintro _ ⟨⟩
    rw [hb] at hpasses
    refine congrArg Except.ok ?_
    rw [List.map_append, List.map_map, List.map_map]
    refine congrArg₂ (· ++ ·) (List.map_congr_left fun rule _ => ?_)
      (List.map_congr_left fun rule hrule => ?_)
    · rw [Function.comp_apply, Rule.mapPlaces_mapPlaces]
      exact congrArg (Rule.mapPlaces · rule) (funext fun rest => placeIn_append_right b.toList)
    · rw [Function.comp_apply, Rule.mapPlaces_mapPlaces]
      refine Rule.mapPlaces_congr fun place hplace => ?_
      have hmem : place ∈ Sheet.places more := List.mem_flatMap.2 ⟨rule, hrule, hplace⟩
      exact placeIn_append_left ha (hpasses.mem place hmem).1
  | error fault =>
    refine ⟨fun more hmore => (by cases hmore), ?_⟩
    rintro _ ⟨⟩
    rw [hb] at hpasses
    rw [← Source.byteLength_toList]
    exact congrArg Except.error (Fault.inSource_append a.toList hpasses)

/-- A rule and what cannot be read, each behind a line with a rule. -/
theorem Sheet.parse_append_line :
    (∃ sheet more, Sheet.parse "a\x7bb:c\x7d\n" = .ok sheet ∧
      Sheet.parse "d\x7be:f()\x7d" = .ok more ∧ Sheet.parse "a\x7bb:c\x7d\nd\x7be:f()\x7d" =
        .ok (sheet ++ more.map (Rule.mapPlaces (Location.below 1)))) ∧
    Sheet.parse "\n\x7d" = .error ⟨.expected '\x7b', 1⟩ ∧
    Sheet.parse "a\x7bb:c\x7d\n\n\x7d" = .error ⟨.expected '\x7b', 8⟩ := by
  obtain ⟨sheet, hsheet⟩ := isOk_iff.1 (show (Sheet.parse "a\x7bb:c\x7d\n").isOk = true by
    decide +kernel)
  obtain ⟨more, hmore⟩ := isOk_iff.1 (show (Sheet.parse "d\x7be:f()\x7d").isOk = true by
    decide +kernel)
  have hfault : Sheet.parse "\n\x7d" = .error ⟨.expected '\x7b', 1⟩ :=
    map_error.1 (show (Sheet.parse "\n\x7d").map (fun _ => ()) = _ by decide +kernel)
  have hends : "a\x7bb:c\x7d\n".toList.getLast? = some '\n' := by decide
  exact ⟨⟨sheet, more, hsheet, hmore, (Sheet.parse_append hsheet hends _).1 more hmore⟩, hfault,
    (Sheet.parse_append hsheet hends _).2 _ hfault⟩

end HostSheet
