import HostSheet.Proofs.Sheet.Levels
import HostSheet.Proofs.Sheet.Retexting

/-!
# Comments

A comment may stand wherever a blank may, and counts as one. So a sheet is the same sheet with each
comment replaced by a blank, and the cursor sees comments and strings where the scan sees them.
-/

namespace HostSheet

open Grammar

/-- The text with a blank for each comment, where `quote` bounds the string that is open. -/
def uncommentedIn (quote : Option Char) (s : List Char) : List Char :=
  withoutComments (pieces quote s)

def uncommented (s : List Char) : List Char :=
  uncommentedIn none s

-- ---------------------------------------------------------------------------
-- The first piece
-- ---------------------------------------------------------------------------

theorem withoutComments_quotedPieces (body : List Char) :
    withoutComments (quotedPieces body) = body := by
  fun_induction quotedPieces body with
  | case1 c s ih => simp [withoutComments, Piece.text, ih]
  | case2 c s _ ih => simp [withoutComments, Piece.text, ih]
  | case3 => rfl

section
variable {c : Char} {s : List Char}

@[simp] theorem uncommentedIn_nil (quote : Option Char) : uncommentedIn quote [] = [] := by
  rw [uncommentedIn, pieces_nil]
  rfl

theorem uncommentedIn_cons (quote : Option Char) (c : Char) (s : List Char) :
    uncommentedIn quote (c :: s) = withoutComments [(Piece.first quote c s).piece] ++
      uncommentedIn (Piece.first quote c s).quote (Piece.first quote c s).rest := by
  rw [uncommentedIn, pieces_cons, uncommentedIn, ← withoutComments_append, List.singleton_append]

theorem uncommented_plain (hc : isPlain c = true) (s : List Char) :
    uncommented (c :: s) = c :: uncommented s := by
  rw [uncommented, uncommentedIn_cons, first_plain hc]
  rfl

theorem uncommented_quote (hc : c = '"' ∨ c = '\'') (s : List Char) :
    uncommented (c :: s) = c :: uncommentedIn (some c) s := by
  rw [uncommented, uncommentedIn_cons, first_quote hc]
  rfl

theorem uncommented_slash (h : LoneSlash s) : uncommented ('/' :: s) = '/' :: uncommented s := by
  rw [uncommented, uncommentedIn_cons, first_slash h]
  rfl

theorem head?_uncommented (h : s.head? ≠ some '/') : (uncommented s).head? = s.head? := by
  cases s with
  | nil =>
    rw [uncommented, uncommentedIn_nil]
  | cons c s =>
    by_cases hc : isPlain c = true
    · rw [uncommented_plain hc]
      rfl
    · rcases isPlain_eq_false.1 (Bool.eq_false_iff.2 hc) with rfl | hquote
      · exact absurd rfl h
      · rw [uncommented_quote hquote]
        rfl

theorem LoneSlash.uncommented (h : LoneSlash s) : LoneSlash (uncommented s) := by
  rwa [LoneSlash, head?_uncommented h.1]

/-- The first piece of the uncommented text is the first piece of the text, unless that is a
comment. -/
theorem first_uncommented (quote : Option Char) (c : Char) (s : List Char) :
    (quote = none ∧
      ∃ text, Piece.first quote c s = ⟨.comment text, none, (Piece.first quote c s).rest⟩) ∨
    ∃ t, uncommentedIn quote (c :: s) = c :: t ∧ Piece.first quote c t =
      ⟨(Piece.first quote c s).piece, (Piece.first quote c s).quote,
        uncommentedIn (Piece.first quote c s).quote (Piece.first quote c s).rest⟩ := by
  cases quote with
  | some q =>
    right
    by_cases hc : c = '\\'
    · subst hc
      cases s with
      | nil =>
        have hcut : Piece.first (some q) '\\' [] =
            ⟨.quoted ['\\'], if '\\' = q then none else some q, []⟩ := rfl
        rw [uncommentedIn_cons, hcut, uncommentedIn_nil]
        exact ⟨[], rfl, hcut⟩
      | cons d s => exact ⟨d :: uncommentedIn (some q) s, by rw [uncommentedIn_cons]; rfl, rfl⟩
    · rw [uncommentedIn_cons, first_quoted q hc]
      exact ⟨_, rfl, first_quoted q hc _⟩
  | none =>
    by_cases hplain : isPlain c = true
    · right
      rw [first_plain hplain]
      exact ⟨_, uncommented_plain hplain s, first_plain hplain _⟩
    · rcases isPlain_eq_false.1 (Bool.eq_false_iff.2 hplain) with rfl | hquote
      · by_cases hlone : LoneSlash s
        · right
          rw [first_slash hlone]
          exact ⟨_, uncommented_slash hlone, first_slash hlone.uncommented⟩
        · left
          obtain ⟨t, rfl | rfl⟩ : ∃ t, s = '/' :: t ∨ s = '*' :: t := by
            rw [LoneSlash, not_and_or, not_not, not_not] at hlone
            cases s with
            | nil => simp at hlone
            | cons d t => exact ⟨t, by simpa using hlone⟩
          · exact ⟨rfl, _, rfl⟩
          · refine ⟨rfl, ?_⟩
            simp only [Piece.first]
            split <;> exact ⟨_, rfl⟩
      · right
        rw [first_quote hquote]
        exact ⟨_, uncommented_quote hquote s, first_quote hquote _⟩

end

-- ---------------------------------------------------------------------------
-- Searches
-- ---------------------------------------------------------------------------

theorem Found.uncommented {isMark : Char → Bool} (hmarks : ∀ c, isMark c = true → c ≠ ' ')
    {quote : Option Char} {depth : Nat} {s rest : List Char} {before : List Piece}
    (h : Found isMark quote depth s before rest) :
    ∃ before', Found isMark quote depth (uncommentedIn quote s) before' (uncommented rest) ∧
      withoutComments before' = withoutComments before := by
  induction h with
  | @here quote depth c s hmark =>
    obtain ⟨d, hcode, -⟩ := Piece.marks_iff.1 hmark
    obtain ⟨rfl, hfirst⟩ := Piece.first_code hcode
    obtain ⟨-, text, hcomment⟩ | ⟨t, ht, hcut⟩ := first_uncommented none c s
    · rw [hcomment] at hcode
      cases hcode
    · rw [HostSheet.uncommented, ht]
      exact ⟨[], .here (by rw [hcut]; exact hmark), rfl⟩
  | @there quote depth c s piece quote' s' before rest hcut hmark _ ih =>
    obtain ⟨before', hfound, htext⟩ := ih
    obtain ⟨rfl, text, hcomment⟩ | ⟨t, ht, hcut'⟩ := first_uncommented quote c s
    · -- The blank that stands for the comment is passed over like the comment.
      have hblank : (Piece.code ' ').marks isMark depth = false := by
        rw [← Bool.not_eq_true, Piece.marks_iff]
        rintro ⟨d, hd, -, hmark⟩
        cases hd
        exact hmarks _ hmark rfl
      rw [hcut] at hcomment
      cases hcomment
      rw [uncommentedIn_cons, hcut]
      refine ⟨.code ' ' :: before', .there (first_plain rfl _) hblank hfound, ?_⟩
      rw [withoutComments_cons, htext, withoutComments_cons (.comment text)]
      rfl
    · rw [hcut] at hcut'
      rw [ht]
      refine ⟨piece :: before', .there hcut' hmark hfound, ?_⟩
      rw [withoutComments_cons, htext, ← withoutComments_cons]

-- ---------------------------------------------------------------------------
-- Readings
-- ---------------------------------------------------------------------------

theorem uncommented_comment {s rest : List Char} (h : Comment s rest) :
    uncommented s = ' ' :: uncommented rest := by
  obtain ⟨text, rfl⟩ := h.exists_text
  rw [uncommented, uncommentedIn, pieces_comment h]
  rfl

theorem startsToken.uncommented {s : List Char} (h : startsToken s) :
    startsToken (uncommented s) := by
  cases s with
  | nil =>
    rw [HostSheet.uncommented, uncommentedIn_nil]
    exact h
  | cons c s =>
    obtain ⟨hblank, hlone⟩ := startsToken_cons.1 h
    by_cases hslash : c = '/'
    · subst hslash
      rw [uncommented_slash (hlone rfl)]
      exact startsToken_cons.2 ⟨hblank, fun _ => (hlone rfl).uncommented⟩
    · have hhead : (HostSheet.uncommented (c :: s)).head? = some c :=
        head?_uncommented (by simpa using hslash)
      obtain ⟨t, ht⟩ := List.head?_eq_some_iff.1 hhead
      rw [ht]
      exact startsToken_cons.2 ⟨hblank, fun hc => absurd hc hslash⟩

theorem Trivia.uncommented {s rest : List Char} (h : Trivia s rest) :
    Trivia (uncommented s) (uncommented rest) := by
  induction h using Trivia.induction with
  | done h => exact .done h.uncommented
  | blank c s hc _ ih =>
    rw [uncommented_plain (isPlain_of_isBlank hc)]
    exact .blank hc ih
  | comment s s' hcomment _ ih =>
    rw [uncommented_comment hcomment]
    exact .blank (by decide) ih

theorem uncommented_readQuoted {quote : Char} {s rest : List Char} {v : Value}
    (hquote : quote = '"' ∨ quote = '\'') (h : readQuoted.Reads (quote :: s) v rest) :
    ∃ t, uncommented (quote :: s) = quote :: t ∧
      readQuoted.Reads (quote :: t) v (uncommented rest) := by
  obtain ⟨body, text, hbody, rfl, rfl⟩ := (reads_readQuoted hquote).1 h
  refine ⟨body ++ quote :: uncommented rest, ?_,
    (reads_readQuoted hquote).2 ⟨body, text, hbody, rfl, rfl⟩⟩
  rw [uncommented_quote hquote, uncommentedIn, pieces_quoted (ne_backslash hquote) hbody,
    withoutComments_append, withoutComments_quotedPieces]
  rfl

theorem sheetRetexting_uncommented : SheetRetexting uncommented fun _ => True where
  along _ _ := trivial
  inside _ := trivial
  plain s hc := uncommented_plain hc s
  ended _ := by simp [uncommented]
  edge := by
    intro c s hc _
    obtain ⟨-, text, hcomment⟩ | ⟨t, ht, -⟩ := first_uncommented none c s
    · rw [uncommented, uncommentedIn_cons, hcomment]
      exact ⟨' ', _, rfl, .inl rfl⟩
    · exact ⟨c, t, ht, .inr hc⟩
  trivia h _ := h.uncommented
  quoted hquote h _ := uncommented_readQuoted hquote h
  back _ _ := trivial
  closing _ := trivial
  search := by
    rintro isMark mark s text us rest hmarks hmark ⟨hfound⟩
    have hblank : ∀ c, isMark c = true → c ≠ ' ' := by
      rintro c hc rfl
      exact absurd (hmarks _ hc) (by decide)
    obtain ⟨before', hfound', htext⟩ := (findMark_iff.1 hfound).uncommented hblank
    rw [uncommented_plain hmark] at hfound'
    rw [← htext]
    exact ⟨_, .mk (findMark_iff.2 hfound')⟩

-- ---------------------------------------------------------------------------
-- Sheets and values
-- ---------------------------------------------------------------------------

theorem Grammar.Rules.uncommented {s : List Char} {rules : List RawRule} {ts : List Token}
    (h : Rules s rules ts) :
    ∃ ts', Rules (uncommented s) (rules.map (Rule.mapPlaces uncommented)) ts' := by
  induction h with
  | nil hblank _ =>
    have hblank := hblank.uncommented
    rw [show HostSheet.uncommented [] = [] from uncommentedIn_nil none] at hblank
    obtain ⟨ts', hts'⟩ := hblank.walked
    exact ⟨_, .nil hblank hts'⟩
  | cons hblank _ hrule _ ih =>
    obtain ⟨vs, hmore⟩ := ih
    obtain ⟨-, us, hrule⟩ := hrule.retexts sheetRetexting_uncommented
    have hblank := hblank.uncommented
    obtain ⟨ts', hts'⟩ := hblank.walked
    exact ⟨_, .cons hblank hts' hrule hmore⟩

theorem walked_readWhole {s : List Char} {e : RawExpr} (h : readWhole s = .ok e) : Walked s [] := by
  obtain ⟨s', s'', hblank, hvalue, hblank'⟩ := readWhole_ok.1 h
  have hwalks := CommaList.walks (Primary.walks maxNesting)
  exact (hblank.walked.trans (hwalks hvalue)).trans hblank'.walked

theorem readWhole_uncommented {s : List Char} {e : RawExpr} (h : readWhole s = .ok e) :
    readWhole (uncommented s) = .ok (e.mapPlaces uncommented) := by
  obtain ⟨s', s'', hblank, hvalue, hblank'⟩ := readWhole_ok.1 h
  have hm := sheetRetexting_uncommented.toRetexting
  have hend := hblank'.uncommented
  rw [show uncommented [] = [] from uncommentedIn_nil none] at hend
  exact readWhole_ok.2 ⟨_, _, hblank.uncommented, CommaList.retexts hm (Primary.walks maxNesting)
    (Primary.retexts hm maxNesting) hvalue trivial, hend⟩

/-- A text that can be read says the same without its comments, and the cursor has passed over
the comments and strings in it that the scan shows. -/
theorem comments_transparent (source : String) :
    (∀ sheet, Sheet.parse source = .ok sheet →
      (∃ sheet', Sheet.parse (String.ofList (uncommented source.toList)) = .ok sheet' ∧
        sheet'.map (Rule.mapPlaces fun _ => ()) = sheet.map (Rule.mapPlaces fun _ => ())) ∧
      ∃ rules ts, Rules source.toList rules ts ∧
        rules.map (Rule.mapPlaces (placeIn source.toList)) = sheet ∧
        pieces none source.toList = ts.flatMap Token.pieces) ∧
    ∀ e, Expr.parse source = .ok e →
      (∃ e', Expr.parse (String.ofList (uncommented source.toList)) = .ok e' ∧
        e'.mapPlaces (fun _ => ()) = e.mapPlaces fun _ => ()) ∧
      ∃ ts, Lexed source.toList ts [] ∧ pieces none source.toList = ts.flatMap Token.pieces := by
  refine ⟨fun sheet h => ?_, fun e h => ?_⟩
  · obtain ⟨rules, hrules, rfl⟩ := Sheet.parse_ok.1 h
    obtain ⟨ts, hts⟩ := readRules_ok.1 hrules
    have hread : readRules (String.ofList (uncommented source.toList)).toList =
        .ok (rules.map (Rule.mapPlaces uncommented)) := by
      rw [String.toList_ofList]
      exact readRules_ok.2 hts.uncommented
    refine ⟨⟨_, Sheet.parse_ok.2 ⟨_, hread, rfl⟩, ?_⟩, rules, ts, hts, rfl, hts.pieces_eq⟩
    simp only [List.map_map]
    refine List.map_congr_left fun rule _ => ?_
    simp only [Function.comp_apply, Rule.mapPlaces_mapPlaces]
    rfl
  · obtain ⟨raw, hraw, rfl⟩ := Expr.parse_ok.1 h
    have hread : readWhole (String.ofList (uncommented source.toList)).toList =
        .ok (raw.mapPlaces uncommented) := by
      rw [String.toList_ofList]
      exact readWhole_uncommented hraw
    obtain ⟨ts, hts⟩ := walked_readWhole hraw
    refine ⟨⟨_, Expr.parse_ok.2 ⟨_, hread, rfl⟩, ?_⟩, ts, hts, ?_⟩
    · simp only [Expr.mapPlaces_mapPlaces]
      rfl
    · rw [hts.pieces_eq, pieces_nil, List.append_nil]

/-- Comments that are glued to tokens, that hold marks and quotes, and that only look like ones. -/
theorem comments_transparent_glued :
    (∃ sheet sheet', Sheet.parse "a/*;*/b\x7bc/*:*/:\"/*\"//\x7d\n d(1/**/)\x7d" = .ok sheet ∧
      Sheet.parse "a b\x7bc :\"/*\" \n d(1 )\x7d" = .ok sheet' ∧
      sheet'.map (Rule.mapPlaces fun _ => ()) = sheet.map (Rule.mapPlaces fun _ => ())) ∧
    ∃ e e', Expr.parse "1/*'*/,'/**/'" = .ok e ∧ Expr.parse "1 ,'/**/'" = .ok e' ∧
      e'.mapPlaces (fun _ => ()) = e.mapPlaces fun _ => () := by
  obtain ⟨sheet, hs⟩ := isOk_iff.1 (show
    (Sheet.parse "a/*;*/b\x7bc/*:*/:\"/*\"//\x7d\n d(1/**/)\x7d").isOk = true by decide +kernel)
  obtain ⟨e, he⟩ := isOk_iff.1 (show (Expr.parse "1/*'*/,'/**/'").isOk = true by decide +kernel)
  obtain ⟨⟨sheet', hs', hsame⟩, -⟩ := (comments_transparent _).1 sheet hs
  obtain ⟨⟨e', he', hsame'⟩, -⟩ := (comments_transparent _).2 e he
  have htext : String.ofList (uncommented
      "a/*;*/b\x7bc/*:*/:\"/*\"//\x7d\n d(1/**/)\x7d".toList) =
      "a b\x7bc :\"/*\" \n d(1 )\x7d" := by decide +kernel
  have htext' : String.ofList (uncommented "1/*'*/,'/**/'".toList) = "1 ,'/**/'" := by
    decide +kernel
  exact ⟨⟨sheet, sheet', hs, htext ▸ hs', hsame⟩, e, e', he, htext' ▸ he', hsame'⟩

end HostSheet
