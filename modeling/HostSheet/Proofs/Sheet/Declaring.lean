import HostSheet.Proofs.Sheet.Levels
import HostSheet.Proofs.Sheet.Retexting
import HostSheet.Proofs.Text.Trimming

/-!
# Declarations as they are written

A declaration is read from its property and the text of its value, whatever blanks are in front of
the two. The value may be anything that can be read by itself, save comments that go on to the end
of their line.
-/

namespace HostSheet

open Grammar

-- ---------------------------------------------------------------------------
-- Values in front of an end
-- ---------------------------------------------------------------------------

def Piece.isLineComment : Piece → Bool
  | .comment ('/' :: '/' :: _) => true
  | _ => false

/-- No comment in the text goes on to the end of its line, so nothing behind the text is taken for a
part of it. -/
def NoLineComment (s : List Char) : Prop :=
  ∀ piece ∈ pieces none s, piece.isLineComment = false

instance (s : List Char) : Decidable (NoLineComment s) :=
  inferInstanceAs (Decidable (∀ piece ∈ pieces none s, piece.isLineComment = false))

theorem NoLineComment.behind {s rest : List Char} {ps : List Piece} (h : NoLineComment s)
    (hpieces : pieces none s = ps ++ pieces none rest) : NoLineComment rest := by
  intro piece hmem
  refine h piece ?_
  rw [hpieces]
  exact List.mem_append_right ps hmem

theorem NoLineComment.tail {s rest : List Char} {piece : Piece} (h : NoLineComment s)
    (hpieces : pieces none s = piece :: pieces none rest) : NoLineComment rest := by
  rw [← List.singleton_append] at hpieces
  exact h.behind hpieces

theorem noLineComment_of_forall {s : List Char} (h : ∀ c ∈ s, isPlain c = true) :
    NoLineComment s := by
  induction s with
  | nil => simp [NoLineComment]
  | cons c s ih =>
    rw [List.forall_mem_cons] at h
    rw [NoLineComment, pieces_plain h.1, List.forall_mem_cons]
    exact ⟨rfl, ih h.2⟩

def IsEnd (u : List Char) : Prop :=
  ∃ c t, u = c :: t ∧ (c = ';' ∨ c = '}')

theorem IsEnd.append {u : List Char} (h : IsEnd u) (s : List Char) : IsEnd (u ++ s) := by
  obtain ⟨c, t, rfl, hc⟩ := h
  exact ⟨c, t ++ s, rfl, hc⟩

theorem IsEnd.declarationEnd {u : List Char} (h : IsEnd u) :
    ∃ ts rest, DeclarationEnd u ts rest := by
  obtain ⟨c, t, rfl, rfl | rfl⟩ := h
  · exact ⟨_, _, .semicolon⟩
  · exact ⟨_, _, .close⟩

theorem Comment.append {s rest : List Char} (h : Comment s rest) (hs : NoLineComment s)
    (u : List Char) :
    Comment (s ++ u) (rest ++ u) := by
  obtain ⟨t, rfl, rfl⟩ | ⟨t, inside, rfl, hclose⟩ := comment_iff.1 h
  · have hpieces : pieces none ('/' :: '/' :: t) =
        .comment ('/' :: '/' :: t.takeWhile (· != '\n')) :: pieces none (dropLine t) :=
      pieces_cons none '/' ('/' :: t)
    have hline := hs (.comment ('/' :: '/' :: t.takeWhile (· != '\n'))) (by simp [hpieces])
    cases hline
  · exact comment_iff.2 (.inr ⟨t ++ u, inside, rfl, closeComment_append hclose u⟩)

section
variable {u : List Char} (hu : IsEnd u)
include hu

theorem LoneSlash.append {s : List Char} (h : LoneSlash s) : LoneSlash (s ++ u) := by
  cases s with
  | nil =>
    obtain ⟨c, t, rfl, rfl | rfl⟩ := hu <;> simp [LoneSlash]
  | cons c s => exact h

theorem startsToken.append {s : List Char} (h : startsToken s) : startsToken (s ++ u) := by
  cases s with
  | nil =>
    obtain ⟨c, t, rfl, rfl | rfl⟩ := hu <;> exact startsToken_cons.2 ⟨by decide, by simp⟩
  | cons c s =>
    obtain ⟨hblank, hlone⟩ := startsToken_cons.1 h
    exact startsToken_cons.2 ⟨hblank, fun hc => (hlone hc).append hu⟩

theorem Trivia.append {s rest : List Char} (h : Trivia s rest) (hs : NoLineComment s) :
    Trivia (s ++ u) (rest ++ u) := by
  induction h using Trivia.induction with
  | done h => exact .done (h.append hu)
  | blank c s hc _ ih =>
    exact .blank hc (ih (hs.tail (pieces_plain (isPlain_of_isBlank hc) s)))
  | comment s s' hcomment _ ih =>
    have hcomment' := hcomment.append hs u
    obtain ⟨text, rfl⟩ := hcomment.exists_text
    exact .comment hcomment' (ih (hs.tail (pieces_comment hcomment)))

theorem retexting_append : Retexting (· ++ u) NoLineComment where
  along := by
    rintro s rest ⟨ts, hts⟩ hs
    exact hs.behind hts.pieces_eq
  inside {s} hs := hs.tail (pieces_plain (by decide) s)
  plain _ _ := rfl
  ended _ := by
    obtain ⟨c, t, rfl, hc⟩ := hu
    simpa using hc
  edge {c s} hc _ := ⟨c, s ++ u, rfl, .inr hc⟩
  trivia h hs := h.append hu hs
  quoted := by
    intro quote s v rest hquote h _
    obtain ⟨body, text, hbody, rfl, rfl⟩ := (reads_readQuoted hquote).1 h
    refine ⟨_, rfl, (reads_readQuoted hquote).2 ⟨body, text, hbody, ?_, rfl⟩⟩
    simp

end

-- ---------------------------------------------------------------------------
-- Headings
-- ---------------------------------------------------------------------------

theorem withoutComments_code (text : List Char) : withoutComments (text.map .code) = text := by
  induction text with
  | nil => rfl
  | cons c text ih =>
    rw [List.map_cons, withoutComments, ih]
    · rfl
    · simp

theorem findMark_append {isMark : Char → Bool} {text : List Char}
    (h : ∀ c ∈ text, isValueChar c = true ∧ isMark c = false) (s : List Char) :
    findMark isMark none 0 (text ++ s) =
      (findMark isMark none 0 s).map (behind (text.map .code)) := by
  induction text with
  | nil => exact (map_behind_nil _).symm
  | cons c text ih =>
    rw [List.forall_mem_cons] at h
    obtain ⟨hplain, -, hopen, hclose⟩ := isValueChar_iff.1 h.1.1
    rw [List.cons_append, findMark_plain hplain h.1.2, parenDepth_of_ne hopen hclose, ih h.2,
      map_behind_behind]
    rfl

theorem Grammar.Heading.of_forall {isMark : Char → Bool} {mark : Char}
    (hplain : isPlain mark = true) (hmark : isMark mark = true) {text : List Char}
    (h : ∀ c ∈ text, isValueChar c = true ∧ isMark c = false) (rest : List Char) :
    ∃ us, Heading isMark mark (text ++ mark :: rest) text us rest := by
  have hfound : findMark isMark none 0 (text ++ mark :: rest) =
      some (text.map .code ++ [], mark :: rest) := by
    rw [findMark_append h, findMark_mark hplain hmark]
    rfl
  have hheading := Heading.mk hfound
  rw [List.append_nil, withoutComments_code] at hheading
  exact ⟨_, hheading⟩

theorem Trivia.pad {pad s rest : List Char} (hpad : Blank pad) (h : Trivia s rest) :
    Trivia (pad ++ s) rest := by
  induction pad with
  | nil => exact h
  | cons c pad ih =>
    rw [Blank, List.forall_mem_cons] at hpad
    exact .blank hpad.1 (ih hpad.2)

-- ---------------------------------------------------------------------------
-- Declarations
-- ---------------------------------------------------------------------------

/-- A property that a sheet can name: it is not empty, and has neither blanks nor characters that
mean something else to a sheet. -/
structure WritableProperty (name : String) : Prop where
  nonempty : name ≠ ""
  chars : ∀ c ∈ name.toList, Text.isBlank c = false ∧ c ≠ ':' ∧ c ∉ structural

structure WritableValue (text : String) : Prop where
  parses : ∃ e, Expr.parse text = .ok e
  noLineComment : NoLineComment text.toList

instance (name : String) : Decidable (WritableProperty name) :=
  decidable_of_iff
    (name ≠ "" ∧ ∀ c ∈ name.toList, Text.isBlank c = false ∧ c ≠ ':' ∧ c ∉ structural)
    ⟨fun h => ⟨h.1, h.2⟩, fun h => ⟨h.nonempty, h.chars⟩⟩

instance (text : String) : Decidable (WritableValue text) :=
  decidable_of_iff ((Expr.parse text).isOk = true ∧ NoLineComment text.toList)
    ⟨fun h => ⟨isOk_iff.1 h.1, h.2⟩, fun h => ⟨isOk_iff.2 h.parses, h.noLineComment⟩⟩

def ReadAs {p : Type} (written : String × String) (item : Item p) : Prop :=
  ∃ d e, item = .declaration d ∧ d.property = written.1 ∧ Expr.parse written.2 = .ok e ∧
    d.value.mapPlaces (fun _ => ()) = e.mapPlaces fun _ => ()

section
variable {name text : String} (hname : WritableProperty name)
include hname

theorem WritableProperty.isProperty : IsProperty name.toList :=
  ⟨by simpa using hname.nonempty, fun c hc => (hname.chars c hc).1⟩

theorem WritableProperty.startsToken (s : List Char) : startsToken (name.toList ++ s) := by
  cases h : name.toList with
  | nil => exact absurd h hname.isProperty.1
  | cons c t =>
    obtain ⟨hblank, -, hc⟩ := hname.chars c (by simp [h])
    refine startsToken_cons.2 ⟨hblank, ?_⟩
    rintro rfl
    exact absurd (by decide) hc

theorem WritableProperty.unmarked :
    ∀ c ∈ name.toList, isValueChar c = true ∧ isPropertyMark c = false := by
  intro c hc
  obtain ⟨-, hcolon, hstructural⟩ := hname.chars c hc
  have hvalue := isValueChar_of_not_mem hstructural
  refine ⟨hvalue, ?_⟩
  rw [isPropertyMark, (isValueChar_iff.1 hvalue).2.1, Bool.or_false, beq_eq_false_iff_ne]
  exact hcolon

omit hname in
theorem Grammar.DeclarationEnd.isEnd {u rest : List Char} {vs : List Token}
    (h : DeclarationEnd u vs rest) : IsEnd u := by
  cases h with
  | semicolon => exact ⟨_, _, rfl, .inl rfl⟩
  | close => exact ⟨_, _, rfl, .inr rfl⟩

/-- In front of its end a value is read as it is read by itself. -/
theorem declaration_of_whole {levels : Nat} {s s' s'' : List Char} {raw : RawExpr}
    (hblank : Trivia s s') (hvalue : CommaList (Primary levels) s' raw s'')
    (hblank' : Trivia s'' []) (hs : NoLineComment s) {gap : List Char} (hgap : Blank gap)
    {u rest : List Char} {vs : List Token} (hend : DeclarationEnd u vs rest) :
    ∃ d ts, DeclarationOf (CommaList (Primary levels))
      (name.toList ++ ':' :: (gap ++ (s ++ u))) d ts rest ∧
      d.property = name ∧ d.value = raw.mapPlaces (· ++ u) := by
  have hu := hend.isEnd
  have hm := retexting_append hu
  have hwalks := CommaList.walks (Primary.walks levels)
  have hs' := hm.along hblank.walked hs
  have hs'' := hm.along (hwalks hvalue) hs'
  have hblank := (hblank.append hu hs).pad hgap
  have hvalue := CommaList.retexts hm (Primary.walks levels) (Primary.retexts hm _) hvalue hs'
  have hblank' := hblank'.append hu hs''
  obtain ⟨ts, hts⟩ := (hblank.walked.trans (hwalks hvalue)).trans hblank'.walked
  obtain ⟨us, hheading⟩ := Heading.of_forall (show isPlain ':' = true by decide) (by decide)
    hname.unmarked (gap ++ (s ++ u))
  have htrim := Text.trim_of_forall hname.isProperty.2
  have hproperty : IsProperty (Text.trim name.toList) := by
    rw [htrim]
    exact hname.isProperty
  refine ⟨_, _, .mk hheading hproperty hblank hvalue hblank' hts hend, ?_, rfl⟩
  rw [htrim, String.ofList_toList]

theorem declaration_of_writable (htext : WritableValue text) {gap : List Char} (hgap : Blank gap)
    {u rest : List Char} {vs : List Token} (hend : DeclarationEnd u vs rest) :
    ∃ d ts, DeclarationOf (CommaList (Primary maxNesting))
      (name.toList ++ ':' :: (gap ++ (text.toList ++ u))) d ts rest ∧
      ReadAs (name, text) (.declaration d) := by
  obtain ⟨e, he⟩ := htext.parses
  obtain ⟨raw, hraw, rfl⟩ := Expr.parse_ok.1 he
  obtain ⟨s', s'', hblank, hvalue, hblank'⟩ := readWhole_ok.1 hraw
  obtain ⟨d, ts, hd, hproperty, hd'⟩ := declaration_of_whole hname hblank hvalue hblank'
    htext.noLineComment hgap hend
  refine ⟨d, ts, hd, d, _, rfl, hproperty, he, ?_⟩
  simp only [hd', Expr.mapPlaces_mapPlaces]
  rfl

theorem Grammar.BlockItems.cons_writable (htext : WritableValue text) {pad gap : List Char}
    (hpad : Blank pad) (hgap : Blank gap) {R : Traced RawRule} {u s rest : List Char}
    {vs ts : List Token} (hend : DeclarationEnd u vs s) {items : List RawItem}
    (h : BlockItems R (CommaList (Primary maxNesting)) s items ts rest) :
    ∃ item ts', BlockItems R (CommaList (Primary maxNesting))
      (pad ++ (name.toList ++ ':' :: (gap ++ (text.toList ++ u)))) (item :: items) ts' rest ∧
      ReadAs (name, text) item := by
  obtain ⟨d, us, hd, hread⟩ := declaration_of_writable hname htext hgap hend
  have hblank := Trivia.pad hpad
    (.done (hname.startsToken (':' :: (gap ++ (text.toList ++ u)))))
  obtain ⟨ts', hts'⟩ := hblank.walked
  exact ⟨_, _, .declaration hblank hts' hd h, hread⟩

end

end HostSheet
