import HostSheet.Css.Block
import HostSheet.Proofs.Sheet.Declaring

/-!
# Sheets of blocks

A sheet that is written out block by block is read as these blocks, whatever blanks stand between
their parts. Its values may be anything that can be read by itself, save comments that go on to the
end of their line.
-/

namespace HostSheet

open Grammar

-- ---------------------------------------------------------------------------
-- Selectors
-- ---------------------------------------------------------------------------

theorem ne_comma_of_blank {pad : List Char} (h : Blank pad) : ∀ c ∈ pad, (c == ',') = false :=
  forall_ne_of_not_mem (h.not_mem (by decide))

def IsSelector (text : List Char) : Prop :=
  List.intercalate [' '] (Text.words text) = text ∧ ∀ c ∈ text, (c == ',') = false

theorem selectors_joined {pre gap post : List Char} (hpre : Blank pre) (hgap : Blank gap)
    (hpost : Blank post) {first : List Char} {more : List (List Char)}
    (h : ∀ text ∈ first :: more, IsSelector text) :
    (Text.splitAtEach (· == ',')
      (pre ++ (List.intercalate (',' :: gap) (first :: more) ++ post))).map
        (fun part => List.intercalate [' '] (Text.words part)) = first :: more := by
  induction more generalizing pre first with
  | nil =>
    obtain ⟨hwords, hcomma⟩ := h first List.mem_cons_self
    rw [List.intercalate_singleton, Text.splitAtEach_of_forall, List.map_singleton,
      Text.words_padded hpre hpost, hwords]
    simp only [List.forall_mem_append]
    exact ⟨ne_comma_of_blank hpre, hcomma, ne_comma_of_blank hpost⟩
  | cons second more ih =>
    obtain ⟨hwords, hcomma⟩ := h first List.mem_cons_self
    have htext : pre ++ (List.intercalate (',' :: gap) (first :: second :: more) ++ post) =
        (pre ++ first) ++ ',' ::
          (gap ++ (List.intercalate (',' :: gap) (second :: more) ++ post)) := by
      rw [List.intercalate_cons_cons]
      simp
    have hpart : Text.words (pre ++ first) = Text.words first := by
      simpa using Text.words_padded hpre blank_nil first
    rw [htext, Text.splitAtEach_append_cut _ rfl, List.map_cons,
      ih hgap (fun text ht => h text (List.mem_cons_of_mem _ ht)), hpart, hwords]
    rw [List.forall_mem_append]
    exact ⟨ne_comma_of_blank hpre, hcomma⟩

theorem selectorsOf_joined {gap post : List Char} (hgap : Blank gap) (hpost : Blank post)
    {sels : List String} (hne : sels ≠ []) (h : ∀ sel ∈ sels, sel ≠ "" ∧ IsSelector sel.toList) :
    selectorsOf (List.intercalate (',' :: gap) (sels.map String.toList) ++ post) = sels := by
  have htexts : ∀ text ∈ sels.map String.toList, text ≠ [] ∧ IsSelector text := by
    intro text ht
    obtain ⟨sel, hsel, rfl⟩ := List.mem_map.1 ht
    exact ⟨by simpa using (h sel hsel).1, (h sel hsel).2⟩
  have hparts : (Text.splitAtEach (· == ',')
      (List.intercalate (',' :: gap) (sels.map String.toList) ++ post)).map
        (fun part => List.intercalate [' '] (Text.words part)) = sels.map String.toList := by
    obtain ⟨first, more, rfl⟩ := List.exists_cons_of_ne_nil hne
    exact selectors_joined blank_nil hgap hpost fun text ht => (htexts text ht).2
  rw [selectorsOf]
  simp only [hparts]
  rw [List.filter_eq_self.2]
  · simp [Function.comp_def]
  · intro text ht
    simpa using (htexts text ht).1

-- ---------------------------------------------------------------------------
-- Blocks
-- ---------------------------------------------------------------------------

inductive Laid : List (String × String) → List Char → Prop
  | close {pad} : Blank pad → Laid [] (pad ++ ['}'])
  | semicolon {pad gap name text ds s} : Blank pad → Blank gap → Laid ds s →
      Laid ((name, text) :: ds)
        (pad ++ (name.toList ++ ':' :: (gap ++ (text.toList ++ ';' :: s))))
  | last {pad gap name text} : Blank pad → Blank gap →
      Laid [(name, text)] (pad ++ (name.toList ++ ':' :: (gap ++ (text.toList ++ ['}']))))

theorem Laid.of_singleton {name text : String} {s : List Char} (h : Laid [(name, text)] s) :
    ∃ pad gap u, Blank pad ∧ Blank gap ∧ IsEnd u ∧
      s = pad ++ (name.toList ++ ':' :: (gap ++ (text.toList ++ u))) := by
  cases h with
  | semicolon hpad hgap => exact ⟨_, _, _, hpad, hgap, ⟨_, _, rfl, .inl rfl⟩, rfl⟩
  | last hpad hgap => exact ⟨_, _, _, hpad, hgap, ⟨_, _, rfl, .inr rfl⟩, rfl⟩

theorem Laid.blockItems (R : Traced RawRule) {ds : List (String × String)} {s : List Char}
    (h : Laid ds s) (hds : ∀ d ∈ ds, WritableProperty d.1 ∧ WritableValue d.2)
    (rest : List Char) : ∃ items ts,
      BlockItems R (CommaList (Primary maxNesting)) (s ++ rest) items ts rest ∧
        List.Forall₂ ReadAs ds items := by
  have hclose : startsToken ('}' :: rest) := startsToken_cons.2 ⟨by decide, by simp⟩
  induction h with
  | @close pad hpad =>
    rw [List.append_assoc]
    have hblank : Trivia (pad ++ (['}'] ++ rest)) ('}' :: rest) := .pad hpad (.done hclose)
    obtain ⟨ts, hts⟩ := hblank.walked
    exact ⟨[], _, .close hblank hts, .nil⟩
  | @semicolon pad gap name text ds s hpad hgap _ ih =>
    rw [List.forall_mem_cons] at hds
    obtain ⟨items, us, hitems, hread⟩ := ih hds.2
    obtain ⟨item, ts, h, hreadAs⟩ := hitems.cons_writable hds.1.1 hds.1.2 hpad hgap .semicolon
    refine ⟨_, ts, ?_, .cons hreadAs hread⟩
    simpa only [List.append_assoc, List.cons_append] using h
  | @last pad gap name text hpad hgap =>
    rw [List.forall_mem_singleton] at hds
    obtain ⟨item, ts, h, hreadAs⟩ := (BlockItems.close (R := R) (.done hclose) .nil).cons_writable
      hds.1 hds.2 hpad hgap .close
    refine ⟨_, ts, ?_, .cons hreadAs .nil⟩
    simpa only [List.append_assoc, List.cons_append, List.nil_append] using h

-- ---------------------------------------------------------------------------
-- Rules
-- ---------------------------------------------------------------------------

structure WritableSelector (text : String) : Prop where
  nonempty : text ≠ ""
  words : List.intercalate [' '] (Text.words text.toList) = text.toList
  chars : ∀ c ∈ text.toList, c ≠ ',' ∧ c ∉ structural

instance (text : String) : Decidable (WritableSelector text) :=
  decidable_of_iff
    (text ≠ "" ∧ List.intercalate [' '] (Text.words text.toList) = text.toList ∧
      ∀ c ∈ text.toList, c ≠ ',' ∧ c ∉ structural)
    ⟨fun h => ⟨h.1, h.2.1, h.2.2⟩, fun h => ⟨h.nonempty, h.words, h.chars⟩⟩

namespace Block

structure Writable (b : Block) : Prop where
  selected : b.selectors ≠ []
  selectors : ∀ sel ∈ b.selectors, WritableSelector sel
  declarations : ∀ d ∈ b.declarations, WritableProperty d.1 ∧ WritableValue d.2

instance (b : Block) : Decidable b.Writable :=
  decidable_of_iff
    (b.selectors ≠ [] ∧ (∀ sel ∈ b.selectors, WritableSelector sel) ∧
      ∀ d ∈ b.declarations, WritableProperty d.1 ∧ WritableValue d.2)
    ⟨fun h => ⟨h.1, h.2.1, h.2.2⟩, fun h => ⟨h.selected, h.selectors, h.declarations⟩⟩

def ReadBack {p : Type} (b : Block) (rule : Rule p) : Prop :=
  rule.selectors = b.selectors ∧ List.Forall₂ ReadAs b.declarations rule.items

end Block

theorem forall_mem_intercalate {P : Char → Prop} {sep : List Char} (hsep : ∀ c ∈ sep, P c)
    {texts : List (List Char)} (h : ∀ text ∈ texts, ∀ c ∈ text, P c) :
    ∀ c ∈ List.intercalate sep texts, P c := by
  induction texts with
  | nil => simp
  | cons first more ih =>
    rw [List.forall_mem_cons] at h
    cases more with
    | nil => simpa using h.1
    | cons second more =>
      rw [List.intercalate_cons_cons]
      simp only [List.forall_mem_append]
      exact ⟨⟨h.1, hsep⟩, ih h.2⟩

theorem isBlockMark_of_isValueChar {c : Char} (h : isValueChar c = true) :
    isValueChar c = true ∧ isBlockMark c = false :=
  ⟨h, (isValueChar_iff.1 h).2.1⟩

section
variable {b : Block} (hb : b.Writable) {gap post : List Char} (hgap : Blank gap)
  (hpost : Blank post)
include hb

include hgap hpost in
theorem Block.Writable.unmarked : ∀ c ∈ List.intercalate (',' :: gap)
    (b.selectors.map String.toList) ++ post, isValueChar c = true ∧ isBlockMark c = false := by
  have hblank : ∀ {pad}, Blank pad → ∀ c ∈ pad, isValueChar c = true := fun hpad c hc =>
    isValueChar_of_isBlank (hpad c hc)
  intro c hc
  refine isBlockMark_of_isValueChar ?_
  revert c
  rw [List.forall_mem_append]
  refine ⟨forall_mem_intercalate (List.forall_mem_cons.2 ⟨by decide, hblank hgap⟩) ?_,
    hblank hpost⟩
  intro text ht c hc
  obtain ⟨sel, hsel, rfl⟩ := List.mem_map.1 ht
  exact isValueChar_of_not_mem ((hb.selectors sel hsel).chars c hc).2

theorem Block.Writable.startsToken (sep s : List Char) :
    startsToken (List.intercalate sep (b.selectors.map String.toList) ++ s) := by
  obtain ⟨first, more, hsels⟩ := List.exists_cons_of_ne_nil hb.selected
  have hfirst := hb.selectors first (by simp [hsels])
  cases h : first.toList with
  | nil => exact absurd h (by simpa using hfirst.nonempty)
  | cons c t =>
    have hhead : (List.intercalate [' '] (Text.words first.toList)).head? = some c := by
      rw [hfirst.words, h, List.head?_cons]
    have hblank := Text.isBlank_head_joined (fun _ => Text.of_mem_words) hhead
    have hslash : c ≠ '/' := by
      rintro rfl
      exact absurd (by decide) (hfirst.chars '/' (by simp [h])).2
    have hhead : ∃ t', List.intercalate sep (b.selectors.map String.toList) ++ s = c :: t' := by
      cases more <;> simp [hsels, h, List.intercalate_cons_cons]
    obtain ⟨t', ht'⟩ := hhead
    rw [ht']
    exact startsToken_cons.2 ⟨hblank, fun hc => absurd hc hslash⟩

include hgap hpost in
theorem Block.Writable.selectorsOf :
    selectorsOf (List.intercalate (',' :: gap) (b.selectors.map String.toList) ++ post) =
      b.selectors := by
  refine selectorsOf_joined hgap hpost hb.selected fun sel hsel => ?_
  have hsel := hb.selectors sel hsel
  exact ⟨hsel.nonempty, hsel.words, fun c hc => beq_eq_false_iff_ne.2 (hsel.chars c hc).1⟩

include hgap hpost in
theorem Laid.rule {s : List Char} (h : Laid b.declarations s) (rest : List Char) :
    ∃ r ts, Ruled maxNesting (List.intercalate (',' :: gap) (b.selectors.map String.toList) ++ post
      ++ '{' :: (s ++ rest)) r ts rest ∧ b.ReadBack r := by
  obtain ⟨items, ts, hitems, hread⟩ := h.blockItems (Ruled (maxNesting - 1)) hb.declarations rest
  obtain ⟨us, hheading⟩ := Heading.of_forall (show isPlain '{' = true by decide) (by decide)
    (hb.unmarked hgap hpost) (s ++ rest)
  have hselectors := hb.selectorsOf hgap hpost
  refine ⟨_, _, RuleOf.mk hheading ?_ hitems, ?_, hread⟩
  · rw [hselectors]
    exact hb.selected
  · exact hselectors

end

inductive LaidSheet : List Block → List Char → Prop
  | nil {pad} : Blank pad → LaidSheet [] pad
  | cons {pad gap post b s bs t} : Blank pad → Blank gap → Blank post → Laid b.declarations s →
      LaidSheet bs t → LaidSheet (b :: bs) (pad ++
        (List.intercalate (',' :: gap) (b.selectors.map String.toList) ++ post ++ '{' :: (s ++ t)))

theorem LaidSheet.of_value {sels : List String} {name text : String} {s : List Char}
    (h : LaidSheet [⟨sels, [(name, text)]⟩] s) :
    ∃ pad gap post pad' gap' u, Blank pad ∧ Blank gap ∧ Blank post ∧ Blank pad' ∧ Blank gap' ∧
      IsEnd u ∧ s = pad ++ (List.intercalate (',' :: gap) (sels.map String.toList) ++ post ++ '{' ::
        (pad' ++ (name.toList ++ ':' :: (gap' ++ (text.toList ++ u))))) := by
  cases h with
  | @cons pad gap post b inside bs t hpad hgap hpost hlaid =>
    obtain ⟨pad', gap', u, hpad', hgap', hu, rfl⟩ := hlaid.of_singleton
    refine ⟨pad, gap, post, pad', gap', u ++ t, hpad, hgap, hpost, hpad', hgap', hu.append t, ?_⟩
    simp only [List.append_assoc, List.cons_append]

/-- However it is laid out, a sheet of blocks is read as these blocks. -/
theorem LaidSheet.rules {bs : List Block} {s : List Char} (h : LaidSheet bs s)
    (hbs : ∀ b ∈ bs, b.Writable) :
    ∃ rules ts, Rules s rules ts ∧ List.Forall₂ Block.ReadBack bs rules := by
  induction h with
  | @nil pad hpad =>
    have hblank : Trivia pad [] := by
      have hend : startsToken [] := ⟨rfl, rfl⟩
      have := Trivia.pad hpad (.done hend)
      rwa [List.append_nil] at this
    obtain ⟨ts, hts⟩ := hblank.walked
    exact ⟨[], ts, .nil hblank hts, .nil⟩
  | @cons pad gap post b s bs t hpad hgap hpost hlaid _ ih =>
    rw [List.forall_mem_cons] at hbs
    obtain ⟨rules, vs, hrules, hread⟩ := ih hbs.2
    obtain ⟨r, us, hrule, hback⟩ := hlaid.rule hbs.1 hgap hpost t
    have hstart := hbs.1.startsToken (',' :: gap) (post ++ '{' :: (s ++ t))
    rw [← List.append_assoc] at hstart
    have hblank := Trivia.pad hpad (.done hstart)
    obtain ⟨ts, hts⟩ := hblank.walked
    exact ⟨_, _, .cons hblank hts hrule hrules, .cons hback hread⟩

theorem readRules_of_value {sel name text : String} (hsel : WritableSelector sel)
    (hname : WritableProperty name) (htext : WritableValue text) :
    ∃ r item, readRules (sel.toList ++ '{' :: (name.toList ++ ':' :: (text.toList ++ ['}']))) =
      .ok [r] ∧ r.items = [item] ∧ ReadAs (name, text) item := by
  have hwritable : (⟨[sel], [(name, text)]⟩ : Block).Writable :=
    ⟨by simp, List.forall_mem_singleton.2 hsel, List.forall_mem_singleton.2 ⟨hname, htext⟩⟩
  have hlaid : LaidSheet [⟨[sel], [(name, text)]⟩] _ :=
    .cons blank_nil blank_nil blank_nil (.last blank_nil blank_nil) (.nil blank_nil)
  obtain ⟨rules, ts, hrules, hback⟩ := hlaid.rules (List.forall_mem_singleton.2 hwritable)
  simp only [List.forall₂_cons_left_iff, List.forall₂_nil_left_iff] at hback
  obtain ⟨r, _, ⟨-, hitems⟩, rfl, rfl⟩ := hback
  simp only [List.forall₂_cons_left_iff, List.forall₂_nil_left_iff] at hitems
  obtain ⟨item, _, hread, rfl, hitem⟩ := hitems
  exact ⟨r, item, readRules_ok.2 ⟨ts, by simpa using hrules⟩, hitem, hread⟩

end HostSheet
