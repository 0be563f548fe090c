import HostSheet.Proofs.Sheet.Lexing
import HostSheet.Proofs.Sheet.Searching
import HostSheet.Sheet.Parse

/-!
# The grammar of blocks

Before a rule or a declaration is read, its text is searched for a mark, and the reading goes on
behind the mark. The grammar says what a text is read as and by which tokens it is passed over: the
tokens of the cursor, and a heading for each text that was searched.
-/

namespace HostSheet

/-- A grammar that keeps the tokens. That `form s a ts rest` holds means that `s` is read as `a` up
to `rest`, and that what is passed over on the way are the tokens `ts`. -/
abbrev Traced (α : Type) := List Char → α → List Token → List Char → Prop

namespace Grammar

/-- The text in front of a mark, which is the first of its kind, and the mark. -/
inductive Heading (isMark : Char → Bool) (mark : Char) : Traced (List Char)
  | mk {s before rest} : findMark isMark none 0 s = some (before, mark :: rest) →
      Heading isMark mark s (withoutComments before) [.heading before, .code mark] rest

inductive DeclarationEnd : List Char → List Token → List Char → Prop
  | semicolon {s} : DeclarationEnd (';' :: s) [.code ';'] s
  | close {s} : DeclarationEnd ('}' :: s) [] ('}' :: s)

def IsProperty (name : List Char) : Prop :=
  name ≠ [] ∧ ∀ c ∈ name, Text.isBlank c = false

inductive DeclarationOf (Val : Form RawExpr) : Traced (Declaration (List Char))
  | mk {s name us s₁ s₂ e s₃ s₄ ts vs rest} : Heading isPropertyMark ':' s name us s₁ →
      IsProperty (Text.trim name) → Trivia s₁ s₂ → Val s₂ e s₃ → Trivia s₃ s₄ →
      Lexed s₁ ts s₄ → DeclarationEnd s₄ vs rest →
      DeclarationOf Val s ⟨String.ofList (Text.trim name), e, s⟩ (us ++ ts ++ vs) rest

section
variable (R : Traced RawRule) (Val : Form RawExpr)

inductive BlockItems : Traced (List RawItem)
  | close {s ts rest} : Trivia s ('}' :: rest) → Lexed s ts ('}' :: rest) →
      BlockItems s [] (ts ++ [.code '}']) rest
  | semicolon {s ts s' items us rest} : Trivia s (';' :: s') → Lexed s ts (';' :: s') →
      BlockItems s' items us rest → BlockItems s items (ts ++ .code ';' :: us) rest
  | rule {s ts s' r us s'' items vs rest} : Trivia s s' → Lexed s ts s' → R s' r us s'' →
      BlockItems s'' items vs rest → BlockItems s (.rule r :: items) (ts ++ us ++ vs) rest
  | declaration {s ts s' d us s'' items vs rest} : Trivia s s' → Lexed s ts s' →
      DeclarationOf Val s' d us s'' → BlockItems s'' items vs rest →
      BlockItems s (.declaration d :: items) (ts ++ us ++ vs) rest

inductive RuleOf : Traced RawRule
  | mk {s text us s' items ts rest} : Heading isBlockMark '{' s text us s' →
      selectorsOf text ≠ [] → BlockItems R Val s' items ts rest →
      RuleOf s (.mk (selectorsOf text) items s) (us ++ ts) rest

end

def Ruled : (levels : Nat) → Traced RawRule
  | 0 => RuleOf (fun _ _ _ _ => False) (CommaList (Primary 0))
  | levels + 1 => RuleOf (Ruled levels) (CommaList (Primary (levels + 1)))

inductive Rules : List Char → List RawRule → List Token → Prop
  | nil {s ts} : Trivia s [] → Lexed s ts [] → Rules s [] ts
  | cons {s ts s' rule us s'' rules vs} : Trivia s s' → Lexed s ts s' →
      Ruled maxNesting s' rule us s'' → Rules s'' rules vs →
      Rules s (rule :: rules) (ts ++ us ++ vs)

end Grammar

open Grammar

-- ---------------------------------------------------------------------------
-- Searches
-- ---------------------------------------------------------------------------

section
variable {isMark : Char → Bool} {mark : Char} {s rest text : List Char} {us : List Token}

theorem textBefore?_some :
    (∃ shorter, textBefore? isMark mark s = some ⟨text, rest, shorter⟩) ↔
      ∃ us, Heading isMark mark s text us rest := by
  unfold textBefore?
  constructor
  · rintro ⟨_, h⟩
    split at h
    · rename_i before c rest' hfound
      split at h
      · rename_i hc
        cases h
        subst hc
        exact ⟨_, .mk hfound⟩
      · cases h
    · cases h
  · rintro ⟨_, ⟨hfound⟩⟩
    split
    · rename_i hfound'
      rw [hfound] at hfound'
      cases hfound'
      exact ⟨length_of_findMark hfound, if_pos rfl⟩
    · rename_i hnone
      exact absurd hfound (hnone _ _ _)

theorem Grammar.Heading.ne_nil (h : Heading isMark mark s text us rest) : s ≠ [] := by
  obtain ⟨hfound⟩ := h
  rintro rfl
  rw [findMark] at hfound
  cases hfound

theorem Grammar.Heading.head_ne (h : Heading isMark mark s text us rest) {c : Char}
    (hplain : isPlain c = true) (hc : isMark c = true) (hne : c ≠ mark) : s.head? ≠ some c := by
  obtain ⟨hfound⟩ := h
  intro hhead
  cases s with
  | nil => cases hhead
  | cons d s =>
    cases hhead
    rw [findMark_mark hplain hc] at hfound
    cases hfound
    exact hne rfl

end

theorem startsRule_iff {s : List Char} :
    startsRule s = true ↔ ∃ text us rest, Heading isBlockMark '{' s text us rest := by
  rw [startsRule, Option.isSome_iff_exists]
  constructor
  · rintro ⟨taken, h⟩
    obtain ⟨us, h⟩ := textBefore?_some.1 ⟨_, h⟩
    exact ⟨_, us, _, h⟩
  · rintro ⟨text, us, rest, h⟩
    obtain ⟨_, h⟩ := textBefore?_some.2 ⟨us, h⟩
    exact ⟨_, h⟩

-- ---------------------------------------------------------------------------
-- Declarations
-- ---------------------------------------------------------------------------

theorem isPropertyMark_of_isBlockMark (c : Char) (h : isBlockMark c = true) :
    isPropertyMark c = true := by
  simp [isPropertyMark, h]

section
variable {Val : Form RawExpr} {s rest : List Char} {d : Declaration (List Char)} {ts : List Token}

/-- The first mark behind a declaration is that of its end, so it is not taken for a rule. -/
theorem Grammar.DeclarationOf.startsRule_eq_false (h : DeclarationOf Val s d ts rest) :
    startsRule s = false := by
  obtain @⟨_, _, _, _, _, _, _, s₄, _, _, _, ⟨hfound⟩, -, -, -, -, hlexed, hend⟩ := h
  have hmark : ∃ c t, s₄ = c :: t ∧ isPlain c = true ∧ isBlockMark c = true ∧ c ≠ '{' := by
    cases hend with
    | semicolon => exact ⟨';', _, rfl, by decide, by decide, by decide⟩
    | close => exact ⟨'}', _, rfl, by decide, by decide, by decide⟩
  obtain ⟨c, t, rfl, hplain, hc, hne⟩ := hmark
  have hsearch : ∃ passed, findMark isBlockMark none 0 s = some (passed, c :: t) := by
    rw [(findMark_iff.1 hfound).findMark_eq isPropertyMark_of_isBlockMark,
      findMark_plain (by decide) (by decide), parenDepth_of_ne (by decide) (by decide),
      hlexed.findMark_eq fun _ => id, findMark_mark hplain hc]
    exact ⟨_, rfl⟩
  obtain ⟨passed, hsearch⟩ := hsearch
  rw [← Bool.not_eq_true, startsRule_iff]
  rintro ⟨text, us, rest, ⟨hrule⟩⟩
  rw [hsearch] at hrule
  cases hrule
  exact hne rfl

theorem declarationEnd_ok {skipped : Skipped Unit s} (h : declarationEnd s = .ok skipped) :
    ∃ ts, DeclarationEnd s ts skipped.rest := by
  unfold declarationEnd at h
  split at h
  · cases h
    exact ⟨_, .semicolon⟩
  · cases h
    exact ⟨_, .close⟩
  · cases h

theorem Grammar.DeclarationEnd.complete {ts : List Token} (h : DeclarationEnd s ts rest) :
    ∃ noLonger, declarationEnd s = .ok ⟨(), rest, noLonger⟩ := by
  cases h with
  | semicolon => exact Skipped.found rfl rfl rfl
  | close => exact Skipped.found rfl rfl rfl

theorem isProperty_iff {name : List Char} :
    IsProperty name ↔ ¬ (name.isEmpty || name.any Text.isBlank) = true := by
  simp [IsProperty]

theorem reads_readDeclaration {value : Reader RawExpr} (hvalue : value.Reads.Walks) :
    (readDeclaration value).Reads s d rest ↔ ∃ ts, DeclarationOf value.Reads s d ts rest := by
  constructor
  · rintro ⟨_, h⟩
    rw [readDeclaration] at h
    split at h
    · cases h
    · rename_i name hname
      obtain ⟨us, hheading⟩ := textBefore?_some.1 ⟨_, hname⟩
      simp only at h
      split at h
      · simp at h
      · rename_i hproperty
        obtain ⟨blank, hblank, h⟩ := bind_ok.1 h
        obtain ⟨v, hv, h⟩ := bind_ok.1 h
        obtain ⟨blank', hblank', h⟩ := bind_ok.1 h
        obtain ⟨ended, hended, h⟩ := bind_ok.1 h
        cases h
        have hblank : Trivia name.rest blank.rest := ⟨_, hblank⟩
        have hv : value.Reads blank.rest v.value v.rest := ⟨_, hv⟩
        have hblank' : Trivia v.rest blank'.rest := ⟨_, hblank'⟩
        obtain ⟨ts, hts⟩ := (hblank.walked.trans (hvalue hv)).trans hblank'.walked
        obtain ⟨vs, hend⟩ := declarationEnd_ok hended
        exact ⟨_, .mk hheading (isProperty_iff.2 hproperty) hblank hv hblank' hts hend⟩
  · rintro ⟨ts, ⟨hheading, hproperty, ⟨_, hblank⟩, ⟨_, hv⟩, ⟨_, hblank'⟩, -, hend⟩⟩
    obtain ⟨_, hname⟩ := textBefore?_some.2 ⟨_, hheading⟩
    obtain ⟨_, hend⟩ := hend.complete
    rw [Reader.Reads, readDeclaration, hname]
    simp only
    rw [if_neg (isProperty_iff.1 hproperty), hblank, ok_bind, hv, ok_bind, hblank', ok_bind, hend]
    exact Taken.found rfl rfl rfl

end

-- ---------------------------------------------------------------------------
-- Blocks
-- ---------------------------------------------------------------------------

section
variable {rule : Reader RawRule} {value : Reader RawExpr} {R : Traced RawRule}

theorem blockItems_sound (hvalue : value.Reads.Walks)
    (hrule : ∀ {s r rest}, rule.Reads s r rest → ∃ ts, R s r ts rest) {s : List Char}
    {taken : Taken (List RawItem) s} (h : blockItems rule value s = .ok taken) :
    ∃ ts, BlockItems R value.Reads s taken.value ts taken.rest := by
  -- The recursion is the reader's own: behind an item the text is shorter.
  rw [blockItems] at h
  obtain ⟨blank, hblank, h⟩ := bind_ok.1 h
  have hblank : Trivia s blank.rest := ⟨_, hblank⟩
  obtain ⟨ts, hts⟩ := hblank.walked
  split at h
  · rename_i closed _ hclosed
    cases h
    rw [takeChar?_some hclosed] at hblank hts
    exact ⟨_, .close hblank hts⟩
  · rename_i semicolon _ hsemicolon
    obtain ⟨more, hmore, h⟩ := bind_ok.1 h
    cases h
    rw [takeChar?_some hsemicolon] at hblank hts
    have hshorter : semicolon.rest.length < s.length := (blank.andTake semicolon).shorter
    obtain ⟨us, hus⟩ := blockItems_sound hvalue hrule hmore
    exact ⟨_, .semicolon hblank hts hus⟩
  · split at h
    · simp at h
    · split at h
      · obtain ⟨r, hr, h⟩ := bind_ok.1 h
        obtain ⟨more, hmore, h⟩ := bind_ok.1 h
        cases h
        have hshorter : r.rest.length < s.length := (blank.andTake r).shorter
        obtain ⟨us, hus⟩ := hrule ⟨_, hr⟩
        obtain ⟨vs, hvs⟩ := blockItems_sound hvalue hrule hmore
        exact ⟨_, .rule hblank hts hus hvs⟩
      · obtain ⟨d, hd, h⟩ := bind_ok.1 h
        obtain ⟨more, hmore, h⟩ := bind_ok.1 h
        cases h
        have hshorter : d.rest.length < s.length := (blank.andTake d).shorter
        obtain ⟨us, hus⟩ := (reads_readDeclaration hvalue).1 ⟨_, hd⟩
        obtain ⟨vs, hvs⟩ := blockItems_sound hvalue hrule hmore
        exact ⟨_, .declaration hblank hts hus hvs⟩
termination_by s.length

theorem Grammar.Heading.starts_item {isMark : Char → Bool} {mark : Char} {s text rest : List Char}
    {us : List Token} (h : Heading isMark mark s text us rest)
    (hmarks : ∀ c, isBlockMark c = true → isMark c = true) (hclose : '}' ≠ mark)
    (hsemicolon : ';' ≠ mark) :
    takeChar? '}' s = none ∧ takeChar? ';' s = none ∧ s.isEmpty = false := by
  refine ⟨takeChar?_none.2 ?_, takeChar?_none.2 ?_, by simpa using h.ne_nil⟩
  · exact h.head_ne (by decide) (hmarks _ (by decide)) hclose
  · exact h.head_ne (by decide) (hmarks _ (by decide)) hsemicolon

theorem blockItems_complete (hvalue : value.Reads.Walks)
    (hrule : ∀ {s r ts rest}, R s r ts rest → rule.Reads s r rest ∧ startsRule s = true)
    {s rest : List Char} {items : List RawItem} {ts : List Token}
    (h : BlockItems R value.Reads s items ts rest) :
    ∃ shorter, blockItems rule value s = .ok ⟨items, rest, shorter⟩ := by
  induction h with
  | close hblank =>
    obtain ⟨_, hblank⟩ := hblank
    rw [blockItems, hblank, ok_bind, takeChar?_cons_self]
    exact Taken.found rfl rfl rfl
  | semicolon hblank _ _ ih =>
    obtain ⟨_, hblank⟩ := hblank
    obtain ⟨_, hmore⟩ := ih
    rw [blockItems, hblank, ok_bind, takeChar?_none.2 (by simp), takeChar?_cons_self, Taken.head]
    simp only
    rw [hmore]
    exact Taken.found rfl rfl rfl
  | rule hblank _ hr _ ih =>
    obtain ⟨_, hblank⟩ := hblank
    obtain ⟨⟨_, hr⟩, hstarts⟩ := hrule hr
    obtain ⟨text, us, rest, hheading⟩ := startsRule_iff.1 hstarts
    obtain ⟨hclose, hsemicolon, hempty⟩ :=
      hheading.starts_item (fun _ => id) (by decide) (by decide)
    obtain ⟨_, hmore⟩ := ih
    rw [blockItems, hblank, ok_bind, hclose, hsemicolon]
    simp only
    rw [hempty, if_neg (by decide), if_pos hstarts, hr, ok_bind, hmore]
    exact Taken.found rfl rfl rfl
  | declaration hblank _ hd _ ih =>
    obtain ⟨_, hblank⟩ := hblank
    have hstarts := hd.startsRule_eq_false
    obtain ⟨_, hread⟩ := (reads_readDeclaration hvalue).2 ⟨_, hd⟩
    obtain ⟨hheading⟩ := hd
    obtain ⟨hclose, hsemicolon, hempty⟩ :=
      hheading.starts_item isPropertyMark_of_isBlockMark (by decide) (by decide)
    obtain ⟨_, hmore⟩ := ih
    rw [blockItems, hblank, ok_bind, hclose, hsemicolon]
    simp only
    rw [hempty, if_neg (by decide), if_neg (Bool.eq_false_iff.1 hstarts), hread, ok_bind, hmore]
    exact Taken.found rfl rfl rfl

theorem ruleWith_sound (hvalue : value.Reads.Walks)
    (hrule : ∀ {s r rest}, rule.Reads s r rest → ∃ ts, R s r ts rest) {s rest : List Char}
    {r : RawRule} (h : (ruleWith rule value).Reads s r rest) :
    ∃ ts, RuleOf R value.Reads s r ts rest := by
  obtain ⟨_, h⟩ := h
  rw [ruleWith] at h
  split at h
  · cases h
  · rename_i text htext
    obtain ⟨us, hheading⟩ := textBefore?_some.1 ⟨_, htext⟩
    simp only at h
    split at h
    · simp at h
    · rename_i hselectors
      obtain ⟨items, hitems, h⟩ := bind_ok.1 h
      cases h
      obtain ⟨ts, hts⟩ := blockItems_sound hvalue hrule hitems
      exact ⟨_, .mk hheading (by simpa using hselectors) hts⟩

theorem ruleWith_complete (hvalue : value.Reads.Walks)
    (hrule : ∀ {s r ts rest}, R s r ts rest → rule.Reads s r rest ∧ startsRule s = true)
    {s rest : List Char} {r : RawRule} {ts : List Token} (h : RuleOf R value.Reads s r ts rest) :
    (ruleWith rule value).Reads s r rest ∧ startsRule s = true := by
  obtain ⟨hheading, hselectors, hitems⟩ := h
  refine ⟨?_, startsRule_iff.2 ⟨_, _, _, hheading⟩⟩
  obtain ⟨_, htext⟩ := textBefore?_some.2 ⟨_, hheading⟩
  obtain ⟨_, hitems⟩ := blockItems_complete hvalue hrule hitems
  rw [Reader.Reads, ruleWith, htext]
  simp only
  rw [if_neg (by simpa using hselectors), hitems]
  exact Taken.found rfl rfl rfl

end

theorem walks_readValue (levels : Nat) : (readValue levels).Reads.Walks := by
  rw [reads_readValue]
  exact CommaList.walks (Primary.walks levels)

theorem Grammar.Ruled.complete {levels : Nat} {s rest : List Char} {r : RawRule} {ts : List Token}
    (h : Ruled levels s r ts rest) : (readRule levels).Reads s r rest ∧ startsRule s = true := by
  induction levels generalizing s r ts rest with
  | zero =>
    rw [Ruled, ← reads_readValue] at h
    exact ruleWith_complete (walks_readValue 0) False.elim h
  | succ levels ih =>
    rw [Ruled, ← reads_readValue] at h
    exact ruleWith_complete (walks_readValue _) ih h

theorem reads_readRule {levels : Nat} {s rest : List Char} {r : RawRule} :
    (readRule levels).Reads s r rest ↔ ∃ ts, Ruled levels s r ts rest := by
  refine ⟨?_, fun ⟨ts, h⟩ => h.complete.1⟩
  induction levels generalizing s r rest with
  | zero =>
    intro h
    rw [Ruled, ← reads_readValue]
    refine ruleWith_sound (walks_readValue 0) (fun hdeep => ?_) h
    rw [reads_tooDeep] at hdeep
    exact hdeep.elim
  | succ levels ih =>
    intro h
    rw [Ruled, ← reads_readValue]
    exact ruleWith_sound (walks_readValue _) ih h

theorem readRules_sound {s : List Char} {rules : List RawRule} (h : readRules s = .ok rules) :
    ∃ ts, Rules s rules ts := by
  rw [readRules] at h
  obtain ⟨blank, hblank, h⟩ := bind_ok.1 h
  have hblank : Trivia s blank.rest := ⟨_, hblank⟩
  obtain ⟨ts, hts⟩ := hblank.walked
  split at h
  · rename_i hempty
    cases h
    rw [List.isEmpty_iff.1 hempty] at hblank hts
    exact ⟨_, .nil hblank hts⟩
  · obtain ⟨rule, hrule, h⟩ := bind_ok.1 h
    obtain ⟨more, hmore, h⟩ := bind_ok.1 h
    cases h
    have hshorter : rule.rest.length < s.length := (blank.andTake rule).shorter
    obtain ⟨us, hus⟩ := reads_readRule.1 ⟨_, hrule⟩
    obtain ⟨vs, hvs⟩ := readRules_sound hmore
    exact ⟨_, .cons hblank hts hus hvs⟩
termination_by s.length

/-- A sheet is read exactly as its grammar says. -/
theorem readRules_ok {s : List Char} {rules : List RawRule} :
    readRules s = .ok rules ↔ ∃ ts, Rules s rules ts := by
  refine ⟨readRules_sound, ?_⟩
  rintro ⟨ts, h⟩
  induction h with
  | nil hblank =>
    obtain ⟨_, hblank⟩ := hblank
    rw [readRules, hblank, ok_bind]
    rfl
  | cons hblank _ hrule _ ih =>
    obtain ⟨_, hblank⟩ := hblank
    obtain ⟨⟨_, hread⟩, hstarts⟩ := hrule.complete
    obtain ⟨_, _, _, hheading⟩ := startsRule_iff.1 hstarts
    rw [readRules, hblank, ok_bind, if_neg (by simpa using hheading.ne_nil), hread, ok_bind, ih]
    rfl

theorem Sheet.parse_ok {source : String} {sheet : Sheet Location} :
    Sheet.parse source = .ok sheet ↔ ∃ rules, readRules source.toList = .ok rules ∧
      rules.map (Rule.mapPlaces (placeIn source.toList)) = sheet := by
  rw [Sheet.parse]
  cases readRules source.toList <;> simp

-- ---------------------------------------------------------------------------
-- Tokens in the scan
-- ---------------------------------------------------------------------------

def Traced.Shows {α : Type} (F : Traced α) : Prop :=
  ∀ ⦃s a ts rest⦄, F s a ts rest → pieces none s = ts.flatMap Token.pieces ++ pieces none rest

namespace Grammar

theorem Heading.shows {isMark : Char → Bool} {mark : Char} (hmark : isPlain mark = true) :
    (Heading isMark mark).Shows := by
  rintro _ _ _ _ ⟨hfound⟩
  rw [(findMark_iff.1 hfound).pieces_eq, pieces_plain hmark]
  simp [Token.pieces]

theorem DeclarationEnd.pieces_eq {s rest : List Char} {ts : List Token}
    (h : DeclarationEnd s ts rest) :
    pieces none s = ts.flatMap Token.pieces ++ pieces none rest := by
  cases h with
  | semicolon =>
    rw [pieces_plain (by decide)]
    rfl
  | close => rfl

theorem DeclarationOf.shows (Val : Form RawExpr) : (DeclarationOf Val).Shows := by
  rintro _ _ _ _ ⟨hheading, -, -, -, -, hlexed, hend⟩
  rw [Heading.shows (by decide) hheading, hlexed.pieces_eq, hend.pieces_eq]
  simp

theorem BlockItems.shows {R : Traced RawRule} (hR : R.Shows) (Val : Form RawExpr) :
    (BlockItems R Val).Shows := by
  intro s items ts rest h
  induction h with
  | close _ hlexed =>
    rw [hlexed.pieces_eq, pieces_plain (by decide)]
    simp [Token.pieces]
  | semicolon _ hlexed _ ih =>
    rw [hlexed.pieces_eq, pieces_plain (by decide), ih]
    simp [Token.pieces]
  | rule _ hlexed hr _ ih =>
    rw [hlexed.pieces_eq, hR hr, ih]
    simp
  | declaration _ hlexed hd _ ih =>
    rw [hlexed.pieces_eq, DeclarationOf.shows Val hd, ih]
    simp

theorem RuleOf.shows {R : Traced RawRule} (hR : R.Shows) (Val : Form RawExpr) :
    (RuleOf R Val).Shows := by
  rintro _ _ _ _ ⟨hheading, -, hitems⟩
  rw [Heading.shows (by decide) hheading, BlockItems.shows hR Val hitems]
  simp

theorem Ruled.shows (levels : Nat) : (Ruled levels).Shows := by
  induction levels with
  | zero => exact RuleOf.shows (fun _ _ _ _ => False.elim) _
  | succ levels ih => exact RuleOf.shows ih _

/-- The tokens of a whole sheet are shown by the scan of its text, piece by piece. -/
theorem Rules.pieces_eq {s : List Char} {rules : List RawRule} {ts : List Token}
    (h : Rules s rules ts) : pieces none s = ts.flatMap Token.pieces := by
  induction h with
  | nil _ hlexed => rw [hlexed.pieces_eq, pieces_nil, List.append_nil]
  | cons _ hlexed hrule _ ih =>
    rw [hlexed.pieces_eq, Ruled.shows maxNesting hrule, ih]
    simp

end Grammar

end HostSheet
