import HostSheet.Proofs.Css.Layout
import HostSheet.Proofs.Css.Quoting

/-!
# Values in parentheses

A value in parentheses is the same value. Each pair of them takes a level, and the first opening
parenthesis for which no level is left is where the sheet cannot be read.
-/

namespace HostSheet

open Grammar

def wrapped (text : List Char) : Nat → List Char
  | 0 => text
  | k + 1 => '(' :: (wrapped text k ++ [')'])

theorem wrapped_eq (text : List Char) (k : Nat) :
    wrapped text k = List.replicate k '(' ++ (text ++ List.replicate k ')') := by
  induction k with
  | zero => simp [wrapped]
  | succ k ih =>
    rw [wrapped, ih, List.replicate_succ, List.replicate_succ']
    simp

theorem exists_wrapped_eq (text rest : List Char) {n k : Nat} (h : n < k) :
    ∃ s, wrapped text k ++ rest = List.replicate n '(' ++ '(' :: s := by
  obtain ⟨more, rfl⟩ := Nat.exists_eq_add_of_lt h
  refine ⟨List.replicate more '(' ++ (text ++ List.replicate (n + more + 1) ')' ++ rest), ?_⟩
  rw [wrapped_eq, Nat.add_assoc, ← List.replicate_append_replicate, List.replicate_succ]
  simp

-- ---------------------------------------------------------------------------
-- Enough levels
-- ---------------------------------------------------------------------------

section
variable {levels : Nat} {text : List Char} {e : RawExpr}

theorem primary_wrapped (h : ∀ s, (∀ c ∈ s.head?, c = ')') → Primary levels (text ++ s) e s)
    (k : Nat) {s : List Char} (hs : ∀ c ∈ s.head?, c = ')') :
    Primary (levels + k) (wrapped text k ++ s) e s := by
  induction k generalizing s with
  | zero => exact h s hs
  | succ k ih =>
    have hinside : Primary (levels + k) (wrapped text k ++ ')' :: s) e (')' :: s) := ih (by simp)
    have hclose : Trivia (')' :: s) (')' :: s) := .done (startsToken_cons.2 ⟨by decide, by simp⟩)
    have hstart := hinside.startsItem
    have hitem : SpaceList (Primary (levels + k)) (wrapped text k ++ ')' :: s) e (')' :: s) :=
      .mk hstart.2 hinside (.nil hclose rfl)
    have hrest : GroupRest (SpaceList (Primary (levels + k))) e (')' :: s) e (')' :: s) :=
      .list hclose (by simp) (.none hclose (by simp))
    have hgroup : Primary (levels + (k + 1)) ('(' :: (wrapped text k ++ ')' :: s)) e s :=
      .group (.full (.done hstart.1) hstart.atClose hitem hrest)
    simpa [wrapped] using hgroup

end

-- ---------------------------------------------------------------------------
-- Too few levels
-- ---------------------------------------------------------------------------

section
variable {item : Reader RawExpr} {s : List Char} {f : Fault}

theorem startsItem_parens (k : Nat) (s : List Char) :
    StartsItem (List.replicate k '(' ++ '(' :: s) := by
  cases k <;> exact startsItem_cons rfl _

theorem spaceList_error (hs : StartsItem s) (h : item s = .error f) :
    spaceList item s = .error f := by
  rw [spaceList, if_neg (by simp [hs.2]), h, error_bind]

theorem readGroup_error (hs : StartsItem s) (h : item s = .error f) :
    readGroup item ('(' :: s) = .error f := by
  obtain ⟨_, hblank⟩ := Trivia.done hs.1
  rw [readGroup, Reader.expect, if_pos rfl, ok_bind]
  simp only [Taken.head, hblank, ok_bind]
  rw [if_neg (by simp [hs.atClose]), h, error_bind]

/-- Behind as many parentheses as there are levels the next one is too deep. -/
theorem readPrimary_tooDeep (levels : Nat) (s : List Char) :
    readPrimary levels (List.replicate levels '(' ++ '(' :: s) = .error ⟨.tooDeep, '(' :: s⟩ := by
  induction levels with
  | zero => rfl
  | succ levels ih =>
    rw [readPrimary, List.replicate_succ, List.cons_append, primaryWith, if_pos rfl]
    exact readGroup_error (startsItem_parens levels s)
      (spaceList_error (startsItem_parens levels s) ih)

theorem readValue_tooDeep (levels : Nat) (s : List Char) :
    readValue levels (List.replicate levels '(' ++ '(' :: s) = .error ⟨.tooDeep, '(' :: s⟩ := by
  rw [readValue, commaList, spaceList_error (startsItem_parens levels s)
    (readPrimary_tooDeep levels s), error_bind]

end

-- ---------------------------------------------------------------------------
-- Faults in a sheet
-- ---------------------------------------------------------------------------

section
variable {rule : Reader RawRule} {value : Reader RawExpr} {name : String} {sels : List String}
  {pad gap post s s' : List Char} {f : Fault}

theorem WritableProperty.heading (hname : WritableProperty name) (s : List Char) :
    ∃ us, Heading isPropertyMark ':' (name.toList ++ ':' :: s) name.toList us s :=
  Heading.of_forall (show isPlain ':' = true by decide) (by decide) hname.unmarked s

theorem readDeclaration_error (hname : WritableProperty name) (hs : Trivia s s')
    (h : value s' = .error f) : readDeclaration value (name.toList ++ ':' :: s) = .error f := by
  obtain ⟨_, htext⟩ := textBefore?_some.2 (hname.heading s)
  obtain ⟨_, hblank⟩ := hs
  have hproperty : ¬ (name.toList.isEmpty || name.toList.any Text.isBlank) = true := by
    simpa using ⟨hname.nonempty, fun c hc => (hname.chars c hc).1⟩
  rw [readDeclaration, htext]
  simp only [Text.trim_of_forall hname.isProperty.2]
  rw [if_neg hproperty, hblank, ok_bind, h, error_bind]

theorem blockItems_error (hname : WritableProperty name) (hpad : Blank pad) (hs : Trivia s s')
    (hrule : startsRule (name.toList ++ ':' :: s) = false) (h : value s' = .error f) :
    blockItems rule value (pad ++ (name.toList ++ ':' :: s)) = .error f := by
  obtain ⟨us, hheading⟩ := hname.heading s
  obtain ⟨hclose, hsemicolon, hempty⟩ :=
    hheading.starts_item isPropertyMark_of_isBlockMark (by decide) (by decide)
  obtain ⟨_, hblank⟩ := Trivia.pad hpad (.done (hname.startsToken (':' :: s)))
  rw [blockItems, hblank, ok_bind, hclose, hsemicolon]
  simp only
  rw [hempty, if_neg (by decide), if_neg (by simp [hrule]), readDeclaration_error hname hs h,
    error_bind]

theorem ruleWith_error (hb : (⟨sels, []⟩ : Block).Writable) (hgap : Blank gap) (hpost : Blank post)
    (h : blockItems rule value s = .error f) :
    ruleWith rule value (List.intercalate (',' :: gap) (sels.map String.toList) ++ post ++ '{' :: s)
      = .error f := by
  obtain ⟨_, htext⟩ := textBefore?_some.2
    (Heading.of_forall (show isPlain '{' = true by decide) (by decide) (hb.unmarked hgap hpost) s)
  have hselectors : selectorsOf (List.intercalate (',' :: gap) (sels.map String.toList) ++ post) =
      sels := hb.selectorsOf hgap hpost
  rw [ruleWith, htext]
  simp only [hselectors]
  rw [if_neg (by simpa using hb.selected), h, error_bind]

theorem readRules_error (hs : Trivia s s') (hne : s' ≠ []) (h : readRule maxNesting s' = .error f) :
    readRules s = .error f := by
  obtain ⟨_, hblank⟩ := hs
  rw [readRules, hblank, ok_bind, if_neg (by simpa using hne), h, error_bind]

end

-- ---------------------------------------------------------------------------
-- One value in a sheet
-- ---------------------------------------------------------------------------

/-- A block of one declaration, whose value is the number 1 in so many pairs of parentheses. -/
def wrappedBlock (sels : List String) (name : String) (k : Nat) : Block :=
  ⟨sels, [(name, String.ofList (wrapped ['1'] k))]⟩

theorem primary_one (levels : Nat) {s : List Char} (hs : ∀ c ∈ s.head?, c = ')') :
    Primary levels (['1'] ++ s) (.literal (.number (NumberParts.ofText ['1']).number)) s := by
  have hread : readNumber.Reads ('1' :: s) (.number (NumberParts.ofText ['1']).number) s := by
    cases s with
    | nil => exact ⟨_, rfl⟩
    | cons c s =>
      obtain rfl := hs c rfl
      exact ⟨_, rfl⟩
  cases levels <;> exact .number rfl hread

theorem exists_primary_wrapped {k levels : Nat} (h : k ≤ levels) :
    ∃ e, Primary levels (wrapped ['1'] k) e [] := by
  have hprimary := primary_wrapped (fun _ => primary_one (levels - k)) k
    (show ∀ c ∈ ([] : List Char).head?, c = ')' by simp)
  rw [List.append_nil, Nat.sub_add_cancel h] at hprimary
  exact ⟨_, hprimary⟩

theorem noLineComment_wrapped (k : Nat) : NoLineComment (wrapped ['1'] k) := by
  refine noLineComment_of_forall ?_
  rw [wrapped_eq, List.forall_mem_append, List.forall_mem_append]
  refine ⟨fun c hc => ?_, by decide, fun c hc => ?_⟩ <;>
  · obtain rfl := List.eq_of_mem_replicate hc
    decide

theorem writableValue_wrapped {k : Nat} (hk : k ≤ maxNesting) :
    WritableValue (String.ofList (wrapped ['1'] k)) := by
  obtain ⟨e, he⟩ := exists_primary_wrapped hk
  refine ⟨⟨_, Expr.parse_ok.2 ⟨e, ?_, rfl⟩⟩, ?_⟩ <;> rw [String.toList_ofList]
  · exact readWhole_of_primary he
  · exact noLineComment_wrapped k

theorem count_paren {s : List Char} (h : ∀ c ∈ s, isValueChar c = true) : s.count '(' = 0 :=
  List.count_eq_zero.2 fun hmem => absurd (h _ hmem) (by decide)

section
variable {sels : List String} {name : String} {k : Nat} {s : List Char}

/-- The search for a brace passes over the parentheses, however many there are. -/
theorem startsRule_wrapped (hname : WritableProperty name) {gap : List Char} (hgap : Blank gap)
    (k : Nat) {u : List Char} (hu : IsEnd u) :
    startsRule (name.toList ++ ':' :: (gap ++ (wrapped ['1'] k ++ u))) = false := by
  obtain ⟨e, he⟩ := exists_primary_wrapped (Nat.le_refl k)
  obtain ⟨vs, rest, hend⟩ := hu.declarationEnd
  obtain ⟨d, ts, hd, -⟩ := declaration_of_whole hname (.done he.startsItem.1)
    (commaList_of_primary he) (.done ⟨rfl, rfl⟩) (noLineComment_wrapped k) hgap hend
  exact hd.startsRule_eq_false

variable (hb : (⟨sels, []⟩ : Block).Writable) (hname : WritableProperty name)
include hb hname

theorem parse_wrapped (h : LaidSheet [wrappedBlock sels name k] s) (hk : k ≤ maxNesting) :
    ∃ sheet, Sheet.parse (String.ofList s) = .ok sheet := by
  have hwritable : (wrappedBlock sels name k).Writable :=
    ⟨hb.selected, hb.selectors, List.forall_mem_singleton.2 ⟨hname, writableValue_wrapped hk⟩⟩
  obtain ⟨rules, ts, hrules, -⟩ := h.rules (List.forall_mem_singleton.2 hwritable)
  refine ⟨_, Sheet.parse_ok.2 ⟨rules, readRules_ok.2 ⟨ts, ?_⟩, rfl⟩⟩
  rwa [String.toList_ofList]

theorem readRules_tooDeep {pad gap post pad' gap' u after : List Char} (hpad : Blank pad)
    (hgap : Blank gap) (hpost : Blank post) (hpad' : Blank pad') (hgap' : Blank gap')
    (hu : IsEnd u)
    (hafter : wrapped ['1'] k ++ u = List.replicate maxNesting '(' ++ '(' :: after) :
    readRules (pad ++ (List.intercalate (',' :: gap) (sels.map String.toList) ++ post ++ '{' ::
      (pad' ++ (name.toList ++ ':' :: (gap' ++ (wrapped ['1'] k ++ u)))))) =
      .error ⟨.tooDeep, '(' :: after⟩ := by
  have hrule := startsRule_wrapped hname hgap' k hu
  have hstart := hb.startsToken (',' :: gap)
    (post ++ '{' :: (pad' ++ (name.toList ++ ':' :: (gap' ++ (wrapped ['1'] k ++ u)))))
  rw [← List.append_assoc] at hstart
  have hvalue : Trivia (gap' ++ (wrapped ['1'] k ++ u)) (wrapped ['1'] k ++ u) := by
    rw [hafter]
    exact Trivia.pad hgap' (.done (startsItem_parens maxNesting after).1)
  refine readRules_error (Trivia.pad hpad (.done hstart)) (by simp)
    (ruleWith_error hb hgap hpost (blockItems_error hname hpad' hvalue hrule ?_))
  rw [hafter]
  exact readValue_tooDeep maxNesting after

theorem parse_wrapped_error (h : LaidSheet [wrappedBlock sels name k] s) (hk : maxNesting < k) :
    ∃ before after, s = before ++ '(' :: after ∧ before.count '(' = maxNesting ∧
      Sheet.parse (String.ofList s) = .error ⟨.tooDeep, Source.byteLength before⟩ := by
  obtain ⟨pad, gap, post, pad', gap', u, hpad, hgap, hpost, hpad', hgap', hu, hs⟩ := h.of_value
  rw [String.toList_ofList] at hs
  obtain ⟨after, hafter⟩ := exists_wrapped_eq ['1'] u hk
  have hread : readRules s = .error ⟨.tooDeep, '(' :: after⟩ :=
    hs ▸ readRules_tooDeep hb hname hpad hgap hpost hpad' hgap' hu hafter
  have htext : s = pad ++ (List.intercalate (',' :: gap) (sels.map String.toList) ++ post ++ '{' ::
      (pad' ++ (name.toList ++ ':' :: (gap' ++ List.replicate maxNesting '(')))) ++
        '(' :: after := by
    rw [hs, hafter]
    simp only [List.append_assoc, List.cons_append]
  refine ⟨_, after, htext, ?_, ?_⟩
  · have hselectors : (List.intercalate (',' :: gap) (sels.map String.toList) ++ post).count '(' =
        0 := count_paren fun c hc => (hb.unmarked hgap hpost c hc).1
    have hproperty := count_paren fun c hc => (hname.unmarked c hc).1
    have hblank : ∀ {pad}, Blank pad → pad.count '(' = 0 := fun h =>
      count_paren fun c hc => isValueChar_of_isBlank (h c hc)
    rw [List.count_append, Nat.add_eq_zero_iff] at hselectors
    simp [hselectors, hproperty, hblank hpad, hblank hpad', hblank hgap']
  · rw [Sheet.parse, String.toList_ofList]
    simp only [hread, Fault.inSource]
    rw [htext, Source.offsetOf_append]

end

end HostSheet
