import HostSheet.Proofs.Css.Layout
import HostSheet.Proofs.Sheet.Everywhere
import HostSheet.Session.Basic

/-!
# Commas in selectors

The end of a selector list is found by a scan that knows strings, comments and parentheses, but the
list is then cut at every comma and its blanks are made single everywhere. So the list falls into
the selectors that the scan sees if there is no comma inside of them and no blanks in their strings
but single ones, and into something else otherwise.
-/

namespace HostSheet

open Grammar

-- ---------------------------------------------------------------------------
-- Selectors of a text
-- ---------------------------------------------------------------------------

def Text.parts (text : List Char) : List (List (List Char)) :=
  (splitAtEach (· == ',') text).map words

theorem selectorsOf_eq (text : List Char) : selectorsOf text =
    (((Text.parts text).map (List.intercalate [' '])).filter (!·.isEmpty)).map String.ofList := by
  simp [selectorsOf, Text.parts, Function.comp_def]

theorem selectorsOf_append_comma (a b : List Char) :
    selectorsOf (a ++ ',' :: b) = selectorsOf a ++ selectorsOf b := by
  simp [selectorsOf, Text.splitAtEach_append_cons]

theorem isSelector_of_mem_selectorsOf {text : List Char} {sel : String}
    (h : sel ∈ selectorsOf text) : sel ≠ "" ∧ IsSelector sel.toList := by
  obtain ⟨joined, hjoined, rfl⟩ := List.mem_map.1 h
  obtain ⟨hmem, hne⟩ := List.mem_filter.1 hjoined
  obtain ⟨part, hpart, rfl⟩ := List.mem_map.1 hmem
  rw [String.toList_ofList]
  refine ⟨by simpa using hne, ?_, forall_mem_intercalate (by decide) fun word hword c hc => ?_⟩
  · rw [Text.words_joined fun _ => Text.of_mem_words]
  · exact (Text.of_mem_splitAtEach hpart c (Text.mem_of_mem_words hword c hc)).1

theorem selectorsOf_selector {sel : String} (hne : sel ≠ "") (h : IsSelector sel.toList) :
    selectorsOf sel.toList = [sel] := by
  have hall : ∀ other ∈ [sel], other ≠ "" ∧ IsSelector other.toList := by simp [hne, h]
  simpa using selectorsOf_joined blank_nil blank_nil (List.cons_ne_nil sel []) hall

namespace Text

theorem parts_nil : parts [] = [[]] := rfl

theorem splitAtComma_cons_blank {c : Char} (hc : isBlank c = true) (s : List Char) :
    splitAtEach (· == ',') (c :: s) = (splitAtEach (· == ',') s).modifyHead (c :: ·) := by
  refine splitAtEach_cons ?_ s
  exact ne_comma_of_blank (List.forall_mem_singleton.2 hc) c List.mem_cons_self

theorem parts_cons_blank {c : Char} (hc : isBlank c = true) (s : List Char) :
    parts (c :: s) = parts s := by
  rw [parts, splitAtComma_cons_blank hc, parts]
  cases splitAtEach (· == ',') s <;> simp [words_cons_blank hc]

theorem exists_parts_append (xs : List Char) : ∃ front last, parts xs = front ++ [last] ∧
    ∀ c s, isBlank c = true →
      parts (xs ++ c :: s) = front ++ (parts s).modifyHead (last ++ ·) := by
  obtain ⟨front, last, h⟩ := exists_splitAtEach_append (· == ',') xs
  refine ⟨front.map words, words last, ?_, fun c s hc => ?_⟩
  · have hxs := h []
    rw [List.append_nil] at hxs
    simp [parts, hxs, splitAtEach]
  · rw [parts, h, splitAtComma_cons_blank hc, parts]
    cases splitAtEach (· == ',') s <;> simp [words_append_cons hc]

end Text

-- ---------------------------------------------------------------------------
-- Selectors as the scan sees them
-- ---------------------------------------------------------------------------

def Piece.isGap : Piece → Bool
  | .code c => Text.isBlank c
  | .quoted _ => false
  | .comment _ => true

def scannedWords (ps : List Piece) : List (List Char) :=
  ((ps.splitOnP Piece.isGap).filter (!·.isEmpty)).map (List.flatMap Piece.text)

/-- The pieces of a text, cut at the commas outside of strings, comments and parentheses. -/
def cutInCode : (depth : Nat) → List Piece → List (List Piece)
  | _, [] => [[]]
  | depth, p :: ps =>
    if p.marks (· == ',') depth then [] :: cutInCode (p.depthBehind depth) ps
    else (cutInCode (p.depthBehind depth) ps).modifyHead (p :: ·)

/-- The selectors of a list as the scan sees them. Blanks outside of strings are made single, and
nothing is left of empty parts. -/
def scannedSelectors (ps : List Piece) : List String :=
  let parts := (cutInCode 0 ps).map fun part => List.intercalate [' '] (scannedWords part)
  (parts.filter (!·.isEmpty)).map String.ofList

section
variable {gap : Piece} {ps : List Piece}

theorem withoutComments_gap (h : gap.isGap = true) (ps : List Piece) :
    ∃ c, Text.isBlank c = true ∧ withoutComments (gap :: ps) = c :: withoutComments ps := by
  cases gap with
  | code c => exact ⟨c, h, rfl⟩
  | quoted text => cases h
  | comment text => exact ⟨' ', by decide, rfl⟩

theorem withoutComments_of_forall (h : ∀ p ∈ ps, p.isGap = false) :
    withoutComments ps = ps.flatMap Piece.text := by
  induction ps with
  | nil => rfl
  | cons p ps ih =>
    rw [List.forall_mem_cons] at h
    rw [List.flatMap_cons, ← ih h.2]
    cases p with
    | code c => rfl
    | quoted text => rfl
    | comment text => simp [Piece.isGap] at h

theorem scannedWords_append_cons (h : gap.isGap = true) (ps qs : List Piece) :
    scannedWords (ps ++ gap :: qs) = scannedWords ps ++ scannedWords qs := by
  simp [scannedWords, List.splitOnP_append_cons ps qs h]

theorem scannedWords_of_forall (h : ∀ p ∈ ps, p.isGap = false) (hne : ps ≠ []) :
    scannedWords ps = [ps.flatMap Piece.text] := by
  simp [scannedWords, List.splitOnP_eq_singleton h, hne]

end

/-- Of the blanks that the scan sees, only those between words count. -/
theorem parts_scanned (ws ps : List Piece) (hws : ∀ p ∈ ws, p.isGap = false) :
    Text.parts (withoutComments (ws ++ ps)) =
      Text.parts (List.intercalate [' '] (scannedWords (ws ++ ps))) := by
  -- The pieces `ws` of the first word are collected on the way to the gap behind it.
  induction ps generalizing ws with
  | nil =>
    rw [List.append_nil, withoutComments_of_forall hws]
    by_cases hne : ws = []
    · subst hne
      rfl
    · rw [scannedWords_of_forall hws hne, List.intercalate_singleton]
  | cons p ps ih =>
    cases hp : p.isGap with
    | false =>
      have hmore : ∀ q ∈ ws ++ [p], q.isGap = false := by
        rw [List.forall_mem_append, List.forall_mem_singleton]
        exact ⟨hws, hp⟩
      simpa using ih (ws ++ [p]) hmore
    | true =>
      obtain ⟨c, hc, hgap⟩ := withoutComments_gap hp ps
      have ih : Text.parts (withoutComments ps) = _ := ih [] (by simp)
      rw [withoutComments_append, withoutComments_of_forall hws, hgap, scannedWords_append_cons hp]
      by_cases hne : ws = []
      · subst hne
        exact (Text.parts_cons_blank hc _).trans ih
      · obtain ⟨front, last, hword, hmore⟩ := Text.exists_parts_append (ws.flatMap Piece.text)
        rw [hmore c _ hc, ih, scannedWords_of_forall hws hne, List.singleton_append,
          List.nil_append]
        cases scannedWords ps with
        | nil => simp [hword, Text.parts_nil]
        | cons word words =>
          rw [List.intercalate_cons_cons, List.append_assoc, List.singleton_append,
            hmore ' ' _ (by decide)]

theorem selectorsOf_cutInCode (front : List Piece) (depth : Nat) (ps : List Piece) :
    selectorsOf (withoutComments (front ++ ps)) =
      ((cutInCode depth ps).modifyHead (front ++ ·)).flatMap (selectorsOf ∘ withoutComments) := by
  -- The pieces `front` of the first part are collected on the way to the comma behind it.
  induction ps generalizing front depth with
  | nil => simp [cutInCode]
  | cons p ps ih =>
    rw [cutInCode]
    split
    · rename_i hmark
      obtain ⟨c, rfl, -, hc⟩ := Piece.marks_iff.1 hmark
      obtain rfl := beq_iff_eq.1 hc
      have hcut : withoutComments (.code ',' :: ps) = ',' :: withoutComments ps := rfl
      have hmore : selectorsOf (withoutComments ps) = ((cutInCode _ ps).modifyHead id).flatMap _ :=
        ih [] (Piece.depthBehind depth (.code ','))
      rw [withoutComments_append, hcut, selectorsOf_append_comma, hmore, List.modifyHead_id]
      simp
    · rw [List.modifyHead_modifyHead, List.append_cons, ih _ (p.depthBehind depth)]
      simp [Function.comp_def]

/-- A selector list is cut at the commas that the scan sees, and what the scan sees as one selector
is read like a list of its own. -/
theorem selectorsOf_scanned (ps : List Piece) : selectorsOf (withoutComments ps) =
    (scannedSelectors ps).flatMap fun sel => selectorsOf sel.toList := by
  have hparts (part : List Piece) : selectorsOf (withoutComments part) =
      selectorsOf (List.intercalate [' '] (scannedWords part)) := by
    rw [selectorsOf_eq, selectorsOf_eq]
    exact congrArg _ (congrArg _ (congrArg _ (parts_scanned [] part (by simp))))
  have hcut : selectorsOf (withoutComments ps) = ((cutInCode 0 ps).modifyHead id).flatMap _ :=
    selectorsOf_cutInCode [] 0 ps
  rw [hcut, List.modifyHead_id, scannedSelectors, id]
  generalize cutInCode 0 ps = parts
  induction parts with
  | nil => rfl
  | cons part parts ih =>
    rw [List.flatMap_cons, ih, Function.comp_apply, hparts, List.map_cons]
    by_cases hempty : List.intercalate [' '] (scannedWords part) = []
    · rw [hempty, List.filter_cons_of_neg (by simp)]
      rfl
    · rw [List.filter_cons_of_pos (by simpa using hempty)]
      simp

theorem selectorsOf_eq_scanned_iff (ps : List Piece) :
    selectorsOf (withoutComments ps) = scannedSelectors ps ↔
      ∀ sel ∈ scannedSelectors ps, IsSelector sel.toList := by
  constructor
  · intro h sel hsel
    rw [← h] at hsel
    exact (isSelector_of_mem_selectorsOf hsel).2
  · intro h
    have hne : ∀ sel ∈ scannedSelectors ps, sel ≠ "" := by
      intro sel hsel
      obtain ⟨text, htext, rfl⟩ := List.mem_map.1 hsel
      simpa using (List.mem_filter.1 htext).2
    have hself : ∀ sel ∈ scannedSelectors ps, selectorsOf sel.toList = [sel] := fun sel hsel =>
      selectorsOf_selector (hne sel hsel) (h sel hsel)
    rw [selectorsOf_scanned, List.flatMap_congr hself]
    simp

-- ---------------------------------------------------------------------------
-- Selectors of a sheet
-- ---------------------------------------------------------------------------

/-- At this place of a source stands a text in front of a brace, and these are its pieces. -/
def SelectorText (source : List Char) (place : Location) (before : List Piece) : Prop :=
  ∃ front rest, source = front ++ (before.flatMap Piece.text ++ '{' :: rest) ∧
    place = Source.locate source (Source.byteLength front) ∧
    findMark isBlockMark none 0 (before.flatMap Piece.text ++ '{' :: rest) =
      some (before, '{' :: rest)

theorem Grammar.Heading.selectorText {source s text rest : List Char} {us : List Token}
    (h : Heading isBlockMark '{' s text us rest) (hs : s <:+ source) :
    ∃ before, SelectorText source (placeIn source s) before ∧ text = withoutComments before := by
  obtain @⟨_, before, _, hfound⟩ := h
  obtain ⟨front, rfl⟩ := hs
  have htext := text_findMark hfound
  refine ⟨before, ⟨front, rest, by rw [htext], ?_, htext ▸ hfound⟩, rfl⟩
  rw [placeIn, Source.offsetOf_append]

/-- The selectors of a rule are read off those that the scan sees in the text in front of its brace,
each being cut and its blanks being made single once more. They are the same just if there is no
comma and no other blank than single ones in any that the scan sees. -/
theorem Sheet.selectors_scanned {source : String} {sheet : Sheet Location}
    (h : Sheet.parse source = .ok sheet) :
    ∀ rule ∈ sheet, rule.Each fun r => ∃ before,
      SelectorText source.toList r.place before ∧
      r.selectors = (scannedSelectors before).flatMap (fun sel => selectorsOf sel.toList) ∧
      (r.selectors = scannedSelectors before ↔
        ∀ sel ∈ scannedSelectors before, IsSelector sel.toList) := by
  refine Sheet.each_of_parse h fun r hr hplace => ?_
  obtain ⟨text, us, rest, hheading, hselectors⟩ := hr.heading
  obtain ⟨before, htext, rfl⟩ := hheading.selectorText hplace
  rw [Rule.selectors_mapPlaces, Rule.place_mapPlaces, hselectors]
  exact ⟨before, htext, selectorsOf_scanned before, selectorsOf_eq_scanned_iff before⟩

/-- Two commas that count, and one in a string that does not. -/
theorem Sheet.selectors_scanned_string :
    let source := "a[b='(,'] , c:is( d )\x7be,f/*,*/g\x7bh:i\x7d\x7d"
    ∃ sheet, Sheet.parse source = .ok sheet ∧
      sheet.map Rule.selectors = [["a[b='(", "']", "c:is( d )"]] ∧
      ∀ rule ∈ sheet, rule.Each fun r => ∃ before,
        SelectorText source.toList r.place before ∧
        r.selectors = (scannedSelectors before).flatMap (fun sel => selectorsOf sel.toList) ∧
        (r.selectors = scannedSelectors before ↔
          ∀ sel ∈ scannedSelectors before, IsSelector sel.toList) := by
  intro source
  have hselectors : (Sheet.parse source).map (·.map Rule.selectors) =
      .ok [["a[b='(", "']", "c:is( d )"]] := by decide +kernel
  obtain ⟨sheet, hparse⟩ : ∃ sheet, Sheet.parse source = .ok sheet :=
    isOk_iff.1 (by decide +kernel)
  rw [hparse] at hselectors
  exact ⟨sheet, hparse, Except.ok.inj hselectors, Sheet.selectors_scanned hparse⟩

/-- A selector with a comma in a string falls into two, and so does one with a comma in parentheses,
of which a nested rule shows the parts in different places. -/
theorem Sheet.selectors_cut_in_string :
    let source := "a[b=\"x,y\"]\x7bc:d\x7d"
    (Sheet.parse source).map (·.map Rule.selectors) = .ok [["a[b=\"x", "y\"]"]] ∧
    (findMark isBlockMark none 0 source.toList).map (fun found => scannedSelectors found.1) =
      some ["a[b=\"x,y\"]"] ∧
    ((Session.ofConfig 0 {} ()).compile ":is(a,b)\x7bc\x7bd:e\x7d\x7d").1 =
      .ok ":is(a c, b) c \x7b\n  d: e;\n\x7d\n" := by
  decide +kernel

end HostSheet
