import HostSheet.Proofs.Css.Layout

/-!
# Rendered sheets

The two styles of rendering differ in their blanks only, and a sheet of blocks is read back with any
blanks.
-/

namespace HostSheet

-- ---------------------------------------------------------------------------
-- Both styles
-- ---------------------------------------------------------------------------

theorem laid_expanded (ds : List (String × String)) :
    Laid ds ('\n' :: ((ds.flatMap fun d => "  ".toList ++ d.1.toList ++ ": ".toList ++ d.2.toList ++
      ";\n".toList) ++ ['}'])) := by
  induction ds with
  | nil => exact .close (show Blank ['\n'] by decide)
  | cons d ds ih =>
    have h : Laid ((d.1, d.2) :: ds) _ :=
      .semicolon (show Blank ['\n', ' ', ' '] by decide) (show Blank [' '] by decide) ih
    simpa using h

theorem laid_compressed {ds : List (String × String)} (h : ds ≠ []) :
    Laid ds
      (List.intercalate [';'] (ds.map fun d => d.1.toList ++ ':' :: d.2.toList) ++ ['}']) := by
  induction ds with
  | nil => exact absurd rfl h
  | cons d ds ih =>
    cases ds with
    | nil =>
      have h : Laid [(d.1, d.2)] _ := .last blank_nil blank_nil
      simpa using h
    | cons d' ds =>
      have h : Laid ((d.1, d.2) :: d' :: ds) _ := .semicolon blank_nil blank_nil (ih (by simp))
      simpa [List.intercalate_cons_cons] using h

theorem toList_expanded (b : Block) : ∃ s, Laid b.declarations s ∧
    b.expanded.toList = List.intercalate [',', ' '] (b.selectors.map String.toList) ++ [' '] ++
      '{' :: (s ++ ['\n']) := by
  refine ⟨_, laid_expanded b.declarations, ?_⟩
  simp [Block.expanded, String.toList_intercalate, String.toList_join, List.flatMap_map]

theorem toList_compressed {b : Block} (h : b.declarations ≠ []) :
    ∃ s, Laid b.declarations s ∧ b.compressed.toList =
      List.intercalate [','] (b.selectors.map String.toList) ++ [] ++ '{' :: s := by
  refine ⟨_, laid_compressed h, ?_⟩
  simp [Block.compressed, String.toList_intercalate, Function.comp_def]

theorem laidSheet_expanded {pad : List Char} (hpad : Blank pad) (b : Block) (bs : List Block) :
    LaidSheet (b :: bs)
      (pad ++ List.intercalate ['\n'] ((b :: bs).map fun b => b.expanded.toList)) := by
  obtain ⟨s, hs, htext⟩ := toList_expanded b
  have hgap : Blank [' '] := by decide
  induction bs generalizing pad b s with
  | nil =>
    have h := LaidSheet.cons hpad hgap hgap hs (.nil (show Blank ['\n'] by decide))
    simpa [htext] using h
  | cons b' bs ih =>
    obtain ⟨s', hs', htext'⟩ := toList_expanded b'
    have hlines : Blank ['\n', '\n'] := by decide
    have h := LaidSheet.cons hpad hgap hgap hs (ih hlines b' s' hs' htext')
    simpa [htext, List.intercalate_cons_cons] using h

theorem laidSheet_compressed {bs : List Block} (hbs : ∀ b ∈ bs, b.declarations ≠ []) :
    LaidSheet bs (bs.flatMap (fun b => b.compressed.toList) ++ ['\n']) := by
  induction bs with
  | nil => exact .nil (by decide)
  | cons b bs ih =>
    rw [List.forall_mem_cons] at hbs
    obtain ⟨s, hs, htext⟩ := toList_compressed hbs.1
    have h := LaidSheet.cons blank_nil blank_nil blank_nil hs (ih hbs.2)
    simpa [htext] using h

theorem laidSheet_render (blocks : List Block) (style : OutputStyle) :
    LaidSheet (blocks.filter (!·.declarations.isEmpty)) (Block.render blocks style).toList := by
  rw [Block.render.eq_def]
  have hwritten : ∀ b ∈ blocks.filter (!·.declarations.isEmpty), b.declarations ≠ [] := by
    intro b hb
    simpa using (List.mem_filter.1 hb).2
  generalize blocks.filter (!·.declarations.isEmpty) = written at hwritten ⊢
  cases style with
  | expanded =>
    cases written with
    | nil => exact .nil blank_nil
    | cons b bs =>
      have h := laidSheet_expanded blank_nil b bs
      simpa [String.toList_intercalate, Function.comp_def] using h
  | compressed =>
    cases written with
    | nil => exact .nil blank_nil
    | cons b bs =>
      have h := laidSheet_compressed hwritten
      simpa [String.toList_join, List.flatMap_map] using h

theorem ReadAs.mapPlaces {p q : Type} {written : String × String} {item : Item p}
    (h : ReadAs written item) (f : p → q) : ReadAs written (item.mapPlaces f) := by
  obtain ⟨d, e, rfl, hproperty, he, hsame⟩ := h
  refine ⟨d.mapPlaces f, e, rfl, hproperty, he, ?_⟩
  rw [← hsame, Declaration.mapPlaces, Expr.mapPlaces_mapPlaces]

theorem Block.ReadBack.mapPlaces {p q : Type} {b : Block} {rule : Rule p} (h : b.ReadBack rule)
    (f : p → q) : b.ReadBack (rule.mapPlaces f) := by
  obtain ⟨selectors, items, place⟩ := rule
  refine ⟨h.1, ?_⟩
  rw [Rule.mapPlaces, mapPlacesAll_eq, Rule.items, List.forall₂_map_right_iff]
  exact h.2.imp fun _ _ h => h.mapPlaces f

/-- In either style, a rendered sheet is read back as one rule for each block with declarations, and
these are read as their values are read by themselves. -/
theorem Block.render_reads_back {blocks : List Block} (style : OutputStyle)
    (h : ∀ b ∈ blocks, b.Writable) :
    ∃ sheet, Sheet.parse (Block.render blocks style) = .ok sheet ∧
      List.Forall₂ Block.ReadBack (blocks.filter (!·.declarations.isEmpty)) sheet := by
  obtain ⟨rules, ts, hrules, hread⟩ := (laidSheet_render blocks style).rules fun b hb =>
    h b (List.mem_filter.1 hb).1
  refine ⟨_, Sheet.parse_ok.2 ⟨rules, readRules_ok.2 ⟨ts, hrules⟩, rfl⟩, ?_⟩
  rw [List.forall₂_map_right_iff]
  exact hread.imp fun _ _ h => h.mapPlaces _

/-- Values that hold the ends of declarations and blocks in strings and comments. -/
theorem Block.render_reads_back_marks :
    let blocks : List Block := [⟨["a", "b c"], [("x", "f(1,) '\x7d'"), ("--y", "\"/*\" /*;*/")]⟩,
      ⟨["d"], []⟩, ⟨["e:f > *"], [("z", "(k: #abc)")]⟩]
    (∀ b ∈ blocks, b.Writable) ∧
    ∃ sheet, Sheet.parse
        "a,b c\x7bx:f(1,) '\x7d';--y:\"/*\" /*;*/\x7de:f > *\x7bz:(k: #abc)\x7d\n" = .ok sheet ∧
      List.Forall₂ Block.ReadBack (blocks.filter (!·.declarations.isEmpty)) sheet := by
  intro blocks
  have hblocks : ∀ b ∈ blocks, b.Writable := by decide +kernel
  have htext : Block.render blocks .compressed =
      "a,b c\x7bx:f(1,) '\x7d';--y:\"/*\" /*;*/\x7de:f > *\x7bz:(k: #abc)\x7d\n" := by
    decide +kernel
  have hread := Block.render_reads_back .compressed hblocks
  rw [htext] at hread
  exact ⟨hblocks, hread⟩

end HostSheet
