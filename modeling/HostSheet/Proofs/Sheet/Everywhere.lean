import HostSheet.Proofs.Sheet.Blocks
import HostSheet.Proofs.Sheet.Passing

/-!
# Everywhere in a sheet

Whatever the depth at which it stands, a rule of a sheet was read from a heading and a block of
declarations and rules. What follows from this alone holds everywhere in the sheet.
-/

namespace HostSheet

open Grammar

-- ---------------------------------------------------------------------------
-- Items
-- ---------------------------------------------------------------------------

section
variable {R : Traced RawRule} {Val : Form RawExpr} {s rest : List Char} {items : List RawItem}
  {ts : List Token}

theorem Grammar.BlockItems.rule_of_mem (h : BlockItems R Val s items ts rest) {r : RawRule}
    (hr : Item.rule r ∈ items) : ∃ s' us rest', R s' r us rest' := by
  induction h with
  | close => cases hr
  | semicolon _ _ _ ih => exact ih hr
  | rule _ _ hrule _ ih =>
    obtain hr | hr := List.mem_cons.1 hr
    · cases hr
      exact ⟨_, _, _, hrule⟩
    · exact ih hr
  | declaration _ _ _ _ ih => exact ih (List.mem_of_ne_of_mem (by simp) hr)

theorem Grammar.BlockItems.declaration_of_mem (h : BlockItems R Val s items ts rest)
    {d : Declaration (List Char)} (hd : Item.declaration d ∈ items) :
    ∃ s' us rest', startsToken s' ∧ DeclarationOf Val s' d us rest' := by
  induction h with
  | close => cases hd
  | semicolon _ _ _ ih => exact ih hd
  | rule _ _ _ _ ih => exact ih (List.mem_of_ne_of_mem (by simp) hd)
  | declaration hblank _ hdecl _ ih =>
    obtain hd | hd := List.mem_cons.1 hd
    · cases hd
      exact ⟨_, _, _, hblank.startsToken, hdecl⟩
    · exact ih hd

end

-- ---------------------------------------------------------------------------
-- Rules
-- ---------------------------------------------------------------------------

structure Rule.Written (r : RawRule) : Prop where
  heading : ∃ text us rest, Heading isBlockMark '{' r.place text us rest ∧
    r.selectors = selectorsOf text
  selected : r.selectors ≠ []
  declared : ∀ d, Item.declaration d ∈ r.items → ∃ levels s ts rest, startsToken s ∧
    DeclarationOf (CommaList (Primary levels)) s d ts rest

theorem Grammar.RuleOf.each {R : Traced RawRule} {levels : Nat} {s rest : List Char} {r : RawRule}
    {ts : List Token} (hR : ∀ {s r ts rest}, R s r ts rest → r.Each Rule.Written)
    (h : RuleOf R (CommaList (Primary levels)) s r ts rest) : r.Each Rule.Written := by
  obtain ⟨hheading, hselectors, hitems⟩ := h
  refine .mk ⟨⟨_, _, _, hheading, rfl⟩, hselectors, fun d hd => ⟨levels, ?_⟩⟩ fun r hr => ?_
  · exact hitems.declaration_of_mem hd
  · obtain ⟨_, _, _, hrule⟩ := hitems.rule_of_mem hr
    exact hR hrule

theorem Grammar.Ruled.each {levels : Nat} {s rest : List Char} {r : RawRule} {ts : List Token}
    (h : Ruled levels s r ts rest) : r.Each Rule.Written := by
  induction levels generalizing s r ts rest with
  | zero => exact RuleOf.each False.elim h
  | succ levels ih => exact RuleOf.each ih h

theorem Grammar.Rules.each {s : List Char} {rules : List RawRule} {ts : List Token}
    (h : Rules s rules ts) : ∀ r ∈ rules, r.Each Rule.Written := by
  induction h with
  | nil => simp
  | cons _ _ hrule _ ih => exact List.forall_mem_cons.2 ⟨hrule.each, ih⟩

-- ---------------------------------------------------------------------------
-- Places
-- ---------------------------------------------------------------------------

theorem Item.mem_places {p : Type} {items : List (Item p)} {r : Rule p} (hr : Item.rule r ∈ items)
    {place : p} (h : place ∈ r.places) : place ∈ Item.places items := by
  induction items with
  | nil => cases hr
  | cons item items ih =>
    obtain rfl | hmore := List.mem_cons.1 hr
    · exact List.mem_append_left _ h
    · cases item <;> exact List.mem_append_right _ (ih hmore)

theorem Rule.each_place {p : Type} {S : p → Prop} {rule : Rule p}
    (h : ∀ place ∈ rule.places, S place) : rule.Each fun r => S r.place := by
  induction rule using Rule.treeInduction with
  | mk selectors items place ih =>
    rw [places, List.forall_mem_cons] at h
    exact .mk h.1 fun r hr => ih r hr fun place hplace => h.2 place (Item.mem_places hr hplace)

-- ---------------------------------------------------------------------------
-- Sheets
-- ---------------------------------------------------------------------------

section
variable {source : String} {sheet : Sheet Location} {P : Rule Location → Prop}

/-- What holds of each rule that stands somewhere in the source as it was written, holds of every
rule of the sheet. -/
theorem Sheet.each_of_parse (h : Sheet.parse source = .ok sheet)
    (hP : ∀ r : RawRule, r.Written → r.place <:+ source.toList →
      P (r.mapPlaces (placeIn source.toList))) : ∀ rule ∈ sheet, rule.Each P := by
  obtain ⟨rules, hrules, rfl⟩ := Sheet.parse_ok.1 h
  obtain ⟨ts, hts⟩ := readRules_ok.1 hrules
  have hpasses := readRules_passes source.toList
  rw [hrules] at hpasses
  intro rule hrule
  obtain ⟨r, hr, rfl⟩ := List.mem_map.1 hrule
  have hplaces : r.Each fun r => r.place <:+ source.toList := Rule.each_place fun place hplace =>
    (hpasses.mem place (List.mem_flatMap.2 ⟨r, hr, hplace⟩)).1
  exact Rule.each_mapPlaces.2 (((hts.each r hr).and hplaces).imp fun r h => hP r h.1 h.2)

theorem Sheet.headed_of_parse (h : Sheet.parse source = .ok sheet) :
    ∀ rule ∈ sheet, rule.Headed := by
  intro rule hrule
  refine Rule.headed_iff.2 (Sheet.each_of_parse h (fun r hr _ => ?_) rule hrule)
  rw [Rule.selectors_mapPlaces]
  exact hr.selected

end

end HostSheet
