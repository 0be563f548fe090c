import HostSheet.Proofs.Session.Failing
import HostSheet.Proofs.Session.Printing
import HostSheet.Proofs.Session.Selectors
import HostSheet.Proofs.Session.Slots
import HostSheet.Proofs.Sheet.Everywhere

/-!
# Flattened rules

The blocks of a sheet are those of its rules in their order, a rule before the rules in it. A block
holds what was printed of the rule's own declarations, and its selectors are resolved along the
chain of rules around it.
-/

namespace HostSheet

def blockOf (chain : List (List String)) (items : List (Item Printed)) : Block :=
  ⟨chainSelectors chain, items.filterMap Item.own?⟩

theorem Item.blocks_eq {chain : List (List String)} {items : List (Item Printed)}
    (h : ∀ r, Item.rule r ∈ items →
      r.blocks (chainSelectors chain) = (r.preorder chain).map (Function.uncurry blockOf)) :
    Item.blocks (chainSelectors chain) items =
      (Item.preorder chain items).map (Function.uncurry blockOf) := by
  induction items with
  | nil => rfl
  | cons item items ih =>
    have hitems := ih fun r hr => h r (List.mem_cons_of_mem _ hr)
    cases item with
    | declaration d => exact hitems
    | rule r =>
      rw [Item.blocks, Item.preorder, List.map_append, hitems, h r List.mem_cons_self]

theorem Rule.blocks_eq (rule : Rule Printed) (chain : List (List String)) :
    rule.blocks (chainSelectors chain) =
      (rule.preorder chain).map (Function.uncurry blockOf) := by
  induction rule using Rule.treeInduction generalizing chain with
  | mk selectors items place ih =>
    rw [Rule.blocks, Rule.preorder, List.map_cons, ← chainSelectors_concat,
      Item.blocks_eq fun r hr => ih r hr _]
    rfl

theorem Sheet.blocks_eq (sheet : Sheet Printed) :
    Sheet.blocks sheet = (Sheet.preorder sheet).map (Function.uncurry blockOf) := by
  rw [Sheet.blocks, Sheet.preorder, List.map_flatMap]
  exact List.flatMap_congr fun rule _ => rule.blocks_eq []

/-- The selectors at the end of a chain: the product of all choices, all under the first parent
before those under the second, and no ampersand unless there is one at the top. -/
structure ChainResolved (chain : List (List String)) (selectors : List String) : Prop where
  nonempty : selectors ≠ []
  length : selectors.length = (chain.map List.length).prod
  top : ∀ own, chain = [own] → selectors = own
  ordered : ∀ above own, chain = above ++ [own] → ∀ (i j : Nat) parent selector,
    (chainSelectors above)[i]? = some parent → own[j]? = some selector →
    selectors[i * own.length + j]? = some (resolveSelector parent selector)
  plain : ∀ top below, chain = top :: below → (∀ selector ∈ top, '&' ∉ selector.toList) →
    ∀ selector ∈ selectors, '&' ∉ selector.toList

theorem chainResolved {chain : List (List String)} (hne : chain ≠ [])
    (h : ∀ own ∈ chain, own ≠ []) : ChainResolved chain (chainSelectors chain) where
  nonempty := chainSelectors_ne_nil hne h
  length := length_chainSelectors hne h
  top := by
    rintro own rfl
    rfl
  ordered := by
    rintro above own rfl i j parent selector hparent hselector
    rw [chainSelectors_concat]
    exact getElem?_resolveSelectors hparent hselector
  plain := by
    rintro top below rfl htop
    exact ampersand_not_mem_chainSelectors h htop

namespace Session

variable {σ : Type} {s : Session σ} {source css : String}

/-- A source that compiles was parsed, no node of it failed, and the CSS is that of its blocks. -/
theorem compile_ok (h : (s.compile source).1 = .ok css) :
    ∃ sheet, Sheet.parse source = .ok sheet ∧
      Setting.firstFailure (s.course sheet).1 = none ∧
      css = Block.render (Sheet.printed sheet (s.course sheet).1).blocks
        s.config.compile.outputStyle := by
  cases hparse : Sheet.parse source with
  | error e =>
    rw [compile_of_unreadable hparse] at h
    cases h
  | ok sheet =>
    cases hfailure : Setting.firstFailure (s.course sheet).1 with
    | some e =>
      rw [(compile_error_iff hparse).2 ⟨e, hfailure, rfl⟩] at h
      cases h
    | none =>
      rw [(compile_of_success hparse hfailure).2] at h
      cases h
      exact ⟨sheet, rfl, hfailure, rfl⟩

/-- When a source compiles, no node has failed, and the CSS is made of one block for each rule, a
rule before the rules in it. A block holds what was printed of the rule's own declarations, in their
order, under selectors that are resolved along the chain of rules around it. Blocks that are written
through slots are the same, and whatever fails, no slot is out of range. -/
theorem compile_flattens (h : (s.compile source).1 = .ok css) :
    ∃ sheet events printed blocks,
      Sheet.parse source = .ok sheet ∧
      s.setting.IsCourse s.registry (Sheet.nodes sheet) events
        (s.compile source).2.registry ∧
      Setting.firstFailure events = none ∧
      printed.map (Rule.mapPlaces fun _ => ()) = sheet.map (Rule.mapPlaces fun _ => ()) ∧
      (Sheet.nodes printed).filterMap Node.declared? = events.filterMap Event.declared? ∧
      blocks = (Sheet.preorder printed).map (Function.uncurry blockOf) ∧
      (s.evaluate source).1 = .ok blocks ∧
      css = Block.render blocks s.config.compile.outputStyle ∧
      (∀ chain items, (chain, items) ∈ Sheet.preorder printed →
        ChainResolved chain (blockOf chain items).selectors) ∧
      s.setting.writeSheet (σ := σ) sheet #[] =
        (fun blocks => some blocks.toArray) <$> s.setting.evalSheet sheet := by
  obtain ⟨sheet, hparse, hsuccess, hcss⟩ := compile_ok h
  obtain ⟨warnings, hsession⟩ := s.compile_session source
  have hshape := Sheet.mapPlaces_printed sheet (s.course sheet).1
  refine ⟨sheet, (s.course sheet).1, Sheet.printed sheet (s.course sheet).1, _, hparse, ?_,
    hsuccess, hshape, declared?_sheetPrinted sheet (Setting.course_tellOf hsuccess),
    Sheet.blocks_eq _, ?_, hcss, ?_, ?_⟩
  · rw [hsession, evaluate_eq hparse]
    exact s.setting.isCourse_course _ _
  · exact (compile_of_success hparse hsuccess).1
  · intro chain items hlisted
    obtain ⟨rule, hrule, hlisted⟩ := List.mem_flatMap.1 hlisted
    have hheaded : rule.Headed := by
      have hmem := List.mem_map_of_mem (f := Rule.mapPlaces fun _ => ()) hrule
      rw [hshape, List.mem_map] at hmem
      obtain ⟨written, hwritten, hsame⟩ := hmem
      rw [← Rule.headed_mapPlaces (f := fun _ => ()), ← hsame, Rule.headed_mapPlaces]
      exact Sheet.headed_of_parse hparse written hwritten
    obtain ⟨hne, hall⟩ := hheaded.preorder (by simp) (chain, items) hlisted
    exact chainResolved hne hall
  · simpa using s.setting.writeSheet_eq (σ := σ) sheet #[]

/-- A declaration behind a nested rule stands in the block ahead of that rule, and all selectors of
the nested rule are resolved under one parent before the next. -/
theorem compile_flattens_nested :
    let s : Session Unit := .ofConfig 0 {} ()
    let source := "a,b\x7bx:1;&:hover,c\x7by:f(2)\x7dz:3\x7d"
    (s.compile source).1 = .ok ("a, b \x7b\n  x: 1;\n  z: 3;\n\x7d\n\n" ++
      "a:hover, a c, b:hover, b c \x7b\n  y: f(2);\n\x7d\n") ∧
    ∃ printed, (Sheet.preorder printed).map (Function.uncurry blockOf) =
      [⟨["a", "b"], [("x", "1"), ("z", "3")]⟩,
        ⟨["a:hover", "a c", "b:hover", "b c"], [("y", "f(2)")]⟩] := by
  intro s source
  have hcompiles : (s.compile source).1 = .ok ("a, b \x7b\n  x: 1;\n  z: 3;\n\x7d\n\n" ++
      "a:hover, a c, b:hover, b c \x7b\n  y: f(2);\n\x7d\n") := by decide +kernel
  have hevaluates : (s.evaluate source).1 = .ok
      [⟨["a", "b"], [("x", "1"), ("z", "3")]⟩,
        ⟨["a:hover", "a c", "b:hover", "b c"], [("y", "f(2)")]⟩] := by decide +kernel
  obtain ⟨sheet, events, printed, blocks, -, -, -, -, -, rfl, hblocks, -⟩ :=
    compile_flattens hcompiles
  exact ⟨hcompiles, printed, Except.ok.inj (hblocks.symm.trans hevaluates)⟩

end Session

end HostSheet
