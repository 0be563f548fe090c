import HostSheet.Proofs.Css.Joining
import HostSheet.Proofs.Equality.Values
import HostSheet.Proofs.Session.Constants

/-!
# Values as a sheet writes them

What is printed for a value is read back as an expression without calls, and the expression has the
value that was printed, as far as its numbers can be told from their digits. Parentheses are put
around the lists in a list, so the reader comes to as many levels as the value has.
-/

namespace HostSheet

open Grammar

-- ---------------------------------------------------------------------------
-- Changed magnitudes
-- ---------------------------------------------------------------------------

namespace Value

mutual

def mapMagnitudes (g : Float → Float) : Value → Value
  | .number n => .number ⟨g n.magnitude, n.unit⟩
  | .list items separator => .list (mapMagnitudesItems g items) separator
  | .map entries => .map (mapMagnitudesEntries g entries)
  | value => value

def mapMagnitudesItems (g : Float → Float) : List Value → List Value
  | [] => []
  | item :: items => item.mapMagnitudes g :: mapMagnitudesItems g items

def mapMagnitudesEntries (g : Float → Float) : List (Value × Value) → List (Value × Value)
  | [] => []
  | (key, value) :: entries =>
    (key.mapMagnitudes g, value.mapMagnitudes g) :: mapMagnitudesEntries g entries

end

theorem mapMagnitudesItems_eq (g : Float → Float) (items : List Value) :
    mapMagnitudesItems g items = items.map (mapMagnitudes g) := by
  induction items with
  | nil => rfl
  | cons item items ih => rw [mapMagnitudesItems, ih, List.map_cons]

theorem mapMagnitudesEntries_eq (g : Float → Float) (entries : List (Value × Value)) :
    mapMagnitudesEntries g entries =
      entries.map fun entry => (entry.1.mapMagnitudes g, entry.2.mapMagnitudes g) := by
  induction entries with
  | nil => rfl
  | cons entry entries ih => rw [mapMagnitudesEntries, ih, List.map_cons]

-- ---------------------------------------------------------------------------
-- Expressions of values
-- ---------------------------------------------------------------------------

variable {p q : Type}

mutual

def toExpr : Value → Expr p
  | .list (item :: items) separator => .list (item.toExpr :: toExprItems items) separator
  | .map entries => .map (toExprEntries entries)
  | value => .literal value

def toExprItems : List Value → List (Expr p)
  | [] => []
  | item :: items => item.toExpr :: toExprItems items

def toExprEntries : List (Value × Value) → List (Expr p × Expr p)
  | [] => []
  | (key, value) :: entries => (key.toExpr, value.toExpr) :: toExprEntries entries

end

theorem toExprItems_eq (items : List Value) :
    toExprItems items = items.map (toExpr : Value → Expr p) := by
  induction items with
  | nil => rfl
  | cons item items ih => rw [toExprItems, ih, List.map_cons]

theorem toExprEntries_eq (entries : List (Value × Value)) :
    toExprEntries entries =
      entries.map fun entry => ((entry.1.toExpr, entry.2.toExpr) : Expr p × Expr p) := by
  induction entries with
  | nil => rfl
  | cons entry entries ih => rw [toExprEntries, ih, List.map_cons]

theorem toExpr_leaf {value : Value} (h : value.isComposite = false) :
    (value.toExpr : Expr p) = .literal value := by
  cases value <;> first | rfl | cases h

theorem toExpr_list {items : List Value} (h : items ≠ []) (separator : Separator) :
    ((list items separator).toExpr : Expr p) = .list (items.map toExpr) separator := by
  cases items with
  | nil => exact absurd rfl h
  | cons item items => rw [toExpr, toExprItems_eq, List.map_cons]

theorem toExpr_map (entries : List (Value × Value)) :
    ((map entries).toExpr : Expr p) =
      .map (entries.map fun entry => (entry.1.toExpr, entry.2.toExpr)) := by
  rw [toExpr, toExprEntries_eq]

theorem callFree_toExpr (value : Value) : (value.toExpr : Expr p).CallFree := by
  induction value using treeInduction with
  | list items separator ih =>
    by_cases hnil : items = []
    · rw [hnil]
      exact Expr.callFree_literal _
    · rw [toExpr_list hnil, Expr.callFree_list]
      exact List.forall_mem_map.2 ih
  | map entries ih =>
    rw [toExpr_map, Expr.callFree_map]
    exact List.forall_mem_map.2 ih
  | leaf value h =>
    rw [toExpr_leaf h]
    exact Expr.callFree_literal value

theorem constant_toExpr (value : Value) : (value.toExpr : Expr p).constant = value := by
  induction value using treeInduction with
  | list items separator ih =>
    by_cases hnil : items = []
    · rw [hnil]
      rfl
    · rw [toExpr_list hnil, Expr.constant, Expr.constantItems_eq, List.map_map]
      exact congrArg (list · separator) ((List.map_congr_left ih).trans (List.map_id items))
  | map entries ih =>
    rw [toExpr_map, Expr.constant, Expr.constantEntries_eq, List.map_map]
    refine congrArg map (Eq.trans (List.map_congr_left fun entry he => ?_) (List.map_id entries))
    exact Prod.ext (ih entry he).1 (ih entry he).2
  | leaf value h =>
    rw [toExpr_leaf h]
    rfl

theorem mapPlaces_toExpr (g : p → q) (value : Value) :
    (value.toExpr : Expr p).mapPlaces g = value.toExpr := by
  induction value using treeInduction with
  | list items separator ih =>
    by_cases hnil : items = []
    · rw [hnil]
      rfl
    · rw [toExpr_list hnil, toExpr_list hnil, Expr.mapPlaces, Expr.mapPlacesItems_eq, List.map_map]
      exact congrArg (Expr.list · separator) (List.map_congr_left ih)
  | map entries ih =>
    rw [toExpr_map, toExpr_map, Expr.mapPlaces, Expr.mapPlacesEntries_eq, List.map_map]
    refine congrArg Expr.map (List.map_congr_left fun entry he => ?_)
    exact Prod.ext (ih entry he).1 (ih entry he).2
  | leaf value h =>
    rw [toExpr_leaf h, toExpr_leaf h]
    rfl

end Value

-- ---------------------------------------------------------------------------
-- Printed values
-- ---------------------------------------------------------------------------

namespace Formatter

variable (f : Formatter)

def itemText (item : Value) : String :=
  if needsParens item then "(" ++ f.inspect item ++ ")" else f.inspect item

def printed (v : Value) : RawExpr :=
  (v.mapMagnitudes f.reread).toExpr

theorem inspectItems_eq (items : List Value) : f.inspectItems items = items.map f.itemText := by
  induction items with
  | nil => rfl
  | cons item items ih => rw [inspectItems, ih, List.map_cons, itemText]

theorem inspectEntries_eq (entries : List (Value × Value)) : f.inspectEntries entries =
    entries.map fun entry => f.inspect entry.1 ++ ": " ++ f.inspect entry.2 := by
  induction entries with
  | nil => rfl
  | cons entry entries ih => rw [inspectEntries, ih, List.map_cons]

theorem toList_inspect_list (item : Value) (items : List Value) (separator : Separator) :
    (f.inspect (.list (item :: items) separator)).toList = (f.itemText item).toList ++
      items.flatMap fun item => separator.text.toList ++ (f.itemText item).toList := by
  rw [inspect, inspectItems_eq, List.map_cons, toList_intercalate_cons, List.flatMap_map]

theorem toList_inspect_map (entry : Value × Value) (entries : List (Value × Value)) :
    (f.inspect (.map (entry :: entries))).toList =
      '(' :: (entryText (fun v => (f.inspect v).toList) entry ++
        (entries.flatMap (fun entry =>
          ',' :: ' ' :: entryText (fun v => (f.inspect v).toList) entry) ++ [')'])) := by
  rw [inspect, inspectEntries_eq, List.map_cons, String.toList_append, String.toList_append,
    toList_intercalate_cons, List.flatMap_map]
  simp [entryText]

theorem printed_list {items : List Value} (h : items ≠ []) (separator : Separator) :
    f.printed (.list items separator) = .list (items.map f.printed) separator := by
  have hne : items.map (Value.mapMagnitudes f.reread) ≠ [] := by simpa using h
  rw [printed, Value.mapMagnitudes, Value.mapMagnitudesItems_eq, Value.toExpr_list hne,
    List.map_map]
  rfl

theorem printed_map (entries : List (Value × Value)) : f.printed (.map entries) =
    .map (entries.map fun entry => (f.printed entry.1, f.printed entry.2)) := by
  rw [printed, Value.mapMagnitudes, Value.mapMagnitudesEntries_eq, Value.toExpr_map, List.map_map]
  rfl

def isCommaList : Value → Bool
  | .list (_ :: _) .comma => true
  | _ => false

/-- The values that a sheet can write, with at most so many levels of lists and maps. Lists of one
item cannot be written; a name is no reserved one, and the digits that are printed for a number have
to be enough to tell it. -/
inductive Legible : (levels : Nat) → Value → Prop
  | null {levels} : Legible levels .null
  | bool {levels b} : Legible levels (.bool b)
  | quoted {levels text} : '\n' ∉ text.toList → Legible levels (.string text true)
  | name {levels text} : isIdentifier text.toList = true → text ∉ ["null", "true", "false"] →
      Legible levels (.string text false)
  | color {levels c} : c.alpha = 1 → Legible levels (.color c)
  | number {levels n} : n.magnitude.isFinite = true →
      (n.magnitude == f.reread n.magnitude) = true → IsUnit n.unit → Legible levels (.number n)
  | emptyList {levels} : Legible (levels + 1) .emptyList
  | list {levels items separator} : 2 ≤ items.length → (∀ item ∈ items, Legible levels item) →
      Legible (levels + 1) (.list items separator)
  | map {levels entries} : entries ≠ [] → (∀ entry ∈ entries, Legible levels entry.1) →
      (∀ entry ∈ entries, Legible levels entry.2) →
      (∀ entry ∈ entries, isCommaList entry.1 = false ∧ isCommaList entry.2 = false) →
      Legible (levels + 1) (.map entries)

structure Readable (levels : Nat) (v : Value) : Prop where
  item : (Primary levels).Writes Follows (f.itemText v).toList (f.printed v)
  part : isCommaList v = false →
    (SpaceList (Primary levels)).Writes Closes (f.inspect v).toList (f.printed v)

variable {f} {levels : Nat} {v : Value}

theorem Readable.of_primary (hparens : needsParens v = false)
    (h : (Primary levels).Writes Follows (f.inspect v).toList (f.printed v)) :
    f.Readable levels v where
  item := by
    rw [itemText, hparens]
    exact h
  part _ := spaceList_single h

theorem writes_parens {text : List Char} {e : RawExpr}
    (h : ∀ s, Group (SpaceList (Primary levels)) ('(' :: (text ++ ')' :: s)) e s) :
    (Primary (levels + 1)).Writes Follows ('(' :: (text ++ [')'])) e := by
  intro s _
  rw [List.cons_append, List.append_assoc, List.singleton_append]
  exact .group (h s)

theorem readable_list {first : Value} {items : List Value} (separator : Separator)
    (hne : items ≠ []) (hin : ∀ item ∈ first :: items, f.Readable levels item)
    (hout : ∀ item ∈ first :: items, f.Readable (levels + 1) item) :
    f.Readable (levels + 1) (.list (first :: items) separator) := by
  have htext : (f.itemText (.list (first :: items) separator)).toList =
      '(' :: ((f.inspect (.list (first :: items) separator)).toList ++ [')']) := by
    simp [itemText, needsParens]
  have hprinted := f.printed_list (List.cons_ne_nil first items) separator
  cases separator with
  | comma =>
    refine ⟨?_, fun h => by cases h⟩
    rw [htext, hprinted, toList_inspect_list]
    refine writes_parens fun s => ?_
    rw [List.append_assoc]
    exact group_commas (fun item hi => spaceList_single (hin item hi).item) hne s
  | space =>
    rw [toList_inspect_list] at htext
    constructor
    · rw [htext, hprinted]
      exact writes_parens (group_single (spaceList_joined (fun item hi => (hin item hi).item) hne))
    · intro _
      rw [toList_inspect_list, hprinted]
      exact spaceList_joined (fun item hi => (hout item hi).item) hne

theorem readable_map {entry : Value × Value} {entries : List (Value × Value)}
    (h : ∀ entry' ∈ entry :: entries, WritesEntry levels (fun v => (f.inspect v).toList) f.printed
      entry') :
    f.Readable (levels + 1) (.map (entry :: entries)) := by
  refine .of_primary rfl ?_
  rw [toList_inspect_map, printed_map, ← List.append_assoc]
  refine writes_parens fun s => ?_
  rw [List.append_assoc]
  exact group_map h s

/-- With levels enough, what is printed for a value is read. -/
theorem Legible.readable (h : f.Legible levels v) (more : Nat) : f.Readable (levels + more) v := by
  induction h generalizing more with
  | null => exact .of_primary rfl (writes_nameValue "null" (by decide))
  | @bool _ b =>
    cases b
    · exact .of_primary rfl (writes_nameValue "false" (by decide))
    · exact .of_primary rfl (writes_nameValue "true" (by decide))
  | quoted htext => exact .of_primary rfl (writes_quote htext)
  | @name levels text hname hfree =>
    simp only [List.mem_cons, List.not_mem_nil, or_false, not_or] at hfree
    have hvalue : nameValue text = .string text false := by
      rw [nameValue, if_neg hfree.1, if_neg hfree.2.1, if_neg hfree.2.2]
    refine .of_primary rfl ?_
    have h : (Primary (levels + more)).Writes Follows _ _ := writes_nameValue text hname
    rwa [hvalue] at h
  | color hc => exact .of_primary rfl (f.writes_color hc)
  | number hfinite _ hunit => exact .of_primary rfl (f.writes_number hfinite hunit)
  | @emptyList levels =>
    have hgroup : ∀ s, Group (SpaceList (Primary (levels + more))) ('(' :: ([] ++ ')' :: s))
        (.literal .emptyList) s := fun s => .empty (Closes.close s).trivia
    have htext : (f.inspect .emptyList).toList = '(' :: ([] ++ [')']) := by
      rw [Value.emptyList, inspect]
      decide
    rw [Nat.add_right_comm]
    refine .of_primary rfl ?_
    rw [htext]
    exact writes_parens hgroup
  | @list levels items separator hlength _ ih =>
    rw [Nat.add_right_comm]
    match items, hlength with
    | first :: second :: items, _ =>
      exact readable_list separator (by simp) (fun item hi => ih item hi more)
        fun item hi => ih item hi (more + 1)
  | map hne _ _ hparts ihkeys ihvalues =>
    rw [Nat.add_right_comm]
    obtain ⟨entry, entries, rfl⟩ := List.exists_cons_of_ne_nil hne
    refine readable_map fun entry he => ⟨?_, ?_⟩
    · exact (ihkeys entry he more).part (hparts entry he).1
    · exact (ihvalues entry he more).part (hparts entry he).2

theorem Legible.commaList (h : f.Legible levels v) :
    CommaList (Primary levels) (f.inspect v).toList (f.printed v) [] := by
  by_cases hcomma : isCommaList v = true
  · cases h with
    | @list n items separator hlength hitems =>
      match items, separator, hlength, hcomma with
      | first :: second :: items, .comma, _, _ =>
        have hitem : ∀ item ∈ first :: second :: items,
            (SpaceList (Primary (n + 1))).Writes Closes (f.itemText item).toList
              (f.printed item) :=
          fun item hi => spaceList_single ((hitems item hi).readable 1).item
        rw [List.forall_mem_cons] at hitem
        have hfirst := hitem.1 _ (closes_joined (fun item => (f.itemText item).toList)
          (second :: items) .nil)
        have hmore := commaItems_joined (fun _ hs => hs.2) hitem.2 (by simp) .nil (by simp)
        have hlist := CommaList.mk hfirst hmore
        rw [toList_inspect_list, printed_list _ (by simp)]
        rwa [List.append_nil] at hlist
    | _ => cases hcomma
  · have hlist := (h.readable 0).part (Bool.eq_false_iff.2 hcomma) [] .nil
    rw [List.append_nil] at hlist
    exact .mk hlist (.none Closes.nil.trivia (by simp))

theorem Legible.equal (h : f.Legible levels v) : v.equal (v.mapMagnitudes f.reread) = true := by
  induction h with
  | null => rfl
  | @bool _ b => cases b <;> rfl
  | quoted => simp [Value.mapMagnitudes, Value.equal]
  | name => simp [Value.mapMagnitudes, Value.equal]
  | @color _ c hc =>
    change (c == c) = true
    rw [Color.beq_self, hc]
    decide
  | @number _ n _ hsame _ =>
    exact Number.beq_iff.2 ⟨hsame, rfl⟩
  | emptyList => rfl
  | list _ _ ih =>
    rw [Value.mapMagnitudes, Value.mapMagnitudesItems_eq]
    refine Value.equal_list_iff.2 ⟨_, rfl, ?_⟩
    rwa [List.forall₂_map_right_iff, List.forall₂_same]
  | map _ _ _ _ ihkeys ihvalues =>
    rw [Value.mapMagnitudes, Value.mapMagnitudesEntries_eq]
    refine Value.beq_map_iff.2 ⟨_, rfl, rel_of_forall₂ ?_⟩
    rw [List.forall₂_map_right_iff, List.forall₂_same]
    exact fun entry he => ⟨ihkeys entry he, ihvalues entry he⟩

theorem Legible.parse (h : f.Legible 256 v) :
    Expr.parse (f.inspect v) = .ok (v.mapMagnitudes f.reread).toExpr := by
  refine Expr.parse_ok.2 ⟨f.printed v, readWhole_ok.2 ?_, Value.mapPlaces_toExpr _ _⟩
  exact ⟨_, [], .done h.commaList.startsItem.1, h.commaList, .done ⟨rfl, rfl⟩⟩

/-- What is printed for a value of at most 256 levels that a sheet can write is read back as an
expression without calls. Its value is the value that was printed, with each magnitude as its digits
tell it, and the two are equal. -/
theorem inspect_reads_back (h : f.Legible 256 v) :
    ∃ e, Expr.parse (f.inspect v) = .ok e ∧ e.CallFree ∧
      (∀ (σ : Type) (setting : Setting),
        (setting.evalExpr e : EvalM σ Value) = pure (v.mapMagnitudes f.reread)) ∧
      (v == v.mapMagnitudes f.reread) = true := by
  refine ⟨_, h.parse, Value.callFree_toExpr _, fun σ setting => ?_, h.equal⟩
  rw [Setting.evalExpr_of_callFree (Value.callFree_toExpr _), Value.constant_toExpr]

/-- A map and a list in a list, each in its parentheses. -/
theorem inspect_reads_back_nested :
    let f : Formatter := ⟨.compressed, 5⟩
    let v : Value := .list [
      .map [(.string "k" false, .list [.number ⟨-0.5, "px"⟩, .color ⟨255, 0, 170, 1⟩] .space)],
      .list [.emptyList, .string "a\"b" true, .null] .comma] .space
    f.Legible 256 v ∧
    ∃ e, Expr.parse "(k: -.5px #f0a) ((), \"a\\\"b\", null)" = .ok e ∧ e.CallFree ∧
      (∀ (σ : Type) (setting : Setting),
        (setting.evalExpr e : EvalM σ Value) = pure (v.mapMagnitudes f.reread)) ∧
      (v == v.mapMagnitudes f.reread) = true := by
  intro f v
  have hnumber : f.Legible 253 (.number ⟨-0.5, "px"⟩) :=
    .number (by decide +kernel) (by decide +kernel) (.inr (by decide))
  have hpair : f.Legible 254 (.list [.number ⟨-0.5, "px"⟩, .color ⟨255, 0, 170, 1⟩] .space) :=
    .list (by decide) (by simpa using ⟨hnumber, .color rfl⟩)
  have hmap : f.Legible 255 (.map [(.string "k" false, _)]) :=
    .map (by simp) (by simpa using .name (by decide) (by decide)) (by simpa using hpair)
      (by simp [isCommaList])
  have hlist : f.Legible 255 (.list [.emptyList, .string "a\"b" true, .null] .comma) :=
    .list (by decide) (by simpa using ⟨.emptyList, .quoted (by decide), .null⟩)
  have hv : f.Legible 256 v := .list (by decide) (by simpa using ⟨hmap, hlist⟩)
  have htext : f.inspect v = "(k: -.5px #f0a) ((), \"a\\\"b\", null)" := by decide +kernel
  have hread := inspect_reads_back hv
  rw [htext] at hread
  exact ⟨hv, hread⟩

end Formatter

end HostSheet
