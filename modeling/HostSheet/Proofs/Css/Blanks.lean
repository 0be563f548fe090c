import HostSheet.Css.Formatter
import HostSheet.Proofs.Conversion.Tree
import HostSheet.Proofs.Failure

/-!
# Blank values

What the value of a declaration is printed as depends on what is reached in it through lists. It
cannot be printed if a map or an error is reached. What is blank in it is left out, and what is left
is printed as if nothing else had been there.
-/

namespace HostSheet

-- ---------------------------------------------------------------------------
-- What is reached
-- ---------------------------------------------------------------------------

namespace Value

mutual

/-- What is reached in a value through lists, from left to right. An empty list is reached
itself. -/
def reached : Value → List Value
  | .list [] separator => [.list [] separator]
  | .list (item :: items) _ => item.reached ++ itemsReached items
  | value => [value]

def itemsReached : List Value → List Value
  | [] => []
  | item :: items => item.reached ++ itemsReached items

end

def isVoid : Value → Bool
  | .null | .warning _ | .list [] _ => true
  | _ => false

def isUnprintable : Value → Bool
  | .map _ | .error _ => true
  | _ => false

/-- Nothing else than such voids is reached. -/
def isBlank (v : Value) : Bool :=
  v.reached.all isVoid

mutual

/-- The value without what is blank in it, at every level. -/
def withoutBlanks : Value → Value
  | .list items separator => .list (itemsWithoutBlanks items) separator
  | value => value

def itemsWithoutBlanks : List Value → List Value
  | [] => []
  | item :: items =>
    if item.isBlank then itemsWithoutBlanks items
    else item.withoutBlanks :: itemsWithoutBlanks items

end

section
variable {v item : Value} {items : List Value} {separator : Separator}

theorem itemsReached_eq (items : List Value) : itemsReached items = items.flatMap reached := by
  induction items with
  | nil => rfl
  | cons item items ih => rw [itemsReached, ih, List.flatMap_cons]

theorem reached_list (h : items ≠ []) :
    (list items separator).reached = items.flatMap reached := by
  cases items with
  | nil => exact absurd rfl h
  | cons item items => rw [reached, itemsReached_eq, List.flatMap_cons]

theorem mem_reached_list (hitem : item ∈ items) {part : Value} (hpart : part ∈ item.reached) :
    part ∈ (list items separator).reached := by
  rw [reached_list (List.ne_nil_of_mem hitem)]
  exact List.mem_flatMap.2 ⟨item, hitem, hpart⟩

theorem isBlank_list : (list items separator).isBlank = items.all isBlank := by
  cases items with
  | nil => rfl
  | cons item items =>
    rw [isBlank, reached_list (List.cons_ne_nil _ _), List.all_flatMap]
    rfl

theorem isBlank_eq_false : v.isBlank = false ↔ ∃ part ∈ v.reached, part.isVoid = false := by
  simp [isBlank]

theorem itemsWithoutBlanks_eq (items : List Value) :
    itemsWithoutBlanks items = (items.filter (!·.isBlank)).map withoutBlanks := by
  induction items with
  | nil => rfl
  | cons item items ih =>
    rw [itemsWithoutBlanks, ih]
    cases h : item.isBlank <;> simp [h]

theorem filter_of_isBlank (h : v.isBlank = true) : v.reached.filter (!·.isVoid) = [] := by
  rw [isBlank, List.all_eq_true] at h
  rw [List.filter_eq_nil_iff]
  intro part hpart
  simp [h part hpart]

theorem itemsReached_withoutBlanks
    (ih : ∀ item ∈ items, item.isBlank = false →
      item.withoutBlanks.reached = item.reached.filter (!·.isVoid)) :
    itemsReached (itemsWithoutBlanks items) = (itemsReached items).filter (!·.isVoid) := by
  induction items with
  | nil => rfl
  | cons item items rest =>
    rw [List.forall_mem_cons] at ih
    rw [itemsWithoutBlanks, itemsReached, List.filter_append, ← rest ih.2]
    split
    · rename_i hblank
      rw [filter_of_isBlank hblank, List.nil_append]
    · rename_i hblank
      rw [itemsReached, ih.1 (Bool.eq_false_iff.2 hblank)]

theorem itemsWithoutBlanks_eq_nil :
    itemsWithoutBlanks items = [] ↔ (list items separator).isBlank = true := by
  rw [itemsWithoutBlanks_eq, List.map_eq_nil_iff, List.filter_eq_nil_iff, isBlank_list,
    List.all_eq_true]
  simp only [Bool.not_eq_true', Bool.not_eq_false]

theorem reached_withoutBlanks (h : v.isBlank = false) :
    v.withoutBlanks.reached = v.reached.filter (!·.isVoid) := by
  induction v using treeInduction with
  | list items separator ih =>
    have hkept : itemsWithoutBlanks items ≠ [] :=
      itemsWithoutBlanks_eq_nil.not.2 (Bool.eq_false_iff.1 h)
    have hne : items ≠ [] := by
      rintro rfl
      exact hkept rfl
    rw [withoutBlanks, reached_list hkept, reached_list hne, ← itemsReached_eq, ← itemsReached_eq,
      itemsReached_withoutBlanks ih]
  | map entries => rfl
  | leaf value hvalue =>
    have hreached : value.reached = [value] := by
      cases value <;> first | rfl | cases hvalue
    have hkept : value.withoutBlanks = value := by
      cases value <;> first | rfl | cases hvalue
    have hvoid : value.isVoid = false := by simpa [isBlank, hreached] using h
    rw [hkept, hreached, List.filter_cons_of_pos (by simp [hvoid]), List.filter_nil]

theorem isBlank_withoutBlanks (v : Value) : v.withoutBlanks.isBlank = v.isBlank := by
  cases h : v.isBlank with
  | true =>
    cases v with
    | list items separator =>
      rw [withoutBlanks, itemsWithoutBlanks_eq_nil.2 h]
      rfl
    | _ => exact h
  | false =>
    obtain ⟨part, hpart, hvoid⟩ := isBlank_eq_false.1 h
    refine isBlank_eq_false.2 ⟨part, ?_, hvoid⟩
    rw [reached_withoutBlanks h, List.mem_filter]
    exact ⟨hpart, by simp [hvoid]⟩

theorem withoutBlanks_withoutBlanks (v : Value) :
    v.withoutBlanks.withoutBlanks = v.withoutBlanks := by
  induction v using treeInduction with
  | list items separator ih =>
    have hkept : ∀ item ∈ itemsWithoutBlanks items, (!item.isBlank) = true := by
      rw [itemsWithoutBlanks_eq, List.forall_mem_map]
      intro item hitem
      rw [isBlank_withoutBlanks]
      exact (List.mem_filter.1 hitem).2
    rw [withoutBlanks, withoutBlanks, itemsWithoutBlanks_eq (itemsWithoutBlanks items),
      List.filter_eq_self.2 hkept, itemsWithoutBlanks_eq, List.map_map]
    exact congrArg (list · separator) (List.map_congr_left fun item hitem =>
      ih item (List.mem_filter.1 hitem).1)
  | map entries => rfl
  | leaf value hvalue => cases value <;> first | rfl | cases hvalue

end

end Value

-- ---------------------------------------------------------------------------
-- Printing
-- ---------------------------------------------------------------------------

namespace Formatter

mutual

def joined (f : Formatter) : Value → String
  | .list items separator => String.intercalate (f.separator separator) (f.joinedItems items)
  | value => (f.scalar? value).getD ""

def joinedItems (f : Formatter) : List Value → List String
  | [] => []
  | item :: items => f.joined item :: f.joinedItems items

end

def refusal (f : Formatter) : Value → EmitError
  | .error message => .errorValue message
  | value => .invalidValue (f.inspect value)

/-- The text of a value in which nothing is unprintable, unless it is blank. -/
def text? (f : Formatter) (v : Value) : Option String :=
  if v.isBlank then none else some (f.joined v.withoutBlanks)

def joinParts (f : Formatter) (separator : Separator) : List String → Option String
  | [] => none
  | parts => some (String.intercalate (f.separator separator) parts)

section
variable {f : Formatter}

theorem joinedItems_eq (items : List Value) : f.joinedItems items = items.map f.joined := by
  induction items with
  | nil => rfl
  | cons item items ih => rw [joinedItems, ih, List.map_cons]

theorem cssItems_eq (items : List Value) :
    f.cssItems items = do return (← items.mapM f.css).filterMap id := by
  induction items with
  | nil => rfl
  | cons item items ih =>
    rw [cssItems, ih, List.mapM_cons]
    simp only [bind_assoc, pure_bind]
    refine congrArg (f.css item >>= ·) (funext fun first => ?_)
    cases first <;> rfl

theorem css_list (items : List Value) (separator : Separator) :
    f.css (.list items separator) =
      do return f.joinParts separator ((← items.mapM f.css).filterMap id) := by
  rw [css, cssItems_eq]
  cases items.mapM f.css with
  | error e => rfl
  | ok parts =>
    rw [ok_bind, pure_bind, ok_bind]
    cases parts.filterMap id <;> rfl

/-- The printing of a value fails as the first part that is unprintable. -/
theorem css_fails (v : Value) :
    FailsByFirst Value.isUnprintable f.refusal v.reached (f.css v) := by
  induction v using Value.treeInduction with
  | list items separator ih =>
    cases items with
    | nil => exact .cons rfl (.nil _)
    | cons item items =>
      rw [css_list, Value.reached_list (List.cons_ne_nil _ _)]
      exact (FailsByFirst.mapM ih).map
  | map entries => exact .head rfl
  | leaf value hvalue =>
    cases value with
    | error message => exact .head rfl
    | list items separator => cases hvalue
    | map entries => cases hvalue
    | _ => exact .cons rfl (.nil _)

theorem filterMap_text? (items : List Value) :
    (items.map f.text?).filterMap id = f.joinedItems (Value.itemsWithoutBlanks items) := by
  induction items with
  | nil => rfl
  | cons item items ih =>
    rw [List.map_cons, text?, Value.itemsWithoutBlanks]
    split
    · exact ih
    · exact congrArg (f.joined item.withoutBlanks :: ·) ih

theorem joinParts_of_ne_nil {separator : Separator} {parts : List String} (h : parts ≠ []) :
    f.joinParts separator parts = some (String.intercalate (f.separator separator) parts) := by
  cases parts with
  | nil => exact absurd rfl h
  | cons part parts => rfl

/-- What is left of a value is printed as it is. -/
theorem css_printable {v : Value} (h : ∀ part ∈ v.reached, part.isUnprintable = false) :
    f.css v = .ok (f.text? v) := by
  induction v using Value.treeInduction with
  | list items separator ih =>
    have hitems : items.mapM f.css = .ok (items.map f.text?) := by
      rw [mapM_ok, List.forall₂_map_right_iff, List.forall₂_same]
      exact fun item hitem => ih item hitem fun part hpart =>
        h part (Value.mem_reached_list hitem hpart)
    rw [css_list, hitems, ok_bind, filterMap_text?, text?]
    split
    · rename_i hblank
      rw [Value.itemsWithoutBlanks_eq_nil.2 hblank]
      rfl
    · rename_i hblank
      have hkept : f.joinedItems (Value.itemsWithoutBlanks items) ≠ [] := by
        rw [joinedItems_eq, Ne, List.map_eq_nil_iff]
        exact Value.itemsWithoutBlanks_eq_nil.not.2 hblank
      rw [joinParts_of_ne_nil hkept]
      rfl
  | map entries => exact nomatch h _ (List.mem_singleton_self _)
  | leaf value hvalue =>
    cases value with
    | error message => exact nomatch h _ (List.mem_singleton_self _)
    | list items separator => cases hvalue
    | map entries => cases hvalue
    | _ => rfl

section
variable {v : Value}

theorem css_ok {text : Option String} :
    f.css v = .ok text ↔
      (∀ part ∈ v.reached, part.isUnprintable = false) ∧ f.text? v = text := by
  constructor
  · intro h
    have hfind := (f.css_fails v).exists_ok_iff.1 ⟨text, h⟩
    rw [Option.map_eq_none_iff, List.find?_eq_none] at hfind
    have hparts : ∀ part ∈ v.reached, part.isUnprintable = false := fun part hpart =>
      Bool.eq_false_iff.2 (hfind part hpart)
    rw [css_printable hparts] at h
    exact ⟨hparts, Except.ok.inj h⟩
  · rintro ⟨hparts, rfl⟩
    exact css_printable hparts

theorem text?_none : f.text? v = none ↔ ∀ part ∈ v.reached, part.isVoid = true := by
  simp [text?, Value.isBlank]

theorem text?_some {text : String} :
    f.text? v = some text ↔
      (∃ part ∈ v.reached, part.isVoid = false) ∧ f.joined v.withoutBlanks = text := by
  rw [← Value.isBlank_eq_false, text?]
  split <;> simp [*]

-- ---------------------------------------------------------------------------
-- Declaration values
-- ---------------------------------------------------------------------------

theorem value_of_ne (h : ¬ ∃ separator, v = .list [] separator) : f.value v = f.css v := by
  unfold value
  split
  · exact absurd ⟨_, rfl⟩ h
  · rfl

theorem value_error {e : EmitError} :
    f.value v = .error e ↔ (∃ separator, v = .list [] separator) ∧ e = .invalidValue "()" ∨
      (v.reached.find? Value.isUnprintable).map f.refusal = some e := by
  by_cases h : ∃ separator, v = .list [] separator
  · obtain ⟨separator, rfl⟩ := h
    have hnone : ((Value.list [] separator).reached.find? Value.isUnprintable).map f.refusal =
        none := rfl
    rw [hnone, value, Except.error.injEq]
    simp [eq_comm]
  · rw [value_of_ne h, css_fails v e]
    simp [h]

theorem isUnprintable_eq_false_of_isVoid {part : Value} (h : part.isVoid = true) :
    part.isUnprintable = false := by
  cases part <;> first | rfl | cases h

theorem value_none :
    f.value v = .ok none ↔
      (¬ ∃ separator, v = .list [] separator) ∧ ∀ part ∈ v.reached, part.isVoid = true := by
  by_cases h : ∃ separator, v = .list [] separator
  · obtain ⟨separator, rfl⟩ := h
    simp [value]
  · rw [value_of_ne h, css_ok, text?_none, and_iff_right h, and_iff_right_iff_imp]
    exact fun hvoid part hpart => isUnprintable_eq_false_of_isVoid (hvoid part hpart)

theorem value_some {text : String} :
    f.value v = .ok (some text) ↔ (∀ part ∈ v.reached, part.isUnprintable = false) ∧
      (∃ part ∈ v.reached, part.isVoid = false) ∧ f.joined v.withoutBlanks = text := by
  by_cases h : ∃ separator, v = .list [] separator
  · obtain ⟨separator, rfl⟩ := h
    simp [value, Value.reached, Value.isVoid]
  · rw [value_of_ne h, css_ok, text?_some]

theorem fails_value :
    Fails (f.value v) ↔
      (∃ separator, v = .list [] separator) ∨ ∃ part ∈ v.reached, part.isUnprintable = true := by
  rw [← List.find?_isSome, ← Option.isSome_map (f := f.refusal), Option.isSome_iff_exists, Fails]
  simp only [value_error, exists_or, exists_and_left, exists_eq, and_true]

theorem value_withoutBlanks {text : String} :
    f.value v.withoutBlanks = .ok (some text) ↔ f.value v = .ok (some text) := by
  have hparts : (∃ part ∈ v.reached, part.isVoid = false) →
      ((∀ part ∈ v.withoutBlanks.reached, part.isUnprintable = false) ↔
        ∀ part ∈ v.reached, part.isUnprintable = false) := by
    intro h
    rw [Value.reached_withoutBlanks (Value.isBlank_eq_false.2 h)]
    refine ⟨fun hall part hpart => ?_, fun hall part hpart => hall part (List.mem_filter.1 hpart).1⟩
    cases hvoid : part.isVoid with
    | true => exact isUnprintable_eq_false_of_isVoid hvoid
    | false => exact hall part (List.mem_filter.2 ⟨hpart, by simp [hvoid]⟩)
  rw [value_some, value_some, ← Value.isBlank_eq_false, ← Value.isBlank_eq_false,
    Value.isBlank_withoutBlanks, Value.withoutBlanks_withoutBlanks, Value.isBlank_eq_false]
  exact and_congr_left fun h => hparts h.1

end

end

/-- The value of a declaration is refused if it is the empty list or if something unprintable is
reached in it, and the first such part is to blame. Otherwise it has no text if it is blank, and
else the text of what is left of it without what is blank. -/
theorem value_exact (f : Formatter) (v : Value) :
    (Fails (f.value v) ↔
      (∃ separator, v = .list [] separator) ∨ ∃ part ∈ v.reached, part.isUnprintable = true) ∧
    (∀ e, f.value v = .error e ↔
      (∃ separator, v = .list [] separator) ∧ e = .invalidValue "()" ∨
        (v.reached.find? Value.isUnprintable).map f.refusal = some e) ∧
    (f.value v = .ok none ↔
      (¬ ∃ separator, v = .list [] separator) ∧ ∀ part ∈ v.reached, part.isVoid = true) ∧
    (∀ text, f.value v = .ok (some text) ↔
      (∀ part ∈ v.reached, part.isUnprintable = false) ∧
        (∃ part ∈ v.reached, part.isVoid = false) ∧ f.joined v.withoutBlanks = text) ∧
    ∀ text, f.value v.withoutBlanks = .ok (some text) ↔ f.value v = .ok (some text) :=
  ⟨fails_value, fun _ => value_error, value_none, fun _ => value_some, fun _ => value_withoutBlanks⟩

end Formatter

end HostSheet
