import HostSheet.Proofs.Decimal.Nearest
import HostSheet.Proofs.Sheet.Commas
import HostSheet.Proofs.Sheet.Everywhere

/-!
# Well-formed sheets

What is read from a sheet is well formed, and what works on a sheet relies on that: no rule is
without a selector, no list or map without items, and no literal is a value that only the host can
make.
-/

namespace HostSheet

open Grammar

-- ---------------------------------------------------------------------------
-- Literals
-- ---------------------------------------------------------------------------

inductive Value.WellFormed : Value → Prop
  | null : WellFormed .null
  | bool (b : Bool) : WellFormed (.bool b)
  | number {n : Number} : n.magnitude.isNaN = false → IsUnit n.unit → WellFormed (.number n)
  | quoted (text : String) : WellFormed (.string text true)
  | name {text : String} : isIdentifier text.toList = true → text ∉ ["null", "true", "false"] →
      WellFormed (.string text false)
  | color {c : Color} : 0 ≤ c.alpha → c.alpha ≤ 1 → WellFormed (.color c)
  | emptyList : WellFormed .emptyList

section
variable {s rest : List Char} {value : Value}

theorem isIdentifier_of_readName {c : Char} {name : String}
    (hc : isNameStart c = true ∨ c = '-') (h : readName.Reads (c :: s) name rest) :
    isIdentifier name.toList = true := by
  obtain ⟨cs, ⟨d, ds, rfl, hhyphen, hds⟩, -, hs, rfl⟩ := reads_readName.1 h
  obtain rfl : c = d := (List.cons.inj hs).1
  have hstart : isNameStart c = true ∨ c = '-' ∧ startsAfterHyphen ds = true :=
    hc.imp_right fun hc => ⟨hc, hhyphen hc⟩
  simpa [isIdentifier] using ⟨hstart, hds⟩

theorem wellFormed_nameValue {name : String} (h : isIdentifier name.toList = true) :
    (nameValue name).WellFormed := by
  unfold nameValue
  split
  · exact .null
  split
  · exact .bool true
  split
  · exact .bool false
  · exact .name h (by simp [*])

theorem wellFormed_readNumber (h : readNumber.Reads s value rest) : value.WellFormed := by
  obtain ⟨t, ht, -, -, rfl⟩ := reads_readNumber.1 h
  refine .number (Decimal.isNaN_nearest ..) (ht.unit.imp (fun hunit => ?_) fun hunit => ?_)
  · exact congrArg String.ofList hunit
  · simpa [NumberText.number] using hunit

theorem wellFormed_readQuoted {quote : Char} (hquote : quote = '"' ∨ quote = '\'')
    (h : readQuoted.Reads (quote :: s) value rest) : value.WellFormed := by
  obtain ⟨body, text, -, -, rfl⟩ := (reads_readQuoted hquote).1 h
  exact .quoted _

theorem Alpha.ofStep_ofNat_between :
    ∀ n : Fin 256, 0 ≤ Alpha.ofStep (UInt8.ofNat n) ∧ Alpha.ofStep (UInt8.ofNat n) ≤ 1 := by
  decide +kernel

theorem Alpha.ofStep_between (step : UInt8) : 0 ≤ Alpha.ofStep step ∧ Alpha.ofStep step ≤ 1 := by
  have h := Alpha.ofStep_ofNat_between ⟨step.toNat, step.toNat_lt⟩
  rwa [UInt8.ofNat_toNat] at h

theorem hexColor?_alpha {digits : List Char} {color : Color} (h : hexColor? digits = some color) :
    0 ≤ color.alpha ∧ color.alpha ≤ 1 := by
  have hone : (0 : Float) ≤ 1 ∧ (1 : Float) ≤ 1 := by decide +kernel
  unfold hexColor? at h
  split at h
  · cases h
    exact hone
  · cases h
    exact hone
  · cases h
    exact Alpha.ofStep_between _
  · cases h

theorem wellFormed_readColor {c : Char} (h : readColor.Reads (c :: s) value rest) :
    value.WellFormed := by
  obtain ⟨ds, color, -, hcolor, -, -, rfl⟩ := reads_readColor.1 h
  exact .color (hexColor?_alpha hcolor).1 (hexColor?_alpha hcolor).2

end

-- ---------------------------------------------------------------------------
-- Expressions
-- ---------------------------------------------------------------------------

/-- A list has an item, and a list by blanks two of them; a map has an entry; what is called has a
name. -/
inductive Expr.WellFormed {p : Type} : Expr p → Prop
  | literal {value : Value} : value.WellFormed → WellFormed (.literal value)
  | list {items : List (Expr p)} {separator : Separator} : items ≠ [] →
      (separator = .space → 2 ≤ items.length) → (∀ item ∈ items, item.WellFormed) →
      WellFormed (.list items separator)
  | map {entries : List (Expr p × Expr p)} : entries ≠ [] →
      (∀ entry ∈ entries, entry.1.WellFormed) → (∀ entry ∈ entries, entry.2.WellFormed) →
      WellFormed (.map entries)
  | call {name : String} {args : List (Expr p)} {place : p} :
      isIdentifier name.toList = true → (∀ arg ∈ args, arg.WellFormed) →
      WellFormed (.call name args place)

theorem Expr.WellFormed.mapPlaces {p q : Type} {e : Expr p} (h : e.WellFormed) (f : p → q) :
    (e.mapPlaces f).WellFormed := by
  induction h with
  | literal hvalue => exact .literal hvalue
  | list hne hspace _ ih =>
    rw [Expr.mapPlaces, mapPlacesItems_eq]
    exact .list (by simpa using hne) (by simpa using hspace) (List.forall_mem_map.2 ih)
  | map hne _ _ ihkey ihvalue =>
    rw [Expr.mapPlaces, mapPlacesEntries_eq]
    exact .map (by simpa using hne) (List.forall_mem_map.2 ihkey) (List.forall_mem_map.2 ihvalue)
  | call hname _ ih =>
    rw [Expr.mapPlaces, mapPlacesItems_eq]
    exact .call hname (List.forall_mem_map.2 ih)

-- ---------------------------------------------------------------------------
-- Expressions that are read
-- ---------------------------------------------------------------------------

namespace Grammar

/-- An expression has the property if its parts have it, whatever it is read from. -/
structure Hereditary (P : RawExpr → Prop) : Prop where
  literal : ∀ {value : Value}, value.WellFormed → P (.literal value)
  list : ∀ {items : List RawExpr} {separator : Separator}, items ≠ [] →
    (separator = .space → 2 ≤ items.length) → (∀ item ∈ items, P item) →
    P (.list items separator)
  map : ∀ {entries : List (RawExpr × RawExpr)}, entries ≠ [] →
    (∀ entry ∈ entries, P entry.1 ∧ P entry.2) → P (.map entries)
  call : ∀ {name : String} {args : List RawExpr} {place : List Char},
    isIdentifier name.toList = true → (name ++ "(").toList <+: place → (∀ arg ∈ args, P arg) →
    P (.call name args place)

theorem opening_of_readName {name : String} {s s' : List Char} (h : readName.Reads s name s')
    (hopen : s'.head? = some '(') : (name ++ "(").toList <+: s := by
  obtain ⟨cs, -, -, rfl, rfl⟩ := reads_readName.1 h
  obtain ⟨t, rfl⟩ := List.head?_eq_some_iff.1 hopen
  exact ⟨t, by simp⟩

section
variable {P : RawExpr → Prop} (hP : Hereditary P) {s rest : List Char} {e : RawExpr}
include hP

theorem Hereditary.collapse {items : List RawExpr} (hne : items ≠ [])
    (h : ∀ item ∈ items, P item) (separator : Separator) : P (Expr.collapse items separator) := by
  cases items with
  | nil => exact absurd rfl hne
  | cons first more =>
    cases more with
    | nil => exact h first List.mem_cons_self
    | cons second more => exact hP.list hne (fun _ => by simp) h

theorem Hereditary.commaExpr {first : RawExpr} {items : Option (List RawExpr)} (hfirst : P first)
    (h : ∀ item ∈ items.getD [], P item) : P (commaExpr first items) := by
  cases items with
  | none => exact hfirst
  | some items => exact hP.list (List.cons_ne_nil _ _) nofun (List.forall_mem_cons.2 ⟨hfirst, h⟩)

section
variable {Item : Form RawExpr} (hItem : ∀ s e rest, Item s e rest → P e)
include hItem

theorem SpaceList.inherits (h : SpaceList Item s e rest) : P e := by
  obtain ⟨-, hfirst, hmore⟩ := h
  refine hP.collapse (List.cons_ne_nil _ _) ?_ .space
  exact List.forall_mem_cons.2 ⟨hItem _ _ _ hfirst, hmore.forall_mem hItem⟩

theorem CommaList.inherits (h : CommaList Item s e rest) : P e := by
  obtain ⟨hfirst, hmore⟩ := h
  have hlist : ∀ s e rest, SpaceList Item s e rest → P e := fun _ _ _ h =>
    SpaceList.inherits hP hItem h
  exact hP.commaExpr (hlist _ _ _ hfirst) (hmore.forall_mem hlist)

theorem GroupRest.inherits {first : RawExpr} (hfirst : P first)
    (h : GroupRest Item first s e rest) : P e := by
  cases h with
  | map _ hvalue hmore =>
    obtain ⟨-, -, hvalue⟩ := hvalue
    refine hP.map (List.cons_ne_nil _ _) (List.forall_mem_cons.2 ⟨?_, hmore.forall_mem hItem⟩)
    exact ⟨hfirst, hItem _ _ _ hvalue⟩
  | list _ _ hmore => exact hP.commaExpr hfirst (hmore.forall_mem hItem)

theorem Group.inherits (h : Group Item s e rest) : P e := by
  cases h with
  | empty => exact hP.literal .emptyList
  | full _ _ hfirst hinside => exact hinside.inherits hP hItem (hItem _ _ _ hfirst)

end

theorem PrimaryOf.inherits {Grp : Form RawExpr} {Args : Form (List RawExpr)}
    (hGrp : ∀ s e rest, Grp s e rest → P e)
    (hArgs : ∀ s es rest, Args s es rest → ∀ e ∈ es, P e) (h : PrimaryOf Grp Args s e rest) :
    P e := by
  cases h with
  | group h => exact hGrp _ _ _ h
  | color h => exact hP.literal (wellFormed_readColor h)
  | quoted hquote h => exact hP.literal (wellFormed_readQuoted hquote h)
  | number _ h => exact hP.literal (wellFormed_readNumber h)
  | name _ hc h =>
    cases h with
    | name hname _ =>
      exact hP.literal (wellFormed_nameValue (isIdentifier_of_readName hc hname))
    | call hname hopen hargs =>
      exact hP.call (isIdentifier_of_readName hc hname) (opening_of_readName hname hopen)
        (hArgs _ _ _ hargs)

theorem Primary.inherits {levels : Nat} (h : Primary levels s e rest) : P e := by
  induction levels generalizing s e rest with
  | zero => exact PrimaryOf.inherits hP (fun _ _ _ => False.elim) (fun _ _ _ => False.elim) h
  | succ levels ih =>
    have hitem : ∀ s e rest, SpaceList (Primary levels) s e rest → P e := fun _ _ _ h =>
      SpaceList.inherits hP (fun _ _ _ => ih) h
    refine PrimaryOf.inherits hP (fun _ _ _ => Group.inherits hP hitem) ?_ h
    rintro _ _ _ ⟨hargs⟩
    exact hargs.forall_mem hitem

/-- Every value that is read has what an expression has if its parts have it. -/
theorem Hereditary.of_value {levels : Nat} (h : CommaList (Primary levels) s e rest) : P e :=
  CommaList.inherits hP (fun _ _ _ => Primary.inherits hP) h

end

theorem hereditary_wellFormed : Hereditary Expr.WellFormed where
  literal := .literal
  list := .list
  map hne h := .map hne (fun entry he => (h entry he).1) fun entry he => (h entry he).2
  call hname _ h := .call hname h

end Grammar

-- ---------------------------------------------------------------------------
-- Rules
-- ---------------------------------------------------------------------------

/-- A rule has selectors with neither a blank in front nor behind, and its own declarations have a
property without blanks and a well-formed value. -/
structure Rule.WellFormed {p : Type} (rule : Rule p) : Prop where
  selected : rule.selectors ≠ []
  named : ∀ sel ∈ rule.selectors, sel ≠ ""
  bare : ∀ sel ∈ rule.selectors, ∀ c, sel.toList.head? = some c ∨ sel.toList.getLast? = some c →
    Text.isBlank c = false
  property : ∀ d, Item.declaration d ∈ rule.items →
    d.property ≠ "" ∧ ∀ c ∈ d.property.toList, Text.isBlank c = false
  value : ∀ d, Item.declaration d ∈ rule.items → d.value.WellFormed

theorem IsSelector.isBlank_eq_false {text : List Char} (h : IsSelector text) {c : Char}
    (hc : text.head? = some c ∨ text.getLast? = some c) : Text.isBlank c = false := by
  rw [← h.1] at hc
  rcases hc with hc | hc
  · exact Text.isBlank_head_joined (fun _ => Text.of_mem_words) hc
  · exact Text.isBlank_last_joined (fun _ => Text.of_mem_words) hc

theorem Rule.Written.wellFormed {r : RawRule} (h : r.Written) : r.WellFormed := by
  obtain ⟨text, us, rest, -, hselectors⟩ := h.heading
  refine ⟨h.selected, fun sel hsel => ?_, fun sel hsel c hc => ?_, fun d hd => ?_, fun d hd => ?_⟩
  · exact (isSelector_of_mem_selectorsOf (hselectors ▸ hsel)).1
  · exact (isSelector_of_mem_selectorsOf (hselectors ▸ hsel)).2.isBlank_eq_false hc
  · obtain ⟨levels, s, ts, rest, -, ⟨-, hproperty, -⟩⟩ := h.declared d hd
    simpa [IsProperty] using hproperty
  · obtain ⟨levels, s, ts, rest, -, ⟨-, -, -, hvalue, -⟩⟩ := h.declared d hd
    exact hereditary_wellFormed.of_value hvalue

theorem Rule.WellFormed.mapPlaces {p q : Type} {rule : Rule p} (h : rule.WellFormed) (f : p → q) :
    (rule.mapPlaces f).WellFormed := by
  have hdeclared : ∀ d, Item.declaration d ∈ (rule.mapPlaces f).items →
      ∃ old, Item.declaration old ∈ rule.items ∧ old.mapPlaces f = d := by
    intro d hd
    obtain ⟨item, hitem, hd⟩ := mem_items_mapPlaces.1 hd
    cases item with
    | rule r => cases hd
    | declaration old =>
      cases hd
      exact ⟨old, hitem, rfl⟩
  refine ⟨?_, ?_, ?_, fun d hd => ?_, fun d hd => ?_⟩
  · exact rule.selectors_mapPlaces f ▸ h.selected
  · exact rule.selectors_mapPlaces f ▸ h.named
  · exact rule.selectors_mapPlaces f ▸ h.bare
  · obtain ⟨old, hold, rfl⟩ := hdeclared d hd
    exact h.property old hold
  · obtain ⟨old, hold, rfl⟩ := hdeclared d hd
    exact (h.value old hold).mapPlaces f

-- ---------------------------------------------------------------------------
-- What is read
-- ---------------------------------------------------------------------------

/-- Every rule of a sheet that is read is well formed, whatever the depth at which it stands. -/
theorem Sheet.wellFormed_of_parse {source : String} {sheet : Sheet Location}
    (h : Sheet.parse source = .ok sheet) : ∀ rule ∈ sheet, rule.Each Rule.WellFormed :=
  Sheet.each_of_parse h fun _ hr _ => hr.wellFormed.mapPlaces _

/-- A rule in a rule, with two selectors, a call, a map and a list of one item. -/
theorem Sheet.wellFormed_of_parse_nested :
    ∃ sheet, Sheet.parse "a b,c\x7bd:e(1% #ffff0080 'g') (h: ());i\x7bj:k,\x7d\x7d" = .ok sheet ∧
      sheet.length = 1 ∧ ∀ rule ∈ sheet, rule.Each Rule.WellFormed := by
  have hone : ((Sheet.parse "a b,c\x7bd:e(1% #ffff0080 'g') (h: ());i\x7bj:k,\x7d\x7d").map
      List.length).toOption = some 1 := by
    decide +kernel
  cases h : Sheet.parse "a b,c\x7bd:e(1% #ffff0080 'g') (h: ());i\x7bj:k,\x7d\x7d" with
  | error e =>
    rw [h] at hone
    cases hone
  | ok sheet =>
    rw [h] at hone
    exact ⟨sheet, rfl, Option.some.inj hone, Sheet.wellFormed_of_parse h⟩

theorem Expr.WellFormed.of_parse {source : String} {e : Expr Location}
    (h : Expr.parse source = .ok e) : e.WellFormed := by
  obtain ⟨raw, hraw, rfl⟩ := Expr.parse_ok.1 h
  obtain ⟨_, _, -, hvalue, -⟩ := readWhole_ok.1 hraw
  exact (hereditary_wellFormed.of_value hvalue).mapPlaces _

end HostSheet
