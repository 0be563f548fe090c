import HostSheet.Proofs.Sheet.Reading
import HostSheet.Proofs.Sheet.Tree
import HostSheet.Sheet.Parse

/-!
# Levels of what is read

A level of parentheses can add two levels to an expression: the group is a comma list or a map, and
its items are space lists. So an expression has at most twice as many levels as groups and calls may
nest, and its literals are scalars and empty lists.
-/

namespace HostSheet

open Grammar

-- ---------------------------------------------------------------------------
-- Expressions of so many levels
-- ---------------------------------------------------------------------------

def Value.IsLiteral (value : Value) : Prop :=
  value.isScalar = true ∨ value = .emptyList

def Expr.Fits {p : Type} (n : Nat) (e : Expr p) : Prop :=
  e.height ≤ n ∧ ∀ value ∈ e.literals, value.IsLiteral

namespace Expr

variable {p : Type} {n m : Nat}

theorem Fits.mono {e : Expr p} (h : e.Fits n) (hnm : n ≤ m) : e.Fits m :=
  ⟨Nat.le_trans h.1 hnm, h.2⟩

theorem fits_literal {value : Value} : (literal value : Expr p).Fits n ↔ value.IsLiteral := by
  simp [Fits, height, literals]

theorem fits_items {items : List (Expr p)} (h : ∀ item ∈ items, item.Fits n) :
    itemsHeight items ≤ n + 1 ∧ ∀ value ∈ itemsLiterals items, value.IsLiteral := by
  refine ⟨itemsHeight_le.2 fun item hi => Nat.succ_le_succ (h item hi).1, ?_⟩
  rw [itemsLiterals_eq, List.forall_mem_flatMap]
  exact fun item hi => (h item hi).2

theorem fits_list {items : List (Expr p)} {separator : Separator}
    (h : ∀ item ∈ items, item.Fits n) : (list items separator).Fits (n + 1) :=
  fits_items h

theorem fits_call {name : String} {args : List (Expr p)} {place : p}
    (h : ∀ arg ∈ args, arg.Fits n) : (call name args place).Fits (n + 1) :=
  fits_items h

theorem fits_map {entries : List (Expr p × Expr p)}
    (h : ∀ entry ∈ entries, entry.1.Fits n ∧ entry.2.Fits n) : (map entries).Fits (n + 1) := by
  constructor
  · refine entriesHeight_le.2 fun entry he => ?_
    exact ⟨Nat.succ_le_succ (h entry he).1.1, Nat.succ_le_succ (h entry he).2.1⟩
  · rw [literals, entriesLiterals_eq, List.forall_mem_flatMap]
    intro entry he
    exact List.forall_mem_append.2 ⟨(h entry he).1.2, (h entry he).2.2⟩

theorem fits_collapse {items : List (Expr p)} {separator : Separator}
    (h : ∀ item ∈ items, item.Fits n) : (collapse items separator).Fits (n + 1) := by
  unfold collapse
  split
  · exact (h _ (List.mem_singleton_self _)).mono (Nat.le_succ n)
  · exact fits_list h

theorem fits_mapPlaces {q : Type} {f : p → q} {e : Expr p} :
    (e.mapPlaces f).Fits n ↔ e.Fits n := by
  rw [Fits, height_mapPlaces, literals_mapPlaces, Fits]

end Expr

theorem fits_commaExpr {n : Nat} {first : RawExpr} {items : Option (List RawExpr)}
    (hfirst : first.Fits n) (h : ∀ item ∈ items.getD [], item.Fits n) :
    (commaExpr first items).Fits (n + 1) := by
  cases items with
  | none => exact hfirst.mono (Nat.le_succ n)
  | some items => exact Expr.fits_list (List.forall_mem_cons.2 ⟨hfirst, h⟩)

section
variable {name : String} {args : List RawExpr} {place : List Char}

theorem collapse_eq_call {first : RawExpr} {items : List RawExpr} {separator : Separator}
    (h : Expr.collapse (first :: items) separator = .call name args place) :
    first = .call name args place := by
  cases items with
  | nil => exact h
  | cons => cases h

theorem commaExpr_eq_call {first : RawExpr} {items : Option (List RawExpr)}
    (h : commaExpr first items = .call name args place) : first = .call name args place := by
  cases items with
  | none => exact h
  | some => cases h

end

-- ---------------------------------------------------------------------------
-- Literals
-- ---------------------------------------------------------------------------

theorem isLiteral_readNumber {s rest : List Char} {value : Value}
    (h : readNumber.Reads s value rest) : value.IsLiteral := by
  obtain ⟨_, h⟩ := h
  rw [readNumber] at h
  split at h <;> cases h
  exact .inl rfl

theorem isLiteral_readColor {s rest : List Char} {value : Value}
    (h : readColor.Reads s value rest) : value.IsLiteral := by
  obtain ⟨_, h⟩ := h
  unfold readColor at h
  split at h
  · cases h
  split at h
  · cases h
  split at h <;> cases h
  exact .inl rfl

theorem isLiteral_readQuoted {s rest : List Char} {value : Value}
    (h : readQuoted.Reads s value rest) : value.IsLiteral := by
  obtain ⟨_, h⟩ := h
  unfold readQuoted at h
  split at h
  · cases h
  split at h <;> cases h
  exact .inl rfl

theorem isLiteral_nameValue (name : String) : (nameValue name).IsLiteral := by
  unfold nameValue
  split
  · exact .inl rfl
  split
  · exact .inl rfl
  split <;> exact .inl rfl

-- ---------------------------------------------------------------------------
-- Levels of each grammar
-- ---------------------------------------------------------------------------

namespace Grammar

section
variable {Item : Form RawExpr} {P : RawExpr → Prop} {s rest : List Char}

theorem SpaceItems.forall_mem (hP : ∀ s e rest, Item s e rest → P e) {es : List RawExpr}
    (h : SpaceItems Item s es rest) : ∀ e ∈ es, P e := by
  induction h with
  | nil => simp
  | cons _ _ hfirst _ ih => exact List.forall_mem_cons.2 ⟨hP _ _ _ hfirst, ih⟩

theorem CommaItems.forall_mem {atEnd : List Char → Bool} (hP : ∀ s e rest, Item s e rest → P e)
    {es : Option (List RawExpr)} (h : CommaItems Item atEnd s es rest) : ∀ e ∈ es.getD [], P e := by
  induction h with
  | none => simp
  | last => simp
  | cons _ _ _ hfirst _ ih => exact List.forall_mem_cons.2 ⟨hP _ _ _ hfirst, ih⟩

theorem MapItems.forall_mem (hP : ∀ s e rest, Item s e rest → P e)
    {entries : List (RawExpr × RawExpr)} (h : MapItems Item s entries rest) :
    ∀ entry ∈ entries, P entry.1 ∧ P entry.2 := by
  induction h with
  | none => simp
  | last => simp
  | cons _ _ _ hkey hvalue _ ih =>
    obtain ⟨_, _, hvalue⟩ := hvalue
    exact List.forall_mem_cons.2 ⟨⟨hP _ _ _ hkey, hP _ _ _ hvalue⟩, ih⟩

theorem ArgumentItems.forall_mem (hP : ∀ s e rest, Item s e rest → P e) {es : List RawExpr}
    (h : ArgumentItems Item s es rest) : ∀ e ∈ es, P e := by
  induction h with
  | nil => simp
  | last _ _ hfirst _ => exact List.forall_mem_singleton.2 (hP _ _ _ hfirst)
  | cons _ _ hfirst _ _ ih => exact List.forall_mem_cons.2 ⟨hP _ _ _ hfirst, ih⟩

end

section
variable {Item : Form RawExpr} {n : Nat} {s rest : List Char} {e : RawExpr}

theorem SpaceList.fits (hItem : ∀ s e rest, Item s e rest → e.Fits n)
    (h : SpaceList Item s e rest) : e.Fits (n + 1) := by
  obtain ⟨_, hfirst, hmore⟩ := h
  exact Expr.fits_collapse (List.forall_mem_cons.2 ⟨hItem _ _ _ hfirst, hmore.forall_mem hItem⟩)

theorem GroupRest.fits (hItem : ∀ s e rest, Item s e rest → e.Fits n) {first : RawExpr}
    (hfirst : first.Fits n) (h : GroupRest Item first s e rest) : e.Fits (n + 1) := by
  cases h with
  | map _ hvalue hmore =>
    obtain ⟨_, _, hvalue⟩ := hvalue
    refine Expr.fits_map (List.forall_mem_cons.2 ⟨⟨hfirst, hItem _ _ _ hvalue⟩, ?_⟩)
    exact hmore.forall_mem hItem
  | list _ _ hmore => exact fits_commaExpr hfirst (hmore.forall_mem hItem)

theorem Group.fits (hItem : ∀ s e rest, Item s e rest → e.Fits n) (h : Group Item s e rest) :
    e.Fits (n + 1) := by
  cases h with
  | empty => exact Expr.fits_literal.2 (.inr rfl)
  | full _ _ hfirst hinside => exact hinside.fits hItem (hItem _ _ _ hfirst)

theorem PrimaryOf.fits {Grp : Form RawExpr} {Args : Form (List RawExpr)}
    (hGrp : ∀ s e rest, Grp s e rest → e.Fits n)
    (hArgs : ∀ s es rest, Args s es rest → ∀ name place, (Expr.call name es place).Fits n)
    (h : PrimaryOf Grp Args s e rest) : e.Fits n := by
  cases h with
  | group h => exact hGrp _ _ _ h
  | color h => exact Expr.fits_literal.2 (isLiteral_readColor h)
  | quoted _ h => exact Expr.fits_literal.2 (isLiteral_readQuoted h)
  | number _ h => exact Expr.fits_literal.2 (isLiteral_readNumber h)
  | name _ _ h =>
    cases h with
    | name => exact Expr.fits_literal.2 (isLiteral_nameValue _)
    | call _ _ hargs => exact hArgs _ _ _ hargs _ _

/-- A group adds a level of its own and one for the space lists in it. -/
theorem Primary.fits {levels : Nat} (h : Primary levels s e rest) : e.Fits (2 * levels) := by
  induction levels generalizing s e rest with
  | zero => exact PrimaryOf.fits (fun _ _ _ => False.elim) (fun _ _ _ => False.elim) h
  | succ levels ih =>
    have items : ∀ s e rest, SpaceList (Primary levels) s e rest → e.Fits (2 * levels + 1) :=
      fun _ _ _ h => h.fits fun _ _ _ => ih
    refine PrimaryOf.fits (fun _ _ _ h => h.fits items) ?_ h
    rintro _ _ _ ⟨hargs⟩ name place
    exact Expr.fits_call (hargs.forall_mem items)

theorem CommaList.call_inv {name : String} {args : List RawExpr} {place : List Char}
    (h : CommaList Item s e rest) (he : e = .call name args place) :
    ∃ rest', Item s (.call name args place) rest' := by
  obtain ⟨hfirst, _⟩ := h
  have hlist := commaExpr_eq_call he
  obtain ⟨_, hitem, _⟩ := hfirst
  rw [collapse_eq_call hlist] at hitem
  exact ⟨_, hitem⟩

end

end Grammar

-- ---------------------------------------------------------------------------
-- Whole values
-- ---------------------------------------------------------------------------

theorem readWhole_ok {s : List Char} {e : RawExpr} :
    readWhole s = .ok e ↔ ∃ s' rest, Trivia s s' ∧
      CommaList (Primary maxNesting) s' e rest ∧ Trivia rest [] := by
  rw [← reads_readValue]
  constructor
  · intro h
    obtain ⟨blank, hblank, h⟩ := bind_ok.1 h
    obtain ⟨value, hvalue, h⟩ := bind_ok.1 h
    obtain ⟨blank', hblank', h⟩ := bind_ok.1 h
    split at h
    · rename_i hend
      cases h
      exact ⟨_, _, ⟨_, hblank⟩, ⟨_, hvalue⟩, hend ▸ ⟨_, hblank'⟩⟩
    · cases h
  · rintro ⟨s', rest, ⟨_, hblank⟩, ⟨_, hvalue⟩, ⟨_, hblank'⟩⟩
    rw [readWhole, hblank, ok_bind, hvalue, ok_bind, hblank']
    rfl

theorem Expr.parse_ok {source : String} {e : Expr Location} :
    Expr.parse source = .ok e ↔
      ∃ raw, readWhole source.toList = .ok raw ∧ raw.mapPlaces (placeIn source.toList) = e := by
  rw [Expr.parse]
  cases readWhole source.toList <;> simp

theorem fits_argument {source name : String} {e : Expr Location} {place : Location}
    (h : Expr.parse source = .ok (.call name [e] place)) : e.Fits (2 * maxNesting - 1) := by
  obtain ⟨raw, hraw, he⟩ := Expr.parse_ok.1 h
  obtain ⟨_, _, _, hvalue, _⟩ := readWhole_ok.1 hraw
  cases raw with
  | call name' args place' =>
    obtain ⟨_, hprimary⟩ := hvalue.call_inv rfl
    have hcall : (Expr.call name [e] place).Fits (2 * maxNesting) :=
      he ▸ Expr.fits_mapPlaces.2 hprimary.fits
    constructor
    · have := Expr.itemsHeight_le.1 hcall.1 e (List.mem_singleton_self e)
      exact Nat.le_sub_one_of_lt this
    · intro value hv
      refine hcall.2 value ?_
      rw [Expr.literals, Expr.itemsLiterals_eq, List.flatMap_singleton]
      exact hv
  | _ => cases he

end HostSheet
