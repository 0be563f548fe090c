import HostSheet.Proofs.Sheet.Levels
import HostSheet.Proofs.Sheet.Lexing
import HostSheet.Proofs.Sheet.Searching

/-!
# How a value is spelled

The tokens of a value tell more than that it can be passed over: its quoted strings are the string
tokens, one by one, and it needs as many levels as parentheses are open at once.
-/

namespace HostSheet

open Grammar

-- ---------------------------------------------------------------------------
-- Strings
-- ---------------------------------------------------------------------------

def Value.isQuoted : Value → Bool
  | .string _ true => true
  | _ => false

def Expr.strings {p : Type} (e : Expr p) : List Value :=
  e.literals.filter Value.isQuoted

def unescaped : List Char → List Char
  | '\\' :: c :: s => c :: unescaped s
  | c :: s => c :: unescaped s
  | [] => []

def Token.string? : Token → Option Value
  | .string _ body => some (.string (String.ofList (unescaped body)) true)
  | _ => none

section
variable {p : Type}

@[simp] theorem Expr.strings_list (items : List (Expr p)) (separator : Separator) :
    (list items separator).strings = items.flatMap strings := by
  rw [strings, literals, itemsLiterals_eq, List.filter_flatMap]
  rfl

@[simp] theorem Expr.strings_call (name : String) (args : List (Expr p)) (place : p) :
    (call name args place).strings = args.flatMap strings := by
  rw [strings, literals, itemsLiterals_eq, List.filter_flatMap]
  rfl

@[simp] theorem Expr.strings_map (entries : List (Expr p × Expr p)) :
    (map entries).strings = entries.flatMap fun entry => entry.1.strings ++ entry.2.strings := by
  simp [strings, literals, entriesLiterals_eq, List.filter_flatMap]

theorem Expr.strings_literal {value : Value} (h : value.isQuoted = false) :
    (literal value : Expr p).strings = [] := by
  simp [strings, literals, h]

theorem Expr.strings_collapse (items : List (Expr p)) (separator : Separator) :
    (collapse items separator).strings = items.flatMap strings := by
  unfold collapse
  split <;> simp

theorem Expr.strings_mapPlaces {q : Type} (f : p → q) (e : Expr p) :
    (e.mapPlaces f).strings = e.strings := by
  rw [strings, literals_mapPlaces, strings]

end

theorem strings_commaExpr (first : RawExpr) (more : Option (List RawExpr)) :
    (commaExpr first more).strings = first.strings ++ (more.getD []).flatMap Expr.strings := by
  cases more <;> simp [commaExpr]

theorem unescaped_of_quoted {quote : Char} {body text : List Char}
    (h : Grammar.Quoted quote body text) : unescaped body = text := by
  induction h with
  | nil => rfl
  | escape _ ih => rw [unescaped, ih]
  | char _ hslash _ _ ih =>
    rw [unescaped.eq_2 _ _ (by simp [hslash]), ih]

theorem isQuoted_nameValue (name : String) : (nameValue name).isQuoted = false := by
  unfold nameValue
  split
  · rfl
  split
  · rfl
  split <;> rfl

-- ---------------------------------------------------------------------------
-- Depths
-- ---------------------------------------------------------------------------

/-- How many parentheses are open at once at most, so many being open in front of the pieces. -/
def deepest : (depth : Nat) → List Piece → Nat
  | depth, [] => depth
  | depth, p :: ps => max depth (deepest (p.depthBehind depth) ps)

theorem le_deepest (depth : Nat) (ps : List Piece) : depth ≤ deepest depth ps := by
  cases ps with
  | nil => exact Nat.le_refl depth
  | cons p ps => exact Nat.le_max_left _ _

theorem deepest_cons_of_same {depth : Nat} {p : Piece} (h : p.depthBehind depth = depth)
    (ps : List Piece) : deepest depth (p :: ps) = deepest depth ps := by
  rw [deepest, h]
  exact Nat.max_eq_right (le_deepest depth ps)

theorem deepest_quotedPieces (depth : Nat) (body : List Char) (ps : List Piece) :
    deepest depth (quotedPieces body ++ ps) = deepest depth ps := by
  fun_induction quotedPieces body with
  | case1 c s ih => rw [List.cons_append, deepest_cons_of_same rfl, ih]
  | case2 c s _ ih => rw [List.cons_append, deepest_cons_of_same rfl, ih]
  | case3 => rfl

-- ---------------------------------------------------------------------------
-- Spelled texts
-- ---------------------------------------------------------------------------

/-- The text up to `rest` is a list of tokens with these strings, and `depth` of its parentheses are
open at once somewhere. -/
def Spelled (s : List Char) (strings : List Value) (depth : Nat) (rest : List Char) : Prop :=
  ∃ ts, Lexed s ts rest ∧ ts.filterMap Token.string? = strings ∧
    ∀ d ps, deepest d (ts.flatMap Token.pieces ++ ps) = max (d + depth) (deepest d ps)

namespace Spelled

variable {c : Char} {s s' rest : List Char} {xs ys : List Value} {m n : Nat}

theorem refl (s : List Char) : Spelled s [] 0 s :=
  ⟨[], .nil, rfl, fun d ps => (Nat.max_eq_right (le_deepest d ps)).symm⟩

theorem trans (h : Spelled s xs m s') (h' : Spelled s' ys n rest) :
    Spelled s (xs ++ ys) (max m n) rest := by
  obtain ⟨ts, hts, rfl, hdeep⟩ := h
  obtain ⟨us, hus, rfl, hdeep'⟩ := h'
  refine ⟨ts ++ us, hts.trans hus, List.filterMap_append, fun d ps => ?_⟩
  rw [List.flatMap_append, List.append_assoc, hdeep, hdeep']
  omega

theorem code (hc : isValueChar c = true) (h : Spelled s xs n rest) :
    Spelled (c :: s) xs n rest := by
  obtain ⟨ts, hts, rfl, hdeep⟩ := h
  obtain ⟨-, -, hopen, hclose⟩ := isValueChar_iff.1 hc
  refine ⟨.code c :: ts, .code hc hts, rfl, fun d ps => ?_⟩
  have hsame : Piece.depthBehind d (.code c) = d := parenDepth_of_ne hopen hclose
  exact (deepest_cons_of_same hsame _).trans (hdeep d ps)

theorem group (h : Spelled s xs n (')' :: rest)) : Spelled ('(' :: s) xs (n + 1) rest := by
  obtain ⟨ts, hts, rfl, hdeep⟩ := h
  have hstrings : (Token.code '(' :: ts ++ [Token.code ')']).filterMap Token.string? =
      ts.filterMap Token.string? := List.filterMap_append.trans (List.append_nil _)
  refine ⟨_, .group hts .nil, hstrings, fun d ps => ?_⟩
  have hinside := hdeep (d + 1) (.code ')' :: ps)
  have hclosed : deepest (d + 1) (.code ')' :: ps) = max (d + 1) (deepest d ps) := rfl
  have hopened : deepest d (.code '(' :: (ts.flatMap Token.pieces ++ .code ')' :: ps)) =
      max d (deepest (d + 1) (ts.flatMap Token.pieces ++ .code ')' :: ps)) := rfl
  have hle := le_deepest d ps
  simp only [List.cons_append, List.flatMap_cons, List.flatMap_append, Token.pieces,
    List.nil_append, List.append_assoc, List.flatMap_nil, hopened, hinside, hclosed]
  omega

theorem append {text : List Char} (h : ∀ c ∈ text, isValueChar c = true) (rest : List Char) :
    Spelled (text ++ rest) [] 0 rest := by
  induction text with
  | nil => exact refl rest
  | cons c text ih =>
    rw [List.forall_mem_cons] at h
    exact code h.1 (ih h.2)

end Spelled

theorem Trivia.spelled {s rest : List Char} (h : Trivia s rest) : Spelled s [] 0 rest := by
  induction h using Trivia.induction with
  | done => exact .refl rest
  | blank c s hc _ ih => exact .code (isValueChar_of_isBlank hc) ih
  | comment s s' hcomment _ ih =>
    obtain ⟨text, rfl⟩ := hcomment.exists_text
    obtain ⟨ts, hts, htold, hdeep⟩ := ih
    exact ⟨_, .comment hcomment hts, htold, fun d ps =>
      (deepest_cons_of_same rfl _).trans (hdeep d ps)⟩

theorem spelled_readQuoted {quote : Char} {s rest : List Char} {v : Value}
    (hquote : quote = '"' ∨ quote = '\'') (h : readQuoted.Reads (quote :: s) v rest) :
    Spelled (quote :: s) [v] 0 rest ∧ v.isQuoted = true := by
  obtain ⟨body, text, hbody, rfl, rfl⟩ := (reads_readQuoted hquote).1 h
  refine ⟨⟨_, .string hquote h .nil, ?_, fun d ps => ?_⟩, rfl⟩
  · simp [Token.string?, unescaped_of_quoted hbody]
  · have hle := le_deepest d ps
    simp only [List.flatMap_singleton, Token.pieces, List.cons_append, List.append_assoc]
    rw [deepest_cons_of_same rfl, deepest_quotedPieces, List.nil_append, deepest_cons_of_same rfl]
    omega

-- ---------------------------------------------------------------------------
-- Each form
-- ---------------------------------------------------------------------------

/-- What the form reads is spelled with the strings that are told of it, and read just so by the
form of any number of levels that is not below its depth. -/
def Form.Spells {α : Type} (told : α → List Value) (F : Form α) (G : Nat → Form α) : Prop :=
  ∀ ⦃s a rest⦄, F s a rest → ∃ n, Spelled s (told a) n rest ∧ ∀ m, n ≤ m → G m s a rest

namespace Grammar

section
variable {Item : Form RawExpr} {G : Nat → Form RawExpr} (hItem : Item.Spells Expr.strings G)
include hItem

theorem SpaceItems.spells :
    (SpaceItems Item).Spells (List.flatMap Expr.strings) fun m => SpaceItems (G m) := by
  intro s es rest h
  induction h with
  | nil hblank hend => exact ⟨0, hblank.spelled, fun m _ => .nil hblank hend⟩
  | cons hblank hend hfirst _ ih =>
    obtain ⟨n, hn, hfirst⟩ := hItem hfirst
    obtain ⟨k, hk, hmore⟩ := ih
    refine ⟨_, (hblank.spelled.trans hn).trans hk, fun m hm => ?_⟩
    exact .cons hblank hend (hfirst m (by omega)) (hmore m (by omega))

theorem SpaceList.spells :
    (SpaceList Item).Spells Expr.strings fun m => SpaceList (G m) := by
  rintro _ _ _ ⟨hstart, hfirst, hmore⟩
  obtain ⟨n, hn, hfirst⟩ := hItem hfirst
  obtain ⟨k, hk, hmore⟩ := SpaceItems.spells hItem hmore
  rw [Expr.strings_collapse, List.flatMap_cons]
  refine ⟨_, hn.trans hk, fun m hm => ?_⟩
  exact .mk hstart (hfirst m (by omega)) (hmore m (by omega))

theorem CommaItems.spells {atEnd : List Char → Bool} :
    (CommaItems Item atEnd).Spells (fun es => (es.getD []).flatMap Expr.strings)
      fun m => CommaItems (G m) atEnd := by
  intro s es rest h
  induction h with
  | none hblank hcomma => exact ⟨0, hblank.spelled, fun m _ => .none hblank hcomma⟩
  | last hblank hblank' hend =>
    refine ⟨_, hblank.spelled.trans (.code (by decide) hblank'.spelled), fun m _ => ?_⟩
    exact .last hblank hblank' hend
  | cons hblank hblank' hend hfirst _ ih =>
    obtain ⟨n, hn, hfirst⟩ := hItem hfirst
    obtain ⟨k, hk, hmore⟩ := ih
    have hitem := (hblank'.spelled.trans hn).trans hk
    refine ⟨_, hblank.spelled.trans (.code (by decide) hitem), fun m hm => ?_⟩
    exact .cons hblank hblank' hend (hfirst m (by omega)) (hmore m (by omega))

theorem CommaList.spells :
    (CommaList Item).Spells Expr.strings fun m => CommaList (G m) := by
  rintro _ _ _ ⟨hfirst, hmore⟩
  have hlist := SpaceList.spells hItem
  obtain ⟨n, hn, hfirst⟩ := hlist hfirst
  obtain ⟨k, hk, hmore⟩ := CommaItems.spells hlist hmore
  rw [strings_commaExpr]
  refine ⟨_, hn.trans hk, fun m hm => ?_⟩
  exact .mk (hfirst m (by omega)) (hmore m (by omega))

theorem EntryValue.spells :
    (EntryValue Item).Spells Expr.strings fun m => EntryValue (G m) := by
  rintro _ _ _ ⟨hblank, hblank', hvalue⟩
  obtain ⟨n, hn, hvalue⟩ := hItem hvalue
  refine ⟨_, hblank.spelled.trans (.code (by decide) (hblank'.spelled.trans hn)), fun m hm => ?_⟩
  exact .mk hblank hblank' (hvalue m (by omega))

theorem MapItems.spells : (MapItems Item).Spells
    (List.flatMap fun entry => entry.1.strings ++ entry.2.strings) fun m => MapItems (G m) := by
  intro s es rest h
  induction h with
  | none hblank hcomma => exact ⟨0, hblank.spelled, fun m _ => .none hblank hcomma⟩
  | last hblank hblank' hend =>
    refine ⟨_, hblank.spelled.trans (.code (by decide) hblank'.spelled), fun m _ => ?_⟩
    exact .last hblank hblank' hend
  | cons hblank hblank' hend hkey hvalue _ ih =>
    obtain ⟨n, hn, hkey⟩ := hItem hkey
    obtain ⟨k, hk, hvalue⟩ := EntryValue.spells hItem hvalue
    obtain ⟨l, hl, hmore⟩ := ih
    have hentry := (hblank'.spelled.trans (hn.trans hk)).trans hl
    refine ⟨_, hblank.spelled.trans (.code (by decide) hentry), fun m hm => ?_⟩
    exact .cons hblank hblank' hend (hkey m (by omega)) (hvalue m (by omega)) (hmore m (by omega))

theorem GroupRest.spelled {first : RawExpr} {s rest : List Char} {e : RawExpr}
    (h : GroupRest Item first s e rest) : ∃ strings n, e.strings = first.strings ++ strings ∧
      Spelled s strings n rest ∧ ∀ m, n ≤ m → GroupRest (G m) first s e rest := by
  cases h with
  | map hcolon hvalue hmore =>
    obtain ⟨n, hn, hvalue⟩ := EntryValue.spells hItem hvalue
    obtain ⟨k, hk, hmore⟩ := MapItems.spells hItem hmore
    refine ⟨_, _, by simp, hn.trans hk, fun m hm => ?_⟩
    exact .map hcolon (hvalue m (by omega)) (hmore m (by omega))
  | list hblank hcolon hmore =>
    obtain ⟨n, hn, hmore⟩ := CommaItems.spells hItem hmore
    exact ⟨_, n, strings_commaExpr _ _, hn, fun m hm => .list hblank hcolon (hmore m hm)⟩

theorem Group.spelled {s rest : List Char} {e : RawExpr} (h : Group Item s e rest) :
    ∃ n, Spelled s e.strings (n + 1) rest ∧ ∀ m, n ≤ m → Group (G m) s e rest := by
  cases h with
  | empty hblank => exact ⟨0, .group hblank.spelled, fun m _ => .empty hblank⟩
  | full hblank hend hfirst hinside =>
    obtain ⟨n, hn, hfirst⟩ := hItem hfirst
    obtain ⟨strings, k, hstrings, hk, hinside⟩ := GroupRest.spelled hItem hinside
    rw [hstrings]
    refine ⟨_, .group ((hblank.spelled.trans hn).trans hk), fun m hm => ?_⟩
    exact .full hblank hend (hfirst m (by omega)) (hinside m (by omega))

theorem ArgumentItems.spelled {s rest : List Char} {es : List RawExpr}
    (h : ArgumentItems Item s es rest) : ∃ n, Spelled s (es.flatMap Expr.strings) n (')' :: rest) ∧
      ∀ m, n ≤ m → ArgumentItems (G m) s es rest := by
  induction h with
  | nil hblank => exact ⟨0, hblank.spelled, fun m _ => .nil hblank⟩
  | last hblank hend hfirst hblank' =>
    obtain ⟨n, hn, hfirst⟩ := hItem hfirst
    refine ⟨_, (hblank.spelled.trans hn).trans hblank'.spelled, fun m hm => ?_⟩
    exact .last hblank hend (hfirst m (by omega)) hblank'
  | cons hblank hend hfirst hblank' _ ih =>
    obtain ⟨n, hn, hfirst⟩ := hItem hfirst
    obtain ⟨k, hk, hmore⟩ := ih
    have hmore' := hblank'.spelled.trans (.code (by decide) hk)
    refine ⟨_, (hblank.spelled.trans hn).trans hmore', fun m hm => ?_⟩
    exact .cons hblank hend (hfirst m (by omega)) hblank' (hmore m (by omega))

theorem ArgumentList.spelled {s rest : List Char} {es : List RawExpr}
    (h : ArgumentList Item s es rest) :
    ∃ n, Spelled s (es.flatMap Expr.strings) (n + 1) rest ∧
      ∀ m, n ≤ m → ArgumentList (G m) s es rest := by
  obtain ⟨hitems⟩ := h
  obtain ⟨n, hn, hitems⟩ := hitems.spelled hItem
  exact ⟨n, .group hn, fun m hm => .mk (hitems m hm)⟩

end

theorem PrimaryOf.spells {Grp : Form RawExpr} {Args : Form (List RawExpr)}
    {GrpOf : Nat → Form RawExpr} {ArgsOf : Nat → Form (List RawExpr)}
    (hGrp : Grp.Spells Expr.strings GrpOf)
    (hArgs : Args.Spells (List.flatMap Expr.strings) ArgsOf) :
    (PrimaryOf Grp Args).Spells Expr.strings fun m => PrimaryOf (GrpOf m) (ArgsOf m) := by
  intro s e rest h
  cases h with
  | group h =>
    obtain ⟨n, hn, h⟩ := hGrp h
    exact ⟨n, hn, fun m hm => .group (h m hm)⟩
  | color h =>
    refine ⟨0, ?_, fun m _ => .color h⟩
    obtain ⟨ds, color, hds, -, -, rfl, rfl⟩ := reads_readColor.1 h
    refine .code (by decide) (.append (fun d hd => ?_) rest)
    exact isValueChar_of_isNameChar (isNameChar_of_isHexDigit (hds d hd))
  | quoted hquote h =>
    obtain ⟨hspelled, hquoted⟩ := spelled_readQuoted hquote h
    refine ⟨0, ?_, fun m _ => .quoted hquote h⟩
    simpa [Expr.strings, Expr.literals, hquoted] using hspelled
  | number hnumber h =>
    refine ⟨0, ?_, fun m _ => .number hnumber h⟩
    obtain ⟨t, ht, -, rfl, rfl⟩ := reads_readNumber.1 h
    exact .append ht.isValueChar rest
  | name hnumber hc h =>
    cases h with
    | name hname hcall =>
      refine ⟨0, ?_, fun m _ => .name hnumber hc (.name hname hcall)⟩
      rw [Expr.strings_literal (isQuoted_nameValue _)]
      obtain ⟨cs, hcs, -, htext, -⟩ := reads_readName.1 hname
      exact htext ▸ .append (hcs.isValueChar htext hc) rest
    | call hname hcall hargs =>
      obtain ⟨n, hn, hargs⟩ := hArgs hargs
      rw [Expr.strings_call]
      obtain ⟨cs, hcs, -, htext, -⟩ := reads_readName.1 hname
      have hspelled := htext ▸ (Spelled.append (hcs.isValueChar htext hc) _).trans hn
      exact ⟨_, hspelled, fun m hm => .name hnumber hc (.call hname hcall (hargs m (by omega)))⟩

def Groups : (levels : Nat) → Form RawExpr
  | 0 => fun _ _ _ => False
  | levels + 1 => Group (SpaceList (Primary levels))

def Arguments : (levels : Nat) → Form (List RawExpr)
  | 0 => fun _ _ _ => False
  | levels + 1 => ArgumentList (SpaceList (Primary levels))

theorem primary_eq (levels : Nat) :
    Primary levels = PrimaryOf (Groups levels) (Arguments levels) := by
  cases levels <;> rfl

theorem Primary.spells_of {levels : Nat} (hGrp : (Groups levels).Spells Expr.strings Groups)
    (hArgs : (Arguments levels).Spells (List.flatMap Expr.strings) Arguments) :
    (Primary levels).Spells Expr.strings Primary := by
  intro s e rest h
  rw [primary_eq] at h
  obtain ⟨n, hn, hread⟩ := PrimaryOf.spells hGrp hArgs h
  exact ⟨n, hn, fun m hm => primary_eq m ▸ hread m hm⟩

/-- A primary can be read with as many levels as parentheses are open at once in it. -/
theorem Primary.spells (levels : Nat) : (Primary levels).Spells Expr.strings Primary := by
  induction levels with
  | zero => exact spells_of (fun _ _ _ => False.elim) (fun _ _ _ => False.elim)
  | succ levels ih =>
    have hitem := SpaceList.spells ih
    -- A group or the arguments of a call need one level more than what is in them.
    refine spells_of (fun s e rest h => ?_) fun s es rest h => ?_
    · obtain ⟨n, hn, hread⟩ := Group.spelled hitem h
      refine ⟨n + 1, hn, fun m hm => ?_⟩
      cases m with
      | zero => omega
      | succ m => exact hread m (by omega)
    · obtain ⟨n, hn, hread⟩ := ArgumentList.spelled hitem h
      refine ⟨n + 1, hn, fun m hm => ?_⟩
      cases m with
      | zero => omega
      | succ m => exact hread m (by omega)

end Grammar

end HostSheet
