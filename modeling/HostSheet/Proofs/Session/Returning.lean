import HostSheet.Proofs.Session.Constants

/-!
# Handing back what a sheet writes

A function can hand back an argument that was written out in the sheet exactly if the argument has
no more levels than are encoded. The limit on nesting does not see to that: each pair of parentheses
can add two levels.
-/

namespace HostSheet

open Grammar

theorem Value.IsLiteral.depth_eq {value : Value} (h : value.IsLiteral) : value.depth = 0 := by
  obtain h | rfl := h
  · cases value <;> first | rfl | cases h
  · rfl

theorem Value.IsLiteral.passable {value : Value} (h : value.IsLiteral) : value.Passable := by
  obtain h | rfl := h
  · cases value <;> simp_all [Value.isScalar, Value.Passable, Value.leaves, Value.isReport]
  · simp [Value.emptyList]

/-- An argument that calls nothing decodes to a host value, and has less than twice the levels that
groups and calls may nest. -/
theorem decode_argument {source name : String} {e : Expr Location} {place : Location}
    (h : Expr.parse source = .ok (.call name [e] place)) (hfree : e.CallFree) :
    (∃ n, decode .any e.constant = .ok n) ∧ e.constant.depth = e.height ∧
      e.height < 2 * maxNesting := by
  obtain ⟨hheight, hliterals⟩ := fits_argument h
  refine ⟨exists_decodeAny_iff.2 ?_, ?_, Nat.lt_of_le_sub_one (by decide) hheight⟩
  · rw [Value.Passable, Expr.leaves_constant hfree, List.forall_mem_flatMap]
    exact fun value hv => (hliterals value hv).passable
  · exact Expr.depth_constant hfree fun value hv => (hliterals value hv).depth_eq

theorem exists_encode_of_decodeAny {value : Value} {decoded : HostValue}
    (h : decodeAny value = .ok decoded) :
    (∃ encoded, encode decoded = .ok encoded) ↔ value.depth ≤ maxDepth := by
  rw [exists_encode_iff, depth_decodeAny h]
  exact and_iff_right (sameLeaves_decodeAny h).decoded_passable

-- ---------------------------------------------------------------------------
-- Towers
-- ---------------------------------------------------------------------------

/-- The text `1` in so many parentheses, each pair with a further `1` and a comma in it. -/
def towerText : Nat → List Char
  | 0 => ['1']
  | k + 1 => '(' :: towerText k ++ [' ', '1', ',', ')']

def towerNumber : Value :=
  .number ⟨Decimal.nearest false ['1'] [], ""⟩

/-- What a tower is read as: each pair of parentheses is a comma list of one space list. -/
def towerExpr {p : Type} : Nat → Expr p
  | 0 => .literal towerNumber
  | k + 1 => .list [.list [towerExpr k, .literal towerNumber] .space] .comma

def towerCall (k : Nat) : String :=
  String.ofList ('f' :: '(' :: (towerText k ++ [' ', '1', ')']))

def towerArgument {p : Type} (k : Nat) : Expr p :=
  .list [towerExpr k, .literal towerNumber] .space

theorem reads_towerNumber {c : Char} {s : List Char} (h : c = ' ' ∨ c = ',' ∨ c = ')') :
    readNumber.Reads ('1' :: c :: s) towerNumber (c :: s) := by
  rcases h with rfl | rfl | rfl <;> exact ⟨_, rfl⟩

theorem primary_towerNumber {levels : Nat} {c : Char} {s : List Char}
    (h : c = ' ' ∨ c = ',' ∨ c = ')') :
    Primary levels ('1' :: c :: s) (.literal towerNumber) (c :: s) := by
  cases levels <;> exact .number rfl (reads_towerNumber h)

theorem towerText_append (k : Nat) (t : List Char) :
    ∃ c s, towerText k ++ t = c :: s ∧ (c = '1' ∨ c = '(') := by
  cases k with
  | zero => exact ⟨_, _, rfl, .inl rfl⟩
  | succ k => exact ⟨_, _, rfl, .inr rfl⟩

theorem towerText_starts (k : Nat) (t : List Char) :
    Trivia (towerText k ++ t) (towerText k ++ t) ∧ atValueEnd (towerText k ++ t) = false ∧
      atClose (towerText k ++ t) = false := by
  obtain ⟨c, s, h, rfl | rfl⟩ := towerText_append k t <;> rw [h] <;>
    exact ⟨trivia_cons (by decide) (by decide), rfl, rfl⟩

theorem spaceList_tower {levels k : Nat} {c : Char} {s : List Char} (hc : c = ',' ∨ c = ')')
    (h : Primary levels (towerText k ++ ' ' :: '1' :: c :: s) (towerExpr k)
      (' ' :: '1' :: c :: s)) :
    SpaceList (Primary levels) (towerText k ++ ' ' :: '1' :: c :: s) (towerArgument k)
      (c :: s) := by
  have number : SpaceItems (Primary levels) (' ' :: '1' :: c :: s) [.literal towerNumber]
      (c :: s) := by
    have blank : Text.trimStart (' ' :: '1' :: c :: s) = '1' :: c :: s := rfl
    refine .cons (trivia_of_trimStart blank (by simp)) rfl (primary_towerNumber (.inr hc)) ?_
    rcases hc with rfl | rfl <;> exact .nil (trivia_cons (by decide) (by decide)) rfl
  exact .mk (towerText_starts k _).2.1 h number

theorem primary_tower {k levels : Nat} (h : k ≤ levels) (s : List Char) :
    Primary levels (towerText k ++ ' ' :: s) (towerExpr k) (' ' :: s) := by
  induction k generalizing levels s with
  | zero => exact primary_towerNumber (.inl rfl)
  | succ k ih =>
    cases levels with
    | zero => cases h
    | succ levels =>
      have text : towerText (k + 1) ++ ' ' :: s =
          '(' :: (towerText k ++ ' ' :: '1' :: ',' :: ')' :: ' ' :: s) := by
        simp [towerText]
      -- One level is spent on the parentheses; the tower inside has one pair less.
      have item := spaceList_tower (.inl rfl)
        (ih (Nat.le_of_succ_le_succ h) ('1' :: ',' :: ')' :: ' ' :: s))
      have comma : Trivia (',' :: ')' :: ' ' :: s) (',' :: ')' :: ' ' :: s) :=
        trivia_cons (by decide) (by decide)
      have close : Trivia (')' :: ' ' :: s) (')' :: ' ' :: s) :=
        trivia_cons (by decide) (by decide)
      have inside : GroupRest (SpaceList (Primary levels)) (towerArgument k)
          (',' :: ')' :: ' ' :: s) (towerExpr (k + 1)) (')' :: ' ' :: s) :=
        .list comma (by simp) (.last comma close rfl)
      have ⟨start, _, notClose⟩ := towerText_starts k (' ' :: '1' :: ',' :: ')' :: ' ' :: s)
      rw [text]
      exact .group (.full start notClose item inside)

theorem readWhole_towerCall {k : Nat} (h : k < maxNesting) :
    readWhole (towerCall k).toList =
      .ok (.call "f" [towerArgument k] (towerCall k).toList) := by
  have text : (towerCall k).toList =
      'f' :: '(' :: (towerText k ++ ' ' :: '1' :: ')' :: []) := by
    simp [towerCall]
  obtain ⟨levels, hlevels⟩ : ∃ levels, maxNesting = levels + 1 := ⟨_, rfl⟩
  have item := spaceList_tower (.inr rfl)
    (primary_tower (Nat.le_of_lt_succ (hlevels ▸ h)) ('1' :: ')' :: []))
  have ⟨start, _, notClose⟩ := towerText_starts k (' ' :: '1' :: ')' :: [])
  have nothing : Trivia [] [] := trivia_of_trimStart rfl (by simp)
  have args : ArgumentList (SpaceList (Primary levels))
      ('(' :: (towerText k ++ ' ' :: '1' :: ')' :: [])) [towerArgument k] [] :=
    .mk (.last start notClose item (trivia_cons (by decide) (by decide)))
  have name : readName.Reads ('f' :: '(' :: (towerText k ++ ' ' :: '1' :: ')' :: [])) "f"
      ('(' :: (towerText k ++ ' ' :: '1' :: ')' :: [])) := ⟨_, rfl⟩
  have call : Primary (levels + 1) (towerCall k).toList
      (.call "f" [towerArgument k] (towerCall k).toList) [] := by
    rw [text]
    exact .name rfl (.inl (by decide)) (.call name rfl args)
  have start : Trivia (towerCall k).toList (towerCall k).toList := by
    rw [text]
    exact trivia_cons (by decide) (by decide)
  refine readWhole_ok.2 ⟨_, [], start, ?_, nothing⟩
  rw [hlevels]
  refine .mk (.mk (by rw [text]; rfl) call (.nil nothing rfl)) (.none nothing (by simp))

section
variable {p q : Type}

theorem mapPlaces_towerExpr (f : p → q) (k : Nat) :
    (towerExpr k : Expr p).mapPlaces f = towerExpr k := by
  induction k with
  | zero => rfl
  | succ k ih =>
    simp only [towerExpr, Expr.mapPlaces, Expr.mapPlacesItems, ih]

theorem callFree_towerArgument (k : Nat) : (towerArgument k : Expr p).CallFree := by
  have tower : (towerExpr k : Expr p).CallFree := by
    induction k with
    | zero => rfl
    | succ k ih => simpa [towerExpr] using ih
  simpa [towerArgument] using tower

theorem depth_towerArgument (k : Nat) :
    (towerArgument k : Expr p).constant.depth = 2 * k + 1 := by
  have tower : (towerExpr k : Expr p).constant.depth = 2 * k := by
    induction k with
    | zero => rfl
    | succ k ih =>
      simp only [towerExpr, Expr.constant, Expr.constantItems, Value.depth, Value.itemsDepth, ih]
      simp [towerNumber, Value.depth]
      omega
  simp only [towerArgument, Expr.constant, Expr.constantItems, Value.depth, Value.itemsDepth, tower]
  simp [towerNumber, Value.depth]

end

theorem parse_towerCall {k : Nat} (h : k < maxNesting) :
    Expr.parse (towerCall k) =
      .ok (.call "f" [towerArgument k] (placeIn (towerCall k).toList (towerCall k).toList)) := by
  refine Expr.parse_ok.2 ⟨_, readWhole_towerCall h, ?_⟩
  simp [Expr.mapPlaces, Expr.mapPlacesItems, towerArgument, mapPlaces_towerExpr]

/-- A call may have a tower of every height that its levels admit, but only about half of them can
be handed back. -/
theorem tower_returns_iff {k : Nat} (h : k < maxNesting) :
    ∃ place n, Expr.parse (towerCall k) = .ok (.call "f" [towerArgument k] place) ∧
      decode .any (towerArgument k : Expr Location).constant = .ok n ∧
      ((∃ w, encode n = .ok w) ↔ 2 * k + 1 ≤ maxDepth) := by
  have parsed := parse_towerCall h
  obtain ⟨⟨n, hn⟩, -, -⟩ := decode_argument parsed (callFree_towerArgument k)
  refine ⟨_, n, parsed, hn, ?_⟩
  rw [exists_encode_of_decodeAny hn, depth_towerArgument]

-- ---------------------------------------------------------------------------
-- The exact condition
-- ---------------------------------------------------------------------------

/-- A written argument has one value, which always decodes, and which is handed back exactly if the
argument has no more levels of lists and maps than are encoded. -/
theorem argument_returns_iff {source name : String} {e : Expr Location} {place : Location}
    (h : Expr.parse source = .ok (.call name [e] place)) (hfree : e.CallFree) :
    ∃ v n, (∀ (σ : Type) (setting : Setting), (setting.evalExpr e : EvalM σ Value) = pure v) ∧
      decode .any v = .ok n ∧ v.depth = e.height ∧ e.height < 2 * maxNesting ∧
      ((∃ w, encode n = .ok w) ↔ e.height ≤ maxDepth) := by
  obtain ⟨⟨n, hn⟩, hdepth, hheight⟩ := decode_argument h hfree
  refine ⟨e.constant, n, fun _ _ => Setting.evalExpr_of_callFree hfree, hn, hdepth, hheight, ?_⟩
  rw [← hdepth]
  exact exists_encode_of_decodeAny hn

/-- A tower of 127 pairs of parentheses is just not too high. -/
theorem argument_returns_iff_tower :
    let place := placeIn (towerCall 127).toList (towerCall 127).toList
    let e : Expr Location := towerArgument 127
    Expr.parse (towerCall 127) = .ok (.call "f" [e] place) ∧ e.CallFree ∧
      ∃ v n, (∀ (σ : Type) (setting : Setting), (setting.evalExpr e : EvalM σ Value) = pure v) ∧
        decode .any v = .ok n ∧ v.depth = e.height ∧ e.height < 2 * maxNesting ∧
        ((∃ w, encode n = .ok w) ↔ e.height ≤ maxDepth) := by
  intro place e
  have parsed : Expr.parse (towerCall 127) = .ok (.call "f" [e] place) :=
    parse_towerCall (by decide)
  have free : e.CallFree := callFree_towerArgument 127
  exact ⟨parsed, free, argument_returns_iff parsed free⟩

/-- With one pair more the argument is still read, evaluated and decoded, but not handed back. -/
theorem tower_does_not_return :
    ∃ e place v n, Expr.parse (towerCall 128) = .ok (.call "f" [e] place) ∧ e.CallFree ∧
      (∀ (σ : Type) (setting : Setting), (setting.evalExpr e : EvalM σ Value) = pure v) ∧
      decode .any v = .ok n ∧ ¬ ∃ w, encode n = .ok w := by
  have free : (towerArgument 128 : Expr Location).CallFree := callFree_towerArgument 128
  obtain ⟨place, n, parsed, hn, hreturns⟩ := tower_returns_iff (k := 128) (by decide)
  refine ⟨_, place, _, n, parsed, free, fun _ _ => Setting.evalExpr_of_callFree free, hn, ?_⟩
  rw [hreturns]
  decide

end HostSheet
