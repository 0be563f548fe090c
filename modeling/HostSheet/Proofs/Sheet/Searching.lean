import HostSheet.Proofs.Sheet.Scanning

/-!
# The search for a mark

Before a rule or a declaration is read, its text is searched for a mark outside of comments, strings
and parentheses. A search passes over the tokens of a value as the cursor does, and it goes through
the same pieces as the scan.
-/

namespace HostSheet

-- ---------------------------------------------------------------------------
-- Past tokens
-- ---------------------------------------------------------------------------

def behind (passed : List Piece) (found : List Piece × List Char) : List Piece × List Char :=
  (passed ++ found.1, found.2)

theorem map_behind_nil (found : Option (List Piece × List Char)) :
    found.map (behind []) = found := by
  cases found <;> rfl

theorem map_behind_behind (ps qs : List Piece) (found : Option (List Piece × List Char)) :
    (found.map (behind qs)).map (behind ps) = found.map (behind (ps ++ qs)) := by
  cases found <;> simp [behind]

section
variable {isMark : Char → Bool} {depth : Nat} {c : Char}

theorem findMark_mark (hc : isPlain c = true) (hmark : isMark c = true) (s : List Char) :
    findMark isMark none 0 (c :: s) = some ([], c :: s) := by
  rw [findMark, first_plain hc]
  simp [hmark]

theorem findMark_plain (hc : isPlain c = true) (hmark : isMark c = false) (s : List Char) :
    findMark isMark none depth (c :: s) =
      (findMark isMark none (parenDepth depth c) s).map (behind [.code c]) := by
  rw [findMark, first_plain hc]
  simp only [hmark, Bool.false_eq_true, and_false, if_false]
  rfl

theorem findMark_quoted {quote : Char} {body text : List Char} (hquote : quote ≠ '\\')
    (h : Grammar.Quoted quote body text) (s : List Char) :
    findMark isMark (some quote) depth (body ++ quote :: s) =
      (findMark isMark none depth s).map (behind (quotedPieces body ++ [.quoted [quote]])) := by
  induction h with
  | nil =>
    rw [List.nil_append, findMark, first_quoted _ hquote, if_pos rfl, quotedPieces]
    rfl
  | escape _ ih =>
    rw [List.cons_append, List.cons_append, findMark, first_escape, quotedPieces, ih,
      Option.map_map]
    rfl
  | char _ hslash hc _ ih =>
    rw [List.cons_append, findMark, first_quoted _ hslash, if_neg hc, ih,
      quotedPieces_cons hslash, Option.map_map]
    rfl

theorem parenDepth_of_ne (hopen : c ≠ '(') (hclose : c ≠ ')') : parenDepth depth c = depth := by
  unfold parenDepth
  split <;> first | rfl | contradiction

/-- The search for the mark behind a value passes over the value. -/
theorem Lexed.findMark_eq (hmarks : ∀ c, isBlockMark c = false → isMark c = false)
    {s rest : List Char} {ts : List Token} (h : Lexed s ts rest) :
    findMark isMark none depth s =
      (findMark isMark none depth rest).map (behind (ts.flatMap Token.pieces)) := by
  induction h generalizing depth with
  | nil => exact (map_behind_nil _).symm
  | code hc _ ih =>
    obtain ⟨hplain, hmark, hopen, hclose⟩ := isValueChar_iff.1 hc
    rw [findMark_plain hplain (hmarks _ hmark), parenDepth_of_ne hopen hclose, ih,
      map_behind_behind]
    rfl
  | comment hcomment _ ih =>
    obtain ⟨c, t, ht, hcut⟩ := first_comment hcomment
    rw [ht, findMark, hcut]
    simp only [ih, Option.map_map]
    rfl
  | @string quote body s v ts rest hquote hread _ ih =>
    obtain ⟨body', text, hbody, hs, -⟩ := (reads_readQuoted hquote).1 hread
    obtain rfl := List.append_cancel_right hs
    rw [findMark, first_quote hquote]
    simp only
    rw [findMark_quoted (ne_backslash hquote) hbody, ih, map_behind_behind, Option.map_map]
    refine congrArg (Option.map · _) (funext fun found => ?_)
    simp [behind, Token.pieces]
  | @group s ts s' us rest _ _ ihinside ih =>
    -- Inside the parentheses the search is one level deeper, where no mark counts at all.
    rw [findMark_plain (by decide) (hmarks _ (by decide)), ihinside,
      findMark_plain (by decide) (hmarks _ (by decide))]
    rw [show parenDepth (parenDepth depth '(') ')' = depth from rfl, ih, map_behind_behind,
      map_behind_behind, map_behind_behind]
    simp [Token.pieces]

end

-- ---------------------------------------------------------------------------
-- Without comments
-- ---------------------------------------------------------------------------

theorem withoutComments_append (ps qs : List Piece) :
    withoutComments (ps ++ qs) = withoutComments ps ++ withoutComments qs := by
  induction ps with
  | nil => rfl
  | cons p ps ih => cases p <;> simp [withoutComments, ih]

theorem withoutComments_cons (p : Piece) (ps : List Piece) :
    withoutComments (p :: ps) = withoutComments [p] ++ withoutComments ps :=
  withoutComments_append [p] ps

-- ---------------------------------------------------------------------------
-- Piece by piece
-- ---------------------------------------------------------------------------

def Piece.marks (isMark : Char → Bool) (depth : Nat) : Piece → Bool
  | .code c => depth == 0 && isMark c
  | _ => false

def Piece.depthBehind (depth : Nat) : Piece → Nat
  | .code c => parenDepth depth c
  | _ => depth

inductive Found (isMark : Char → Bool) :
    Option Char → Nat → List Char → List Piece → List Char → Prop
  | here {quote depth c s} : (Piece.first quote c s).piece.marks isMark depth = true →
      Found isMark quote depth (c :: s) [] (c :: s)
  | there {quote depth c s piece quote' s' before rest} :
      Piece.first quote c s = ⟨piece, quote', s'⟩ → piece.marks isMark depth = false →
      Found isMark quote' (piece.depthBehind depth) s' before rest →
      Found isMark quote depth (c :: s) (piece :: before) rest

section
variable {isMark : Char → Bool} {quote : Option Char} {depth : Nat} {c : Char}
  {s rest : List Char} {before : List Piece}

theorem Piece.marks_iff {piece : Piece} :
    piece.marks isMark depth = true ↔ ∃ c, piece = .code c ∧ depth = 0 ∧ isMark c = true := by
  cases piece <;> simp [marks]

theorem Piece.first_code {d : Char} (h : (first quote c s).piece = .code d) :
    quote = none ∧ first quote c s = ⟨.code c, none, s⟩ := by
  cases quote with
  | some q =>
    simp only [first] at h
    split at h <;> cases h
  | none =>
    refine ⟨rfl, ?_⟩
    simp only [first] at h ⊢
    split at h
    · split at h <;> cases h
    · cases h
    · split at h
      · cases h
      · rename_i hquote
        rw [if_neg hquote]

theorem findMark_cons (quote : Option Char) (depth : Nat) (c : Char) (s : List Char) :
    findMark isMark quote depth (c :: s) =
      if (Piece.first quote c s).piece.marks isMark depth then some ([], c :: s)
      else (findMark isMark (Piece.first quote c s).quote
        ((Piece.first quote c s).piece.depthBehind depth) (Piece.first quote c s).rest).map
          (behind [(Piece.first quote c s).piece]) := by
  rw [findMark]
  cases (Piece.first quote c s).piece <;>
    simp only [Piece.marks, Piece.depthBehind, Bool.and_eq_true, beq_iff_eq, Bool.false_eq_true,
      if_false] <;> rfl

theorem findMark_iff : findMark isMark quote depth s = some (before, rest) ↔
    Found isMark quote depth s before rest := by
  constructor
  · intro h
    induction hn : s.length using Nat.strongRecOn generalizing quote depth s before with
    | ind n ih =>
      cases s with
      | nil =>
        rw [findMark] at h
        cases h
      | cons c s =>
        rw [findMark_cons] at h
        split at h
        · rename_i hmark
          cases h
          exact .here hmark
        · rename_i hmark
          obtain ⟨⟨before', rest'⟩, h', e⟩ := Option.map_eq_some_iff.1 h
          cases e
          exact .there rfl (Bool.eq_false_iff.2 hmark)
            (ih _ (hn ▸ Piece.length_first_rest quote c s) h' rfl)
  · intro h
    induction h with
    | here hmark => rw [findMark_cons, if_pos hmark]
    | there hcut hmark _ ih =>
      rw [findMark_cons, hcut]
      simp only
      rw [if_neg (Bool.eq_false_iff.1 hmark), ih]
      rfl

theorem Found.pieces_eq (h : Found isMark quote depth s before rest) :
    pieces quote s = before ++ pieces none rest := by
  induction h with
  | here hmark =>
    obtain ⟨d, hcode, -⟩ := Piece.marks_iff.1 hmark
    rw [(Piece.first_code hcode).1, List.nil_append]
  | there hcut _ _ ih => rw [pieces_cons, hcut, ih, List.cons_append]

/-- A search for fewer marks goes on where the search for more of them ended. -/
theorem Found.findMark_eq {isMark' : Char → Bool}
    (hmarks : ∀ c, isMark' c = true → isMark c = true)
    (h : Found isMark quote depth s before rest) :
    findMark isMark' quote depth s = (findMark isMark' none 0 rest).map (behind before) := by
  induction h with
  | here hmark =>
    obtain ⟨d, hcode, rfl, -⟩ := Piece.marks_iff.1 hmark
    rw [(Piece.first_code hcode).1, map_behind_nil]
  | @there quote depth c s piece quote' s' before rest hcut hmark _ ih =>
    have hmark' : ¬ piece.marks isMark' depth = true := by
      intro hmark'
      obtain ⟨d, hcode, hdepth, hd⟩ := Piece.marks_iff.1 hmark'
      rw [Piece.marks_iff.2 ⟨d, hcode, hdepth, hmarks d hd⟩] at hmark
      cases hmark
    rw [findMark_cons, hcut]
    simp only
    rw [if_neg hmark', ih, map_behind_behind]
    rfl

end

end HostSheet
