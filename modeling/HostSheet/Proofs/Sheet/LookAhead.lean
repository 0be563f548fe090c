import HostSheet.Proofs.Sheet.Declaring
import HostSheet.Proofs.Sheet.Spelling

/-!
# Looking ahead

Whether an item of a block is a rule or a declaration is told by a scan, which knows strings,
comments and parentheses and nothing else of values. It comes to the same end as the reader of
values: what stands between a property and a semicolon is taken for the value that it is by itself.
-/

namespace HostSheet

open Grammar

-- ---------------------------------------------------------------------------
-- Parentheses
-- ---------------------------------------------------------------------------

/-- Each closing parenthesis has an opening one in front of it, and none is left open. -/
structure Balanced (ps : List Piece) : Prop where
  opened : ∀ qs, qs <+: ps → qs.count (.code ')') ≤ qs.count (.code '(')
  closed : ps.count (.code ')') = ps.count (.code '(')

namespace Balanced

variable {ps qs : List Piece}

theorem of_forall (h : ∀ p ∈ ps, p ≠ .code '(' ∧ p ≠ .code ')') : Balanced ps := by
  have hnone : ∀ qs, qs <+: ps → qs.count (.code ')') = 0 := fun qs hqs =>
    List.count_eq_zero.2 fun hmem => (h _ (hqs.subset hmem)).2 rfl
  have hsome : ps.count (.code '(') = 0 := List.count_eq_zero.2 fun hmem => (h _ hmem).1 rfl
  exact ⟨fun qs hqs => hnone qs hqs ▸ Nat.zero_le _, (hnone ps List.prefix_rfl).trans hsome.symm⟩

theorem append (hps : Balanced ps) (hqs : Balanced qs) : Balanced (ps ++ qs) := by
  constructor
  · intro xs hxs
    rcases List.prefix_or_prefix_of_prefix hxs (List.prefix_append ps qs) with h | ⟨ys, rfl⟩
    · exact hps.opened xs h
    · have hys := hqs.opened ys ((List.prefix_append_right_inj ps).1 hxs)
      rw [List.count_append, List.count_append, hps.closed]
      omega
  · rw [List.count_append, List.count_append, hps.closed, hqs.closed]

theorem group (h : Balanced ps) : Balanced (.code '(' :: ps ++ [.code ')']) := by
  constructor
  · intro xs hxs
    rcases List.prefix_concat_iff.1 hxs with rfl | hxs
    · have := h.closed
      simp
      omega
    cases xs with
    | nil => exact Nat.le_refl 0
    | cons p ys =>
      obtain ⟨rfl, hys⟩ := List.cons_prefix_cons.1 hxs
      have := h.opened ys hys
      simp
      omega
  · have := h.closed
    simp [this]

end Balanced

theorem Lexed.balanced {s rest : List Char} {ts : List Token} (h : Lexed s ts rest) :
    Balanced (ts.flatMap Token.pieces) := by
  induction h with
  | nil => exact .of_forall (by simp)
  | code hc _ ih =>
    obtain ⟨-, -, hopen, hclose⟩ := isValueChar_iff.1 hc
    exact .append (.of_forall (by simp [Token.pieces, hopen, hclose])) ih
  | comment _ _ ih => exact .append (.of_forall (by simp [Token.pieces])) ih
  | string _ _ _ ih =>
    refine .append (.of_forall fun p hp => ?_) ih
    obtain ⟨text, rfl⟩ := Token.quoted_of_mem_string hp
    simp
  | group _ _ ihinside ih =>
    have hgroup := ihinside.group.append ih
    simpa [Token.pieces] using hgroup

-- ---------------------------------------------------------------------------
-- What the scan tells
-- ---------------------------------------------------------------------------

def Piece.isQuoted : Piece → Bool
  | .quoted _ => true
  | _ => false

/-- The scan of a text tells the same as the value that the text is read as: it ends outside of
strings with all parentheses closed, and comes to no mark of a block. Its quoted pieces are those of
the string tokens, which are the quoted strings of the value one by one. -/
structure ScannedAs {p : Type} (text : List Char) (e : Expr p) : Prop where
  closed : Scans none text (pieces none text) none []
  balanced : Balanced (pieces none text)
  unmarked : ∀ c, .code c ∈ pieces none text → isBlockMark c = false
  strings : ∃ ts, Lexed text ts [] ∧ pieces none text = ts.flatMap Token.pieces ∧
    ts.filterMap Token.string? = e.strings ∧
    ∀ token ∈ ts, ∀ piece ∈ token.pieces, piece.isQuoted = token.string?.isSome

theorem Spelled.scannedAs {text : List Char} {depth : Nat} {p : Type} {e : Expr p}
    (h : Spelled text e.strings depth []) : ScannedAs text e := by
  obtain ⟨ts, hts, hstrings, -⟩ := h
  have hpieces : pieces none text = ts.flatMap Token.pieces := by
    rw [hts.pieces_eq, pieces_nil, List.append_nil]
  refine ⟨hpieces ▸ hts.scans, hpieces ▸ hts.balanced, fun c hc => ?_, ts, hts, hpieces, hstrings,
    ?_⟩
  · exact hts.isBlockMark_eq_false (hpieces ▸ hc)
  · refine hts.forall_token (fun c _ => ?_) (fun text => ?_) fun quote body piece hpiece => ?_
    · exact List.forall_mem_singleton.2 rfl
    · exact List.forall_mem_singleton.2 rfl
    · obtain ⟨text, rfl⟩ := Token.quoted_of_mem_string hpiece
      rfl

/-- A whole value can be read with as many levels as the scan of it is deep. -/
theorem readWhole_spelled {s : List Char} {e : RawExpr} (h : readWhole s = .ok e) :
    Spelled s e.strings (deepest 0 (pieces none s)) [] ∧ ∃ s' s'', Trivia s s' ∧
      Trivia s'' [] ∧ ∀ levels, deepest 0 (pieces none s) ≤ levels →
        CommaList (Primary levels) s' e s'' := by
  obtain ⟨s', s'', hblank, hvalue, hblank'⟩ := readWhole_ok.1 h
  obtain ⟨n, hn, hlevels⟩ := CommaList.spells (Primary.spells maxNesting) hvalue
  obtain ⟨ts, hts, hstrings, hdeep⟩ := (hblank.spelled.trans hn).trans hblank'.spelled
  have hdeepest : deepest 0 (pieces none s) = n := by
    rw [hts.pieces_eq, pieces_nil, hdeep]
    simp [deepest]
  rw [hdeepest]
  refine ⟨⟨ts, hts, by simpa using hstrings, ?_⟩, s', s'', hblank, hblank', hlevels⟩
  simpa using hdeep

/-- The look-ahead agrees with the reader of values. Every value that can be read is scanned as what
it is, and the declaration of a property with this value is not taken for a rule. It is read with
this value, provided that no fewer levels are left in its block than parentheses are open at once in
the text of the value. -/
theorem Expr.scannedAs_of_parse {text : String} {e : Expr Location} (h : Expr.parse text = .ok e) :
    ScannedAs text.toList e ∧ ∀ name, WritableProperty name → NoLineComment text.toList →
      ∀ rest, startsRule (name.toList ++ ':' :: (text.toList ++ ';' :: rest)) = false ∧
        ∀ levels, deepest 0 (pieces none text.toList) ≤ levels →
          ∃ d, (readDeclaration (readValue levels)).Reads
              (name.toList ++ ':' :: (text.toList ++ ';' :: rest)) d rest ∧
            d.property = name ∧ d.value.mapPlaces (fun _ => ()) = e.mapPlaces fun _ => () := by
  obtain ⟨raw, hraw, rfl⟩ := Expr.parse_ok.1 h
  obtain ⟨hspelled, s', s'', hblank, hblank', hlevels⟩ := readWhole_spelled hraw
  rw [← Expr.strings_mapPlaces (placeIn text.toList) raw] at hspelled
  refine ⟨hspelled.scannedAs, fun name hname hline rest => ?_⟩
  have hdeclaration : ∀ levels, deepest 0 (pieces none text.toList) ≤ levels → ∃ d ts,
      DeclarationOf (CommaList (Primary levels))
        (name.toList ++ ':' :: (text.toList ++ ';' :: rest)) d ts rest ∧
        d.property = name ∧ d.value = raw.mapPlaces (· ++ ';' :: rest) := by
    intro levels hle
    exact declaration_of_whole hname hblank (hlevels levels hle) hblank' hline blank_nil .semicolon
  constructor
  · obtain ⟨d, ts, hd, -⟩ := hdeclaration _ (Nat.le_refl _)
    exact hd.startsRule_eq_false
  · intro levels hle
    obtain ⟨d, ts, hd, hproperty, hvalue⟩ := hdeclaration levels hle
    rw [← reads_readValue] at hd
    refine ⟨d, (reads_readDeclaration (walks_readValue levels)).2 ⟨ts, hd⟩, hproperty, ?_⟩
    simp only [hvalue, Expr.mapPlaces_mapPlaces]
    rfl

/-- Quotes, braces and parentheses in strings, and a comment between two parentheses. -/
theorem Expr.scannedAs_of_parse_nested :
    ∃ e, Expr.parse "f(\"\\\"(\x7b\", ('a;' /* ) */))" = .ok e ∧
      ScannedAs "f(\"\\\"(\x7b\", ('a;' /* ) */))".toList e ∧
      ∃ d, (readDeclaration (readValue 2)).Reads
          ("b".toList ++ ':' :: ("f(\"\\\"(\x7b\", ('a;' /* ) */))".toList ++ [';', '}']))
          d ['}'] ∧
        d.property = "b" ∧ d.value.mapPlaces (fun _ => ()) = e.mapPlaces fun _ => () := by
  have hname : WritableProperty "b" := by decide
  have hline : NoLineComment "f(\"\\\"(\x7b\", ('a;' /* ) */))".toList := by decide +kernel
  have hdeep : deepest 0 (pieces none "f(\"\\\"(\x7b\", ('a;' /* ) */))".toList) ≤ 2 := by
    decide +kernel
  obtain ⟨e, he⟩ := isOk_iff.1
    (show (Expr.parse "f(\"\\\"(\x7b\", ('a;' /* ) */))").isOk = true by decide +kernel)
  obtain ⟨hscanned, hread⟩ := Expr.scannedAs_of_parse he
  exact ⟨e, he, hscanned, (hread "b" hname hline ['}']).2 2 hdeep⟩

end HostSheet
