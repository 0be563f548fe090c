import HostSheet.Proofs.Sheet.Reading
import HostSheet.Sheet.Block
import Mathlib.Data.List.DropRight

/-!
# Scanning and reading

A text is looked at in two ways: a cursor that passes over blanks, comments and strings as it comes
to them, and a scan that cuts the text into pieces. What the cursor passes over on its way through a
value is a list of tokens, and the scan cuts each token into the pieces that it shows.
-/

namespace HostSheet

def isPlain (c : Char) : Bool :=
  c != '/' && c != '"' && c != '\''

section
variable {c : Char} {s rest : List Char}

theorem isPlain_iff : isPlain c = true ↔ c ≠ '/' ∧ c ≠ '"' ∧ c ≠ '\'' := by
  simp [isPlain, and_assoc]

-- ---------------------------------------------------------------------------
-- Pieces
-- ---------------------------------------------------------------------------

theorem pieces_cons (quote : Option Char) (c : Char) (s : List Char) :
    pieces quote (c :: s) = (Piece.first quote c s).piece ::
      pieces (Piece.first quote c s).quote (Piece.first quote c s).rest := by
  rw [pieces]

@[simp] theorem pieces_nil (quote : Option Char) : pieces quote [] = [] := by
  rw [pieces]

/-- A scan on its way from one text to another: it cuts off these pieces, where `quote` is open in
front of them and `quote'` behind them. -/
inductive Scans : Option Char → List Char → List Piece → Option Char → List Char → Prop
  | nil {quote s} : Scans quote s [] quote s
  | cons {quote c s piece quote' s' ps quote'' rest} :
      Piece.first quote c s = ⟨piece, quote', s'⟩ → Scans quote' s' ps quote'' rest →
      Scans quote (c :: s) (piece :: ps) quote'' rest

namespace Scans

variable {quote quote' quote'' : Option Char} {s' : List Char} {ps qs : List Piece}

theorem trans (h : Scans quote s ps quote' s') (h' : Scans quote' s' qs quote'' rest) :
    Scans quote s (ps ++ qs) quote'' rest := by
  induction h with
  | nil => exact h'
  | cons hcut _ ih => exact .cons hcut (ih h')

theorem pieces_eq (h : Scans quote s ps quote' rest) :
    pieces quote s = ps ++ pieces quote' rest := by
  induction h with
  | nil => rfl
  | cons hcut _ ih => rw [pieces_cons, hcut, ih, List.cons_append]

end Scans

theorem first_plain (h : isPlain c = true) (s : List Char) :
    Piece.first none c s = ⟨.code c, none, s⟩ := by
  obtain ⟨hslash, hquotes⟩ := isPlain_iff.1 h
  simp only [Piece.first]
  split
  · exact absurd rfl hslash
  · exact absurd rfl hslash
  · rw [if_neg (by simpa using hquotes)]

theorem pieces_plain (h : isPlain c = true) (s : List Char) :
    pieces none (c :: s) = .code c :: pieces none s := by
  rw [pieces_cons, first_plain h]

def LoneSlash (s : List Char) : Prop :=
  s.head? ≠ some '/' ∧ s.head? ≠ some '*'

theorem not_loneSlash (h : ¬ LoneSlash s) : ∃ t, s = '/' :: t ∨ s = '*' :: t := by
  rw [LoneSlash, not_and_or, not_not, not_not] at h
  cases s with
  | nil => simp at h
  | cons d t => exact ⟨t, by simpa using h⟩

theorem readComment?_slash : readComment? ('/' :: s) = .ok none ↔ LoneSlash s := by
  constructor
  · intro h
    refine ⟨?_, ?_⟩
    · intro hhead
      cases s <;> cases hhead
      cases h
    · intro hhead
      cases s <;> cases hhead
      simp only [readComment?] at h
      split at h <;> cases h
  · rintro ⟨hslash, hstar⟩
    refine readComment?.eq_3 _ ?_ ?_ <;> rintro t ht <;> cases ht
    · exact hslash rfl
    · exact hstar rfl

theorem first_slash (h : LoneSlash s) : Piece.first none '/' s = ⟨.code '/', none, s⟩ := by
  simp only [Piece.first]
  split
  · exact absurd rfl h.2
  · exact absurd rfl h.1
  · rfl

end

theorem isPlain_of_isBlank {c : Char} (h : Text.isBlank c = true) : isPlain c = true := by
  refine isPlain_iff.2 ⟨?_, ?_, ?_⟩ <;> rintro rfl <;> revert h <;> decide

-- ---------------------------------------------------------------------------
-- Blanks and comments
-- ---------------------------------------------------------------------------

def startsToken (s : List Char) : Prop :=
  Text.trimStart s = s ∧ readComment? s = .ok none

theorem trivia_iff {s rest : List Char} :
    Trivia s rest ↔ readComment? (Text.trimStart s) = .ok none ∧ Text.trimStart s = rest ∨
      ∃ comment, readComment? (Text.trimStart s) = .ok (some comment) ∧
        Trivia comment.rest rest := by
  constructor
  · rintro ⟨_, h⟩
    rw [skipTrivia] at h
    obtain ⟨comment, hcomment, h⟩ := bind_ok.1 h
    cases comment with
    | none =>
      cases h
      exact .inl ⟨hcomment, rfl⟩
    | some comment =>
      obtain ⟨more, hmore, h⟩ := bind_ok.1 h
      cases h
      exact .inr ⟨comment, hcomment, _, hmore⟩
  · rintro (⟨hnone, hrest⟩ | ⟨comment, hcomment, _, hmore⟩)
    · have hnone : readComment? (skipBlanks s).rest = .ok none := hnone
      rw [Trivia, skipTrivia, hnone]
      exact Skipped.found rfl rfl hrest
    · have hcomment : readComment? (skipBlanks s).rest = .ok (some comment) := hcomment
      rw [Trivia, skipTrivia, hcomment, ok_bind]
      simp only
      rw [hmore]
      exact Skipped.found rfl rfl rfl

theorem Trivia.done {s : List Char} (h : startsToken s) : Trivia s s :=
  trivia_iff.2 (.inl ⟨h.1.symm ▸ h.2, h.1⟩)

theorem Trivia.blank {c : Char} {s rest : List Char} (hc : Text.isBlank c = true)
    (h : Trivia s rest) : Trivia (c :: s) rest := by
  have htrim : Text.trimStart (c :: s) = Text.trimStart s := List.dropWhile_cons_of_pos hc
  rw [trivia_iff] at h ⊢
  rwa [htrim]

theorem startsToken_cons {c : Char} {s : List Char} :
    startsToken (c :: s) ↔ Text.isBlank c = false ∧ (c = '/' → LoneSlash s) := by
  constructor
  · rintro ⟨htrim, hcomment⟩
    refine ⟨?_, ?_⟩
    · rw [← Bool.not_eq_true]
      intro hc
      have hlength := Text.length_trimStart_le s
      rw [show Text.trimStart s = c :: s from (List.dropWhile_cons_of_pos hc).symm.trans htrim,
        List.length_cons] at hlength
      omega
    · rintro rfl
      exact readComment?_slash.1 hcomment
  · rintro ⟨hblank, hslash⟩
    refine ⟨List.dropWhile_cons_of_neg (by simp [hblank]), ?_⟩
    by_cases hc : c = '/'
    · subst hc
      exact readComment?_slash.2 (hslash rfl)
    · exact readComment?_none (by simpa using hc)

def Comment (s rest : List Char) : Prop :=
  ∃ comment, readComment? s = .ok (some comment) ∧ comment.rest = rest

theorem comment_iff {s rest : List Char} :
    Comment s rest ↔ (∃ t, s = '/' :: '/' :: t ∧ dropLine t = rest) ∨
      ∃ t inside, s = '/' :: '*' :: t ∧ closeComment t = some (inside, rest) := by
  constructor
  · rintro ⟨comment, h, rfl⟩
    unfold readComment? at h
    split at h
    · cases h
      exact .inl ⟨_, rfl, rfl⟩
    · split at h
      · cases h
      · rename_i hclose
        cases h
        exact .inr ⟨_, _, rfl, hclose⟩
    · cases h
  · rintro (⟨t, rfl, rfl⟩ | ⟨t, inside, rfl, hclose⟩)
    · exact ⟨_, by rw [readComment?], rfl⟩
    · rw [Comment, readComment?]
      split
      · rename_i hnone
        simp [hclose] at hnone
      · rename_i hsome
        rw [hclose] at hsome
        cases hsome
        exact ⟨_, rfl, rfl⟩

theorem closeComment_append {s inside after : List Char} (h : closeComment s = some (inside, after))
    (u : List Char) : closeComment (s ++ u) = some (inside, after ++ u) := by
  fun_induction closeComment s generalizing inside with
  | case1 => cases h
  | case2 s =>
    cases h
    rfl
  | case3 c s hne ih =>
    obtain ⟨⟨inside', after'⟩, h', e⟩ := Option.map_eq_some_iff.1 h
    cases e
    rw [List.cons_append, closeComment.eq_3 _ _ ?_, ih h']
    · rfl
    · intro t hc ht
      cases s with
      | nil => cases h'
      | cons d s =>
        cases ht
        exact hne s hc rfl

theorem Trivia.comment {s s' rest : List Char} (hcomment : Comment s s') (h : Trivia s' rest) :
    Trivia s rest := by
  have htrim : Text.trimStart s = s := by
    obtain ⟨t, rfl, -⟩ | ⟨t, _, rfl, -⟩ := comment_iff.1 hcomment <;>
      exact List.dropWhile_cons_of_neg (by decide)
  obtain ⟨comment, hcomment, rfl⟩ := hcomment
  refine trivia_iff.2 (.inr ?_)
  rw [htrim]
  exact ⟨comment, hcomment, h⟩

/-- Induction along what is passed over between two tokens, from its end to its start. -/
@[elab_as_elim]
theorem Trivia.induction {rest : List Char} {motive : (s : List Char) → Trivia s rest → Prop}
    (done : ∀ h : startsToken rest, motive rest (.done h))
    (blank : ∀ c s (hc : Text.isBlank c = true) (h : Trivia s rest), motive s h →
      motive (c :: s) (.blank hc h))
    (comment : ∀ s s' (hcomment : Comment s s') (h : Trivia s' rest), motive s' h →
      motive s (.comment hcomment h)) {s : List Char} (h : Trivia s rest) : motive s h := by
  induction hn : s.length using Nat.strongRecOn generalizing s with
  | ind n ih =>
    cases s with
    | nil =>
      obtain ⟨hnone, rfl⟩ | ⟨taken, hcomment, -⟩ := trivia_iff.1 h
      · exact done ⟨rfl, hnone⟩
      · simp [Text.trimStart, readComment?] at hcomment
    | cons c s =>
      by_cases hc : Text.isBlank c = true
      · have htrim : Text.trimStart (c :: s) = Text.trimStart s := List.dropWhile_cons_of_pos hc
        have hs : Trivia s rest := by
          rw [trivia_iff] at h ⊢
          rwa [htrim] at h
        exact blank c s hc hs (ih s.length (by simp [← hn]) hs rfl)
      · have htrim : Text.trimStart (c :: s) = c :: s := List.dropWhile_cons_of_neg hc
        have hnext := trivia_iff.1 h
        rw [htrim] at hnext
        obtain ⟨hnone, rfl⟩ | ⟨taken, hcomment, hmore⟩ := hnext
        · exact done ⟨htrim, hnone⟩
        · exact comment _ _ ⟨taken, hcomment, rfl⟩ hmore (ih _ (hn ▸ taken.shorter) hmore rfl)

theorem Trivia.startsToken {s rest : List Char} (h : Trivia s rest) : startsToken rest := by
  induction h using Trivia.induction with
  | done h => exact h
  | blank _ _ _ _ ih => exact ih
  | comment _ _ _ _ ih => exact ih

def afterTrivia (s : List Char) : Except Fault (List Char) :=
  (skipTrivia s).map Skipped.rest

theorem afterTrivia_eq (s : List Char) : afterTrivia s =
    readComment? (Text.trimStart s) >>= fun comment? =>
      comment?.elim (.ok (Text.trimStart s)) fun comment => afterTrivia comment.rest := by
  rw [afterTrivia, skipTrivia]
  change ((readComment? (Text.trimStart s) >>= _).map Skipped.rest) = _
  cases readComment? (Text.trimStart s) with
  | error fault => rfl
  | ok comment =>
    cases comment with
    | none => rfl
    | some comment =>
      change ((skipTrivia comment.rest >>= _).map Skipped.rest) = afterTrivia comment.rest
      rw [afterTrivia]
      cases skipTrivia comment.rest <;> rfl

theorem afterTrivia_blank {c : Char} (hc : Text.isBlank c = true) (s : List Char) :
    afterTrivia (c :: s) = afterTrivia s := by
  have htrim : Text.trimStart (c :: s) = Text.trimStart s := List.dropWhile_cons_of_pos hc
  rw [afterTrivia_eq, htrim, ← afterTrivia_eq]

theorem Text.trimStart_trimStart (s : List Char) : trimStart (trimStart s) = trimStart s :=
  List.dropWhile_idempotent isBlank s

theorem afterTrivia_trimStart (s : List Char) :
    afterTrivia (Text.trimStart s) = afterTrivia s := by
  rw [afterTrivia_eq, Text.trimStart_trimStart, ← afterTrivia_eq]

theorem afterTrivia_of_startsToken {s : List Char} (h : startsToken s) : afterTrivia s = .ok s := by
  rw [afterTrivia_eq, h.1, h.2]
  rfl

theorem afterTrivia_open {t : List Char} (h : closeComment t = none) :
    afterTrivia ('/' :: '*' :: t) = .error ⟨.unterminatedComment, '/' :: '*' :: t⟩ := by
  rw [afterTrivia_eq, Text.trimStart, List.dropWhile_cons_of_neg (by decide), readComment?]
  split
  · rfl
  · rename_i hclose
    rw [h] at hclose
    cases hclose

theorem afterTrivia_comment {s rest : List Char} (h : Comment s rest) :
    afterTrivia s = afterTrivia rest := by
  have htrim : Text.trimStart s = s := by
    obtain ⟨t, rfl, -⟩ | ⟨t, _, rfl, -⟩ := comment_iff.1 h <;>
      exact List.dropWhile_cons_of_neg (by decide)
  obtain ⟨comment, hcomment, rfl⟩ := h
  rw [afterTrivia_eq, htrim, hcomment]
  rfl

-- ---------------------------------------------------------------------------
-- Strings
-- ---------------------------------------------------------------------------

inductive Grammar.Quoted (quote : Char) : List Char → List Char → Prop
  | nil : Quoted quote [] []
  | escape {c body text} : Quoted quote body text → Quoted quote ('\\' :: c :: body) (c :: text)
  | char {c body text} : c ≠ '\n' → c ≠ '\\' → c ≠ quote → Quoted quote body text →
      Quoted quote (c :: body) (c :: text)

section
variable {quote : Char}

theorem splitQuoted_cons {c : Char} (hfeed : c ≠ '\n') (hslash : c ≠ '\\') (s : List Char) :
    splitQuoted quote (c :: s) = if c = quote then some ([], s)
      else (splitQuoted quote s).map fun (text, rest) => (c :: text, rest) := by
  rw [splitQuoted.eq_def]
  split <;> simp_all

theorem splitQuoted_iff (hfeed : quote ≠ '\n') (hslash : quote ≠ '\\') {s text rest : List Char} :
    splitQuoted quote s = some (text, rest) ↔
      ∃ body, Grammar.Quoted quote body text ∧ s = body ++ quote :: rest := by
  constructor
  · intro h
    fun_induction splitQuoted quote s generalizing text with
    | case1 => cases h
    | case2 => cases h
    | case3 => cases h
    | case4 c s ih =>
      obtain ⟨⟨text', rest'⟩, h', e⟩ := Option.map_eq_some_iff.1 h
      cases e
      obtain ⟨body, hbody, rfl⟩ := ih h'
      exact ⟨_, .escape hbody, rfl⟩
    | case5 =>
      cases h
      exact ⟨[], .nil, rfl⟩
    | case6 c s hnl _ hbs hc ih =>
      obtain ⟨⟨text', rest'⟩, h', e⟩ := Option.map_eq_some_iff.1 h
      cases e
      obtain ⟨body, hbody, rfl⟩ := ih h'
      have hslash : c ≠ '\\' := by
        intro hc'
        cases body <;> exact hbs _ _ hc' rfl
      exact ⟨_, .char hnl hslash hc hbody, rfl⟩
  · rintro ⟨body, hbody, rfl⟩
    induction hbody with
    | nil => rw [List.nil_append, splitQuoted_cons hfeed hslash, if_pos rfl]
    | escape _ ih => rw [List.cons_append, List.cons_append, splitQuoted, ih]; rfl
    | char hc hc' hquote _ ih =>
      rw [List.cons_append, splitQuoted_cons hc hc', if_neg hquote, ih]
      rfl

theorem reads_readQuoted (hquote : quote = '"' ∨ quote = '\'') {s rest : List Char} {v : Value} :
    readQuoted.Reads (quote :: s) v rest ↔
      ∃ body text, Grammar.Quoted quote body text ∧ s = body ++ quote :: rest ∧
        v = .string (String.ofList text) true := by
  have hfeed : quote ≠ '\n' := by rcases hquote with rfl | rfl <;> decide
  have hslash : quote ≠ '\\' := by rcases hquote with rfl | rfl <;> decide
  constructor
  · rintro ⟨_, h⟩
    rw [readQuoted] at h
    split at h
    · cases h
    · rename_i hsplit
      obtain ⟨body, hbody, hs⟩ := (splitQuoted_iff hfeed hslash).1 hsplit
      cases h
      exact ⟨body, _, hbody, hs, rfl⟩
  · rintro ⟨body, text, hbody, hs, rfl⟩
    have hsplit := (splitQuoted_iff hfeed hslash).2 ⟨body, hbody, hs⟩
    rw [Reader.Reads, readQuoted]
    split
    · rename_i hnone
      simp [hnone] at hsplit
    · rename_i hsome
      rw [hsplit] at hsome
      cases hsome
      exact Taken.found rfl rfl rfl

end

-- ---------------------------------------------------------------------------
-- Tokens
-- ---------------------------------------------------------------------------

/-- What is passed over in one go. -/
inductive Token where
  | code (c : Char)
  | comment (text : List Char)
  | string (quote : Char) (body : List Char)
  /-- The text of a selector list or a property, as it was searched for the mark behind it. -/
  | heading (scanned : List Piece)

def quotedPieces : List Char → List Piece
  | '\\' :: c :: s => .quoted ['\\', c] :: quotedPieces s
  | c :: s => .quoted [c] :: quotedPieces s
  | [] => []

def Token.pieces : Token → List Piece
  | .code c => [.code c]
  | .comment text => [.comment text]
  | .string quote body => .quoted [quote] :: quotedPieces body ++ [.quoted [quote]]
  | .heading scanned => scanned

def isValueChar (c : Char) : Bool :=
  isPlain c && !isBlockMark c && c != '(' && c != ')'

/-- The tokens on the way of the cursor through a value. Parentheses are closed where they were
opened. -/
inductive Lexed : List Char → List Token → List Char → Prop
  | nil {s} : Lexed s [] s
  | code {c s ts rest} : isValueChar c = true → Lexed s ts rest →
      Lexed (c :: s) (.code c :: ts) rest
  | comment {text s ts rest} : Comment (text ++ s) s → Lexed s ts rest →
      Lexed (text ++ s) (.comment text :: ts) rest
  | string {quote body s v ts rest} : quote = '"' ∨ quote = '\'' →
      readQuoted.Reads (quote :: (body ++ quote :: s)) v s → Lexed s ts rest →
      Lexed (quote :: (body ++ quote :: s)) (.string quote body :: ts) rest
  | group {s ts s' us rest} : Lexed s ts (')' :: s') → Lexed s' us rest →
      Lexed ('(' :: s) (.code '(' :: ts ++ .code ')' :: us) rest

namespace Lexed

variable {s s' rest : List Char} {ts us : List Token}

theorem trans (h : Lexed s ts s') (h' : Lexed s' us rest) : Lexed s (ts ++ us) rest := by
  induction h with
  | nil => exact h'
  | code hc _ ih => exact .code hc (ih h')
  | comment hcomment _ ih => exact .comment hcomment (ih h')
  | string hquote hread _ ih => exact .string hquote hread (ih h')
  | group hinside _ _ ih =>
    rw [List.append_assoc, List.cons_append]
    exact .group hinside (ih h')

end Lexed

-- ---------------------------------------------------------------------------
-- Tokens in a scan
-- ---------------------------------------------------------------------------

theorem isValueChar_iff {c : Char} : isValueChar c = true ↔
    isPlain c = true ∧ isBlockMark c = false ∧ c ≠ '(' ∧ c ≠ ')' := by
  simp [isValueChar, and_assoc]

theorem isPlain_of_isValueChar {c : Char} (h : isValueChar c = true) : isPlain c = true :=
  (isValueChar_iff.1 h).1

theorem first_comment {text s : List Char} (h : Comment (text ++ s) s) :
    ∃ c t, text ++ s = c :: t ∧ Piece.first none c t = ⟨.comment text, none, s⟩ := by
  obtain ⟨t, ht, hrest⟩ | ⟨t, inside, ht, hclose⟩ := comment_iff.1 h
  · have hcut : Piece.first none '/' ('/' :: t) =
        ⟨.comment ('/' :: '/' :: t.takeWhile (· != '\n')), none, dropLine t⟩ := rfl
    have htext := Piece.text_first none '/' ('/' :: t)
    rw [hcut, ← ht, hrest] at htext
    rw [hrest] at hcut
    exact ⟨_, _, ht, List.append_cancel_right htext ▸ hcut⟩
  · have hcut : Piece.first none '/' ('*' :: t) =
        ⟨.comment ('/' :: '*' :: inside ++ ['*', '/']), none, s⟩ := by
      simp only [Piece.first, hclose]
    have htext := Piece.text_first none '/' ('*' :: t)
    rw [hcut, ← ht] at htext
    exact ⟨_, _, ht, List.append_cancel_right htext ▸ hcut⟩

theorem pieces_comment {text s : List Char} (h : Comment (text ++ s) s) :
    pieces none (text ++ s) = .comment text :: pieces none s := by
  obtain ⟨c, t, ht, hcut⟩ := first_comment h
  rw [ht, pieces_cons, hcut]

theorem quotedPieces_cons {c : Char} (hc : c ≠ '\\') (body : List Char) :
    quotedPieces (c :: body) = .quoted [c] :: quotedPieces body := by
  rw [quotedPieces.eq_def]
  split <;> simp_all

theorem quoted_of_mem_quotedPieces {piece : Piece} {body : List Char}
    (h : piece ∈ quotedPieces body) : ∃ text, piece = .quoted text := by
  fun_induction quotedPieces body with
  | case1 c s ih => exact (List.mem_cons.1 h).elim (⟨_, ·⟩) ih
  | case2 c s _ ih => exact (List.mem_cons.1 h).elim (⟨_, ·⟩) ih
  | case3 => cases h

theorem Token.quoted_of_mem_string {piece : Piece} {quote : Char} {body : List Char}
    (h : piece ∈ (string quote body).pieces) : ∃ text, piece = .quoted text := by
  simp only [pieces, List.cons_append, List.mem_cons, List.mem_append, List.not_mem_nil,
    or_false] at h
  rcases h with h | h | h
  · exact ⟨_, h⟩
  · exact quoted_of_mem_quotedPieces h
  · exact ⟨_, h⟩

theorem first_escape (quote c : Char) (s : List Char) :
    Piece.first (some quote) '\\' (c :: s) = ⟨.quoted ['\\', c], some quote, s⟩ := rfl

theorem first_quoted (quote : Char) {c : Char} (hc : c ≠ '\\') (s : List Char) :
    Piece.first (some quote) c s =
      ⟨.quoted [c], if c = quote then none else some quote, s⟩ := by
  simp only [Piece.first]
  split
  · exact absurd rfl hc
  · rfl

theorem first_quote {quote : Char} (h : quote = '"' ∨ quote = '\'') (s : List Char) :
    Piece.first none quote s = ⟨.quoted [quote], some quote, s⟩ := by
  have hslash : quote ≠ '/' := by rcases h with rfl | rfl <;> decide
  simp only [Piece.first]
  split
  · exact absurd rfl hslash
  · exact absurd rfl hslash
  · rw [if_pos h]

theorem ne_backslash {quote : Char} (h : quote = '"' ∨ quote = '\'') : quote ≠ '\\' := by
  rcases h with rfl | rfl <;> decide

section
variable {quote : Char} {body text : List Char}

theorem Scans.quoted (hquote : quote ≠ '\\') (h : Grammar.Quoted quote body text)
    (s : List Char) :
    Scans (some quote) (body ++ quote :: s) (quotedPieces body ++ [.quoted [quote]]) none s := by
  induction h with
  | nil =>
    refine .cons (first_quoted quote hquote s) ?_
    rw [if_pos rfl]
    exact .nil
  | escape _ ih =>
    rw [quotedPieces]
    exact .cons (first_escape quote _ _) ih
  | char _ hslash hc _ ih =>
    rw [quotedPieces_cons hslash]
    refine .cons (first_quoted quote hslash _) ?_
    rwa [if_neg hc]

theorem pieces_quoted (hquote : quote ≠ '\\') (h : Grammar.Quoted quote body text)
    (s : List Char) :
    pieces (some quote) (body ++ quote :: s) =
      quotedPieces body ++ .quoted [quote] :: pieces none s := by
  rw [(Scans.quoted hquote h s).pieces_eq, List.append_assoc, List.singleton_append]

end

namespace Lexed

variable {s rest : List Char} {ts : List Token}

/-- What the cursor passes over as a token, the scan cuts into the pieces of that token, and behind
it no string is open. -/
theorem scans (h : Lexed s ts rest) : Scans none s (ts.flatMap Token.pieces) none rest := by
  induction h with
  | nil => exact .nil
  | code hc _ ih => exact .cons (first_plain (isPlain_of_isValueChar hc) _) ih
  | comment hcomment _ ih =>
    obtain ⟨c, t, ht, hcut⟩ := first_comment hcomment
    rw [ht]
    exact .cons hcut ih
  | @string quote body s v ts rest hquote hread _ ih =>
    obtain ⟨body', text, hbody, hs, -⟩ := (reads_readQuoted hquote).1 hread
    obtain rfl := List.append_cancel_right hs
    have hinside := Scans.quoted (ne_backslash hquote) hbody s
    exact .cons (first_quote hquote _) (hinside.trans ih)
  | @group s ts s' us rest _ _ ihinside ih =>
    have hclose := Scans.cons (first_plain (show isPlain ')' = true by decide) s') ih
    have hgroup := Scans.cons (first_plain (show isPlain '(' = true by decide) s)
      (ihinside.trans hclose)
    simpa [Token.pieces] using hgroup

theorem pieces_eq (h : Lexed s ts rest) :
    pieces none s = ts.flatMap Token.pieces ++ pieces none rest :=
  h.scans.pieces_eq

theorem forall_token {P : Token → Prop} (hcode : ∀ c, isBlockMark c = false → P (.code c))
    (hcomment : ∀ text, P (.comment text)) (hstring : ∀ quote body, P (.string quote body))
    (h : Lexed s ts rest) : ∀ token ∈ ts, P token := by
  induction h with
  | nil => simp
  | code hc _ ih => exact List.forall_mem_cons.2 ⟨hcode _ (isValueChar_iff.1 hc).2.1, ih⟩
  | comment _ _ ih => exact List.forall_mem_cons.2 ⟨hcomment _, ih⟩
  | string _ _ _ ih => exact List.forall_mem_cons.2 ⟨hstring _ _, ih⟩
  | group _ _ ihinside ih =>
    simp only [List.cons_append, List.forall_mem_cons, List.forall_mem_append]
    exact ⟨hcode '(' (by decide), ihinside, hcode ')' (by decide), ih⟩

theorem isBlockMark_eq_false (h : Lexed s ts rest) {c : Char}
    (hc : .code c ∈ ts.flatMap Token.pieces) : isBlockMark c = false := by
  obtain ⟨token, htoken, hc⟩ := List.mem_flatMap.1 hc
  revert token
  refine h.forall_token (fun d hd hc => ?_) (fun text hc => ?_) fun quote body hc => ?_
  · cases List.mem_singleton.1 hc
    exact hd
  · cases List.mem_singleton.1 hc
  · obtain ⟨text, hquoted⟩ := Token.quoted_of_mem_string hc
    cases hquoted

end Lexed

end HostSheet
