import HostSheet.Cursor.Scan
import HostSheet.Proofs.Cursor.Tracking
import HostSheet.Proofs.Sheet.Appending

/-!
# Scans by offsets

A scan by offsets goes through the pieces of a text. It finds the same mark, and it leaves out the
same comments.
-/

namespace HostSheet

def Piece.kind : Piece → SpanKind
  | .code c => .code c
  | .quoted _ => .quoted
  | .comment _ => .comment

section
variable {quote : Option Char} {c : Char} {s text : List Char}

-- ---------------------------------------------------------------------------
-- One piece
-- ---------------------------------------------------------------------------

theorem Piece.first_backslash (q : Char) :
    first (some q) '\\' [] = ⟨.quoted ['\\'], if '\\' = q then none else some q, []⟩ := rfl

theorem Piece.quote_first_ne (h : quote ≠ some '\\') (c : Char) (s : List Char) :
    (first quote c s).quote ≠ some '\\' := by
  cases quote with
  | some q =>
    by_cases hc : c = '\\'
    · subst hc
      cases s with
      | nil => rwa [first_backslash, if_neg fun hq => h (congrArg some hq.symm)]
      | cons d s => exact h
    · rw [first_quoted q hc]
      split
      · exact Option.some_ne_none _ |>.symm
      · exact h
  | none =>
    simp only [first]
    split
    · split <;> exact Option.some_ne_none _ |>.symm
    · exact Option.some_ne_none _ |>.symm
    · split
      · rename_i hquote
        exact fun hc => ne_backslash hquote (Option.some.inj hc)
      · exact Option.some_ne_none _ |>.symm

theorem Scan.measure_string {q : Char} (h : q ≠ '\\') (c : Char) (s : List Char) :
    measure (some q) c s = some (Source.byteLength (Piece.first (some q) c s).piece.text,
      (Piece.first (some q) c s).piece.kind, (Piece.first (some q) c s).quote) := by
  by_cases hc : c = '\\'
  · subst hc
    have hslice : Source.sliceFrom? ('\\' :: s) 1 = some s := Source.sliceFrom?_append ['\\'] s
    rw [measure, if_pos rfl, hslice]
    cases s with
    | nil =>
      rw [Piece.first_backslash, if_neg h.symm]
      rfl
    | cons d s => rfl
  · rw [measure, if_neg hc, first_quoted q hc]
    rfl

theorem Scan.measure_code (c : Char) (s : List Char) :
    measure none c s = some (Source.byteLength (Piece.first none c s).piece.text,
      (Piece.first none c s).piece.kind, (Piece.first none c s).quote) := by
  rw [measure]
  split
  · rename_i hopen
    obtain ⟨t, ht⟩ := Source.isPrefixOf_pair.1 hopen
    cases ht
    rw [Source.sliceFrom?_pair rfl rfl]
    simp only [Option.bind_eq_bind, Option.bind_some, Source.find?_close, Piece.first]
    cases closeComment t with
    | none => rfl
    | some closed =>
      exact congrArg (fun bytes => some (bytes, SpanKind.comment, none))
        (Source.byteLength_comment closed.1).symm
  split
  · rename_i hline
    obtain ⟨t, ht⟩ := Source.isPrefixOf_pair.1 hline
    cases ht
    exact congrArg (fun bytes => some (bytes, SpanKind.comment, none))
      (Source.findChar?_getD (· == '\n') ('/' :: '/' :: t))
  split
  · rename_i hquote
    rw [first_quote hquote]
    rcases hquote with rfl | rfl <;> rfl
  · rename_i hopen hline hquote
    have hplain : Piece.first none c s = ⟨.code c, none, s⟩ := by
      simp only [Piece.first]
      split
      · exact absurd (Source.isPrefixOf_pair.2 ⟨_, rfl⟩) hopen
      · exact absurd (Source.isPrefixOf_pair.2 ⟨_, rfl⟩) hline
      · rw [if_neg hquote]
    rw [hplain]
    rfl

theorem Scan.measure_eq (h : quote ≠ some '\\') (c : Char) (s : List Char) :
    measure quote c s = some (Source.byteLength (Piece.first quote c s).piece.text,
      (Piece.first quote c s).piece.kind, (Piece.first quote c s).quote) := by
  cases quote with
  | some q => exact measure_string (fun hq => h (congrArg some hq)) c s
  | none => exact measure_code c s

-- ---------------------------------------------------------------------------
-- Piece by piece
-- ---------------------------------------------------------------------------

theorem Scan.next_nil (text : List Char) (quote : Option Char) :
    next text ⟨Source.offsetOf text [], quote⟩ = some none := by
  rw [next, Source.sliceFrom?_offsetOf List.nil_suffix]
  rfl

theorem Scan.next_cons (hquote : quote ≠ some '\\') (hs : c :: s <:+ text) :
    next text ⟨Source.offsetOf text (c :: s), quote⟩ =
      some (some (⟨Source.offsetOf text (c :: s),
          Source.offsetOf text (Piece.first quote c s).rest, (Piece.first quote c s).piece.kind⟩,
        ⟨Source.offsetOf text (Piece.first quote c s).rest, (Piece.first quote c s).quote⟩)) := by
  rw [← Piece.text_first quote c s] at hs
  have hstop := Source.add_offsetOf _ hs
  rw [Piece.text_first] at hs hstop
  rw [next, Source.sliceFrom?_offsetOf hs]
  simp only [Option.bind_eq_bind, Option.bind_some, measure_eq hquote, hstop]
  rfl

theorem Scan.findInCode_cons (isMark : Char → Bool) (depth : Nat) (hquote : quote ≠ some '\\')
    (hs : c :: s <:+ text) :
    findInCode isMark text depth ⟨Source.offsetOf text (c :: s), quote⟩ =
      if (Piece.first quote c s).piece.marks isMark depth then
        some (some (Source.offsetOf text (c :: s)))
      else findInCode isMark text ((Piece.first quote c s).piece.depthBehind depth)
        ⟨Source.offsetOf text (Piece.first quote c s).rest, (Piece.first quote c s).quote⟩ := by
  rw [findInCode, Scan.next_cons hquote hs]
  cases (Piece.first quote c s).piece <;>
    simp only [Piece.kind, Piece.marks, Piece.depthBehind, Bool.and_eq_true, beq_iff_eq,
      Bool.false_eq_true, if_false] <;> rfl

theorem Scan.findInCode_eq (isMark : Char → Bool) (depth : Nat) (hquote : quote ≠ some '\\')
    (hs : s <:+ text) :
    findInCode isMark text depth ⟨Source.offsetOf text s, quote⟩ =
      some ((findMark isMark quote depth s).map fun found => Source.offsetOf text found.2) := by
  induction hn : s.length using Nat.strongRecOn generalizing s quote depth with
  | ind n ih =>
    cases s with
    | nil =>
      rw [findInCode, Scan.next_nil, findMark]
      rfl
    | cons c s =>
      have hrest : (Piece.first quote c s).rest <:+ text :=
        List.IsSuffix.trans ⟨_, Piece.text_first quote c s⟩ hs
      rw [findInCode_cons isMark depth hquote hs, findMark_cons]
      split
      · rfl
      · rw [ih _ (hn ▸ Piece.length_first_rest quote c s) _ (Piece.quote_first_ne hquote c s) hrest
          rfl, Option.map_map]
        rfl

theorem Scan.stripComments_eq (hquote : quote ≠ some '\\') (hs : s <:+ text) :
    stripComments text ⟨Source.offsetOf text s, quote⟩ =
      some (withoutComments (pieces quote s)) := by
  induction hn : s.length using Nat.strongRecOn generalizing s quote with
  | ind n ih =>
    cases s with
    | nil =>
      rw [stripComments, Scan.next_nil, pieces_nil]
      rfl
    | cons c s =>
      have hcut := Piece.text_first quote c s
      have hrest : (Piece.first quote c s).rest <:+ text := List.IsSuffix.trans ⟨_, hcut⟩ hs
      have hmore := ih _ (hn ▸ Piece.length_first_rest quote c s) (Piece.quote_first_ne hquote c s)
        hrest rfl
      have hslice : Source.slice? text (Source.offsetOf text (c :: s))
          (Source.offsetOf text (Piece.first quote c s).rest) =
            some (Piece.first quote c s).piece.text := by
        nth_rewrite 1 [← hcut]
        exact Source.slice?_offsetOf (hcut ▸ hs)
      rw [stripComments, Scan.next_cons hquote hs, pieces_cons]
      simp only [Option.bind_eq_bind, Option.bind_some, hmore]
      cases hpiece : (Piece.first quote c s).piece with
      | comment => rfl
      | code d =>
        rw [hpiece] at hslice
        simp only [Piece.kind, hslice, Option.bind_some]
        rfl
      | quoted d =>
        rw [hpiece] at hslice
        simp only [Piece.kind, hslice, Option.bind_some]
        rfl

-- ---------------------------------------------------------------------------
-- The text in front of a mark
-- ---------------------------------------------------------------------------

theorem ne_closed {t : List Char} (h : closeComment t = none) (inside after : List Char) :
    t ≠ inside ++ '*' :: '/' :: after := by
  fun_induction closeComment t generalizing inside with
  | case1 => simp
  | case2 => cases h
  | case3 c t hopen ih =>
    intro ht
    cases inside with
    | nil =>
      cases ht
      exact hopen after rfl rfl
    | cons d inside =>
      cases ht
      exact ih (Option.map_eq_none_iff.1 h) inside rfl

theorem closeComment_front {front rest inside after : List Char}
    (h : closeComment (front ++ rest) = some (inside, after ++ rest)) :
    closeComment front = some (inside, after) := by
  have hfront : inside ++ '*' :: '/' :: after = front :=
    List.append_cancel_right (by simpa using closeComment_eq h)
  obtain ⟨⟨inside', after'⟩, hclose⟩ :=
    Option.ne_none_iff_exists'.1 fun hnone => ne_closed hnone inside after hfront.symm
  rw [closeComment_append hclose] at h
  simp only [Option.some.injEq, Prod.mk.injEq, List.append_cancel_right_eq] at h
  rw [hclose, h.1, h.2]

theorem dropLine_front {front rest after : List Char}
    (h : dropLine (front ++ rest) = after ++ rest) : dropLine front = after := by
  by_cases hline : dropLine front = []
  · have hlength := length_dropLine_le rest
    rw [dropLine, List.dropWhile_append, if_pos (by simpa [dropLine] using hline), ← dropLine] at h
    rw [h, List.length_append] at hlength
    rw [hline, List.length_eq_zero_iff.1 (Nat.le_zero.1 (by omega) : after.length = 0)]
  · rw [dropLine_append rest hline] at h
    exact List.append_cancel_right h

theorem takeLine_front {front rest after : List Char}
    (h : dropLine (front ++ rest) = after ++ rest) :
    (front ++ rest).takeWhile (· != '\n') = front.takeWhile (· != '\n') := by
  have htext : (front ++ rest).takeWhile (· != '\n') ++ dropLine (front ++ rest) = front ++ rest :=
    List.takeWhile_append_dropWhile
  have hfront : front.takeWhile (· != '\n') ++ dropLine front = front :=
    List.takeWhile_append_dropWhile
  rw [h, ← List.append_assoc] at htext
  rw [dropLine_front h] at hfront
  exact List.append_cancel_right ((List.append_cancel_right htext).trans hfront.symm)

theorem Piece.text_comment (h : ¬ LoneSlash s) :
    ∃ d u, (first none '/' s).piece.text = '/' :: d :: u := by
  obtain ⟨t, rfl | rfl⟩ := not_loneSlash h
  · exact ⟨_, _, rfl⟩
  · simp only [first]
    split <;> exact ⟨_, _, rfl⟩

theorem Piece.first_comment_front {quote' : Option Char} {piece : Piece}
    {t front after rest : List Char} (ht : front = '/' :: t ∨ front = '*' :: t)
    (hcut : first none '/' (front ++ rest) = ⟨piece, quote', after ++ rest⟩) :
    first none '/' front = ⟨piece, quote', after⟩ := by
  obtain rfl | rfl := ht
  · simp only [List.cons_append, first, Cut.mk.injEq] at hcut ⊢
    obtain ⟨hpiece, hquote, hline⟩ := hcut
    exact ⟨takeLine_front hline ▸ hpiece, hquote, dropLine_front hline⟩
  · simp only [List.cons_append, first] at hcut ⊢
    split at hcut
    · rename_i hclose
      simp only [Cut.mk.injEq] at hcut
      obtain ⟨rfl, rfl, rfl⟩ := hcut
      rw [closeComment_front hclose]
    · rename_i hopen
      simp only [Cut.mk.injEq] at hcut
      obtain ⟨rfl, rfl, hend⟩ := hcut
      obtain ⟨rfl, rfl⟩ := List.append_eq_nil_iff.1 hend.symm
      rw [List.append_nil] at hopen ⊢
      rw [hopen]

theorem Piece.first_string_front {q : Char} {quote' : Option Char} {piece : Piece}
    {front after rest : List Char} (htext : piece.text ++ after = c :: front)
    (hcut : first (some q) c (front ++ rest) = ⟨piece, quote', after ++ rest⟩) :
    first (some q) c front = ⟨piece, quote', after⟩ := by
  by_cases hc : c = '\\'
  · subst hc
    cases front with
    | nil =>
      cases rest with
      | nil => rwa [List.append_nil, List.append_nil] at hcut
      | cons d rest =>
        rw [List.nil_append, first_escape] at hcut
        simp only [Cut.mk.injEq] at hcut
        obtain ⟨rfl, -⟩ := hcut
        cases htext
    | cons d front =>
      rw [List.cons_append, first_escape] at hcut
      rw [first_escape]
      simpa using hcut
  · rw [first_quoted q hc] at hcut ⊢
    simpa using hcut

theorem Piece.first_slash_front {quote' : Option Char} {piece : Piece}
    {front after rest : List Char} (htext : piece.text ++ after = '/' :: front)
    (hcut : first none '/' (front ++ rest) = ⟨piece, quote', after ++ rest⟩) :
    first none '/' front = ⟨piece, quote', after⟩ := by
  by_cases hlone : LoneSlash (front ++ rest)
  · have hlone' : LoneSlash front := by
      cases front with
      | nil => simp [LoneSlash]
      | cons d front => exact hlone
    rw [first_slash hlone] at hcut
    rw [first_slash hlone']
    simpa using hcut
  · cases front with
    | nil =>
      obtain ⟨d, u, hcomment⟩ := text_comment hlone
      rw [hcut] at hcomment
      rw [show piece.text = _ from hcomment] at htext
      cases htext
    | cons d front =>
      obtain ⟨t, ht⟩ := not_loneSlash hlone
      refine first_comment_front (t := front) ?_ hcut
      obtain ht | ht := ht <;> cases ht
      · exact .inl rfl
      · exact .inr rfl

theorem Piece.first_front {quote' : Option Char} {piece : Piece} {front after rest : List Char}
    (hcut : first quote c (front ++ rest) = ⟨piece, quote', after ++ rest⟩) :
    first quote c front = ⟨piece, quote', after⟩ := by
  -- Two characters can make up a piece together. Then both are in front of the text.
  have htext : piece.text ++ after = c :: front := by
    have htext := text_first quote c (front ++ rest)
    rw [hcut, ← List.append_assoc, ← List.cons_append] at htext
    exact List.append_cancel_right htext
  cases quote with
  | some q => exact first_string_front htext hcut
  | none =>
    by_cases hplain : isPlain c = true
    · rw [first_plain hplain] at hcut ⊢
      simpa using hcut
    rcases isPlain_eq_false.1 (Bool.eq_false_iff.2 hplain) with rfl | hquote
    · exact first_slash_front htext hcut
    · rw [first_quote hquote] at hcut ⊢
      simpa using hcut

/-- The text in front of a mark is scanned as before. -/
theorem Found.pieces_front {isMark : Char → Bool} {depth : Nat} {before : List Piece}
    {rest : List Char} (h : Found isMark quote depth s before rest) :
    pieces quote (before.flatMap Piece.text) = before := by
  induction h with
  | here => exact pieces_nil _
  | @there quote depth c s piece quote' s' before rest hcut hmark hmore ih =>
    have hmore := text_findMark (findMark_iff.2 hmore)
    have htext := Piece.text_first quote c s
    rw [hcut, ← hmore] at htext
    rw [List.flatMap_cons]
    obtain ⟨front, hfront⟩ : ∃ front, piece.text ++ before.flatMap Piece.text = c :: front := by
      have hne := Piece.text_first_ne_nil quote c s
      rw [hcut] at hne
      obtain ⟨d, u, hu⟩ := List.exists_cons_of_ne_nil hne
      rw [show piece.text = _ from hu] at htext ⊢
      cases htext
      exact ⟨_, rfl⟩
    rw [← List.append_assoc, hfront, List.cons_append, List.cons.injEq] at htext
    rw [← htext.2, ← hmore] at hcut
    rw [hfront, pieces_cons, Piece.first_front hcut, ih]

end

namespace CursorM

variable {isMark : Char → Bool} {mark : Char} {source s : List Char} {depth : Nat}

theorem findInCode_start (isMark : Char → Bool) (s : List Char) :
    Scan.findInCode isMark s 0 {} =
      some ((findMark isMark none 0 s).map fun found => Source.offsetOf s found.2) := by
  have hscan := Scan.findInCode_eq isMark 0 (Option.some_ne_none '\\').symm (List.suffix_refl s)
  rwa [Source.offsetOf_self] at hscan

theorem findMark_of_textBefore? {name : Taken (List Char) s}
    (h : textBefore? isMark mark s = some name) :
    ∃ before, findMark isMark none 0 s = some (before, mark :: name.rest) ∧
      name.value = withoutComments before := by
  obtain ⟨_, htext⟩ := textBefore?_some.1 ⟨name.shorter, h⟩
  generalize name.value = text at htext ⊢
  obtain ⟨hfound⟩ := htext
  exact ⟨_, hfound, rfl⟩

theorem exec_bytesBefore?_none (hs : s <:+ source) (h : textBefore? isMark mark s = none) :
    (bytesBefore? isMark mark).exec source (.facing source s depth) =
      some (.ok (none, .facing source s depth)) := by
  rw [bytesBefore?, exec_bind_ok (exec_rest hs), exec_bind_ok (exec_slice (findInCode_start ..))]
  cases hfound : findMark isMark none 0 s with
  | none => rfl
  | some found =>
    obtain ⟨before, rest⟩ := found
    have hslice := Source.sliceFrom?_offsetOf (findMark_suffix hfound)
    have hmark : rest.head? ≠ some mark := by
      intro hhead
      obtain ⟨t, rfl⟩ := List.head?_eq_some_iff.1 hhead
      obtain ⟨_, htext⟩ := textBefore?_some.2 ⟨_, .mk hfound⟩
      rw [h] at htext
      cases htext
    refine (exec_bind_ok (exec_rest hs) _).trans ((exec_bind_ok (exec_slice hslice) _).trans ?_)
    rw [if_neg hmark]
    rfl

section
variable {name : Taken (List Char) s} (hs : s <:+ source)
  (h : textBefore? isMark mark s = some name)
include hs h

theorem exec_bytesBefore?_some :
    (bytesBefore? isMark mark).exec source (.facing source s depth) =
      some (.ok (some (Source.offsetOf s (mark :: name.rest)), .facing source s depth)) := by
  obtain ⟨before, hfound, -⟩ := findMark_of_textBefore? h
  have hslice := Source.sliceFrom?_offsetOf (findMark_suffix hfound)
  rw [bytesBefore?, exec_bind_ok (exec_rest hs), exec_bind_ok (exec_slice (findInCode_start ..)),
    hfound]
  refine (exec_bind_ok (exec_rest hs) _).trans ((exec_bind_ok (exec_slice hslice) _).trans ?_)
  rw [if_pos List.head?_cons]
  rfl

/-- The text in front of a mark is as it was when the mark was searched for. -/
theorem exec_textAhead :
    (textAhead (Source.offsetOf s (mark :: name.rest))).exec source (.facing source s depth) =
      some (.ok (name.value, .facing source s depth)) := by
  obtain ⟨before, hfound, hname⟩ := findMark_of_textBefore? h
  have hslice : Source.sliceTo? s (Source.offsetOf s (mark :: name.rest)) =
      some (before.flatMap Piece.text) :=
    Source.sliceTo?_offsetOf (text_findMark hfound)
  have hstrip : Scan.stripComments (before.flatMap Piece.text) {} = some name.value := by
    have hscan := Scan.stripComments_eq (Option.some_ne_none '\\').symm
      (List.suffix_refl (before.flatMap Piece.text))
    rw [Source.offsetOf_self, (findMark_iff.1 hfound).pieces_front, ← hname] at hscan
    exact hscan
  rw [textAhead, exec_bind_ok (exec_rest hs), exec_bind_ok (exec_slice hslice)]
  exact exec_slice hstrip

end

end CursorM

end HostSheet
