import HostSheet.Cursor.Literal
import HostSheet.Proofs.Cursor.Tracking
import HostSheet.Proofs.Sheet.Literals
import HostSheet.Proofs.Sheet.Passing

/-!
# Literals read by a cursor

A literal is the text that the cursor has passed over. The digits of a colour are one byte each, so
they can be cut two by two; the text of a number is read again as the parts it was passed over by.
-/

namespace HostSheet

-- ---------------------------------------------------------------------------
-- Digits
-- ---------------------------------------------------------------------------

section
variable {c d : Char} {s digits : List Char}

theorem utf8Size_of_isHexDigit (h : isHexDigit c = true) : c.utf8Size = 1 := by
  simp only [isHexDigit, Bool.or_eq_true, isDigit_iff, Bool.and_eq_true, decide_eq_true_eq,
    Char.le_def, UInt32.le_iff_toNat_le] at h
  rw [Char.utf8Size_eq_one_iff, UInt32.le_iff_toNat_le]
  simp at h ⊢
  omega

theorem hexValue_lt (h : isHexDigit c = true) : hexValue c < 16 := by
  simp only [isHexDigit, Bool.or_eq_true, isDigit_iff, Bool.and_eq_true, decide_eq_true_eq,
    Char.le_def, UInt32.le_iff_toNat_le] at h
  simp only [hexValue, isDigit_iff, Char.le_def, UInt32.le_iff_toNat_le, Char.toNat]
  simp at h ⊢
  split <;> [skip; split] <;> omega

theorem hexByte?_pair (hc : isHexDigit c = true) (hd : isHexDigit d = true) :
    hexByte? [c, d] = some (channel c d) := by
  have hc' := hexValue_lt hc
  have hd' := hexValue_lt hd
  have hvalue : [c, d].foldl (fun n c => 16 * n + hexValue c) 0 = 16 * hexValue c + hexValue d := by
    simp
  rw [hexByte?, hvalue, if_pos ⟨by simp, by simp [hc, hd], by omega⟩, channel]

theorem byteLength_ascii (hs : ∀ c ∈ s, c.utf8Size = 1) : Source.byteLength s = s.length := by
  induction s with
  | nil => rfl
  | cons c s ih =>
    obtain ⟨hc, hs⟩ := List.forall_mem_cons.1 hs
    rw [Source.byteLength, hc, ih hs, List.length_cons, Nat.add_comm]

theorem slice?_ascii (hs : ∀ c ∈ s, c.utf8Size = 1) {start stop : Nat} (hstart : start ≤ stop)
    (hstop : stop ≤ s.length) :
    Source.slice? s start stop = some ((s.take stop).drop start) := by
  have htake : ∀ n ≤ s.length, Source.byteLength (s.take n) = n := by
    intro n hn
    rw [byteLength_ascii fun c hc => hs c (List.mem_of_mem_take hc), List.length_take_of_le hn]
  have hto := Source.sliceTo?_append (s.take stop) (s.drop stop)
  have hfrom := Source.sliceFrom?_append ((s.take stop).take start) ((s.take stop).drop start)
  rw [List.take_append_drop, htake _ hstop] at hto
  rw [List.take_append_drop, List.take_take, Nat.min_eq_left hstart,
    htake _ (Nat.le_trans hstart hstop)] at hfrom
  rw [Source.slice?, hto]
  exact hfrom

theorem colorOf_eq (h : ∀ c ∈ digits, isHexDigit c = true) :
    colorOf digits = some (hexColor? digits) := by
  have hascii : ∀ c ∈ digits, c.utf8Size = 1 := fun c hc => utf8Size_of_isHexDigit (h c hc)
  rw [colorOf, byteLength_ascii hascii]
  split
  · rename_i hlength
    obtain ⟨r, g, b, rfl⟩ := List.length_eq_three.1 hlength
    simp only [List.forall_mem_cons] at h
    obtain ⟨hr, hg, hb, -⟩ := h
    simp (disch := simp) only [slice?_ascii hascii]
    simp [hexByte?_pair, hr, hg, hb, hexColor?]
  · rename_i hlength
    match digits, hlength with
    | [r, r', g, g', b, b'], _ =>
      simp only [List.forall_mem_cons] at h
      obtain ⟨hr, hr', hg, hg', hb, hb', -⟩ := h
      simp (disch := simp) only [slice?_ascii hascii]
      simp [hexByte?_pair, hr, hr', hg, hg', hb, hb', hexColor?]
  · rename_i hlength
    match digits, hlength with
    | [r, r', g, g', b, b', a, a'], _ =>
      simp only [List.forall_mem_cons] at h
      obtain ⟨hr, hr', hg, hg', hb, hb', ha, ha', -⟩ := h
      simp (disch := simp) only [slice?_ascii hascii]
      simp [hexByte?_pair, hr, hr', hg, hg', hb, hb', ha, ha', hexColor?]
  · rename_i h3 h6 h8
    have hnone : hexColor? digits = none := by
      unfold hexColor?
      split
      · exact absurd rfl h3
      · exact absurd rfl h6
      · exact absurd rfl h8
      · rfl
    rw [hnone]
    rfl

end

namespace CursorM

variable {source s : List Char} {depth : Nat}

-- ---------------------------------------------------------------------------
-- Colours and strings
-- ---------------------------------------------------------------------------

theorem startsWithNameChar_eq (s : List Char) : startsWithNameChar s = s.head?.any isNameChar := by
  cases s <;> rfl

theorem tracks_parseColor (hs : '#' :: s <:+ source) :
    Tracks source depth parseColor ('#' :: s) (readColor ('#' :: s))
      (fun taken => .literal taken.value) Taken.rest := by
  have hs' := (List.suffix_cons '#' s).trans hs
  have htext := List.takeWhile_append_dropWhile (p := isHexDigit) (l := s)
  have hbehind := List.dropWhile_suffix isHexDigit (l := s)
  have hcolor : colorOf (s.takeWhile isHexDigit) = some (hexColor? (s.takeWhile isHexDigit)) :=
    colorOf_eq fun _ => List.mem_takeWhile_imp
  rw [parseColor, readColor, startsWithNameChar_eq]
  refine .step exec_offset (.step (exec_expect hs) (.step (exec_rest hs') ?_))
  simp only [Source.findChar?_offsetOf, Bool.not_not]
  refine .step (exec_slice (Source.sliceTo?_offsetOf htext)) ?_
  refine .step (exec_advance_offsetOf hbehind hs') (.step (exec_peek (hbehind.trans hs')) ?_)
  refine .branch (fun _ => .failAt hs _) fun _ => .step (exec_slice hcolor) ?_
  cases hexColor? (s.takeWhile isHexDigit) with
  | none => exact .failAt hs _
  | some color => exact .pure (hbehind.trans hs') rfl rfl

theorem ne_backslash_of_not_escape {c : Char} (hend : c = '\\' → s = [] → False)
    (hescape : ∀ d t, c = '\\' → s = d :: t → False) : c ≠ '\\' := by
  intro hc
  cases s with
  | nil => exact hend hc rfl
  | cons d s => exact hescape d s hc rfl

theorem exec_quotedText_cons {c : Char} (hfeed : c ≠ '\n') (hslash : c ≠ '\\') (start : Nat)
    (quote : Char) (hs : c :: s <:+ source) :
    (quotedText start quote).exec source (.facing source (c :: s) depth) =
      CursorM.exec (if c = quote then pure [] else do return c :: (← quotedText start quote))
        source (.facing source s depth) := by
  nth_rewrite 1 [quotedText]
  rw [exec_bind_ok (exec_bump hs)]
  split
  · cases ‹some c = none›
  · cases ‹some c = some '\n'›
    exact absurd rfl hfeed
  · cases ‹some c = some '\\'›
    exact absurd rfl hslash
  · cases ‹some c = some _›
    rfl

theorem Tracks.push {p : CursorM (List Char)} {found : Option (List Char × List Char)}
    {fault : Fault} (c : Char)
    (h : Tracks source depth p s (found.elim (.error fault) .ok) Prod.fst Prod.snd) :
    Tracks source depth (do return c :: (← p)) s
      ((found.map fun (text, rest) => (c :: text, rest)).elim (.error fault) .ok)
      Prod.fst Prod.snd := by
  cases found with
  | none => exact ⟨exec_bind_error h.1 _, h.2⟩
  | some found => exact .step h.1 (.pure h.2 rfl rfl)

theorem tracks_quotedText {start : List Char} (hstart : start <:+ source) (quote : Char)
    (hs : s <:+ source) :
    Tracks source depth (quotedText (Source.offsetOf source start) quote) s
      ((splitQuoted quote s).elim (.error ⟨.unterminatedString, start⟩) .ok) Prod.fst Prod.snd := by
  fun_induction splitQuoted quote s with
  | case1 =>
    rw [quotedText]
    exact .step exec_bump_nil (.failAt hstart _)
  | case2 s =>
    rw [quotedText]
    exact .step (exec_bump hs) (.failAt hstart _)
  | case3 =>
    rw [quotedText]
    refine .step (exec_bump hs) ?_
    exact .step exec_bump_nil (.failAt hstart _)
  | case4 c s ih =>
    have hs' := (List.suffix_cons _ _).trans hs
    rw [quotedText]
    refine .step (exec_bump hs) ?_
    exact .step (exec_bump hs') ((ih ((List.suffix_cons _ _).trans hs')).push c)
  | case5 s hfeed hend hescape =>
    have hs' := (List.suffix_cons _ _).trans hs
    have hslash := ne_backslash_of_not_escape hend hescape
    refine .of_exec (exec_quotedText_cons hfeed hslash _ _ hs) ?_
    rw [if_pos rfl]
    exact .pure hs' rfl rfl
  | case6 c s hfeed hend hescape hquote ih =>
    have hs' := (List.suffix_cons _ _).trans hs
    have hslash := ne_backslash_of_not_escape hend hescape
    refine .of_exec (exec_quotedText_cons hfeed hslash _ _ hs) ?_
    rw [if_neg hquote]
    exact (ih hs').push c

theorem tracks_parseQuoted {quote : Char} (hs : quote :: s <:+ source) :
    Tracks source depth parseQuoted (quote :: s) (readQuoted (quote :: s))
      (fun taken => .literal taken.value) Taken.rest := by
  have hs' := (List.suffix_cons quote s).trans hs
  have htext : Tracks source depth _ s _ Prod.fst Prod.snd := tracks_quotedText hs quote hs'
  rw [parseQuoted, readQuoted]
  refine .step exec_offset (.step (exec_bump hs) ?_)
  split
  · rename_i hsplit
    rw [hsplit] at htext
    exact ⟨exec_bind_error htext.1 _, hs⟩
  · rename_i text rest hsplit
    rw [hsplit] at htext
    exact .step htext.1 (.pure htext.2 rfl rfl)

-- ---------------------------------------------------------------------------
-- Numbers
-- ---------------------------------------------------------------------------

open NumberText

theorem exec_passSign (hs : s <:+ source) :
    passSign.exec source (.facing source s depth) =
      some (.ok ((), .facing source (splitSign s).2 depth)) := by
  rw [passSign, exec_bind_ok (exec_peek hs)]
  split
  · rename_i hsign
    cases s with
    | nil => simp at hsign
    | cons c s =>
      rw [exec_bind_ok (exec_bump hs)]
      simp only [List.head?_cons, Option.some.injEq] at hsign
      obtain rfl | rfl := hsign <;> rfl
  · rename_i hsign
    have hsplit : splitSign s = (false, s) := by
      unfold splitSign
      split
      · exact absurd (.inl rfl) hsign
      · exact absurd (.inr rfl) hsign
      · rfl
    rw [hsplit]
    rfl

theorem startsFraction_iff :
    startsFraction s ↔ s.head? = some '.' ∧ s[1]?.any Char.isDigit = true := by
  constructor
  · rintro ⟨c, s, rfl, hc⟩
    exact ⟨rfl, hc⟩
  · rintro ⟨hpoint, hdigit⟩
    match s with
    | [] => cases hpoint
    | [c] => cases hdigit
    | c :: d :: s =>
      cases hpoint
      exact ⟨d, s, rfl, hdigit⟩

theorem exec_passFraction (hs : s <:+ source) :
    passFraction.exec source (.facing source s depth) =
      some (.ok ((), .facing source (splitFraction s).2 depth)) := by
  rw [passFraction, exec_bind_ok (exec_peek hs), exec_bind_ok (exec_peekSecond hs)]
  split
  · rename_i hpoint
    obtain ⟨c, s, rfl, hc⟩ := startsFraction_iff.2 hpoint
    have hdigits : (splitDigits (c :: s)).1 ≠ [] := by simp [splitDigits, hc]
    rw [exec_bind_ok (exec_bump hs), splitFraction, if_neg (by simpa using hdigits)]
    exact exec_bumpWhile _ ((List.suffix_cons _ _).trans hs)
  · rename_i hpoint
    rw [splitFraction_of_not_starts fun hstarts => hpoint (startsFraction_iff.1 hstarts)]
    rfl

theorem exec_passUnit (hs : s <:+ source) :
    passUnit.exec source (.facing source s depth) =
      some (.ok ((), .facing source (splitUnit s).2 depth)) := by
  rw [passUnit]
  by_cases hpercent : s.head? = some '%'
  · obtain ⟨t, rfl⟩ := List.head?_eq_some_iff.1 hpercent
    rw [exec_bind_ok (exec_eat hs)]
    rfl
  · have hsplit : splitUnit s = (s.takeWhile Char.isAlpha, s.dropWhile Char.isAlpha) := by
      unfold splitUnit
      split
      · exact absurd rfl hpercent
      · rfl
    rw [exec_bind_ok (exec_eat_not hs hpercent), hsplit]
    exact exec_bumpWhile _ hs

theorem decimal?_text {sign integer fraction : List Char}
    (hsign : sign = [] ∨ sign = ['+'] ∨ sign = ['-'])
    (hinteger : ∀ c ∈ integer, c.isDigit = true) (hfraction : ∀ c ∈ fraction, c.isDigit = true) :
    decimal? (sign ++ (integer ++ pointed fraction)) =
      if integer.length + fraction.length = 0 then none
      else some (Decimal.nearest (sign == ['-']) integer fraction) := by
  split
  · rename_i hdigits
    obtain ⟨rfl, rfl⟩ : integer = [] ∧ fraction = [] := by simpa using hdigits
    obtain rfl | rfl | rfl := hsign <;> rfl
  · rename_i hdigits
    have hformed : NumberText.Formed ⟨sign, integer, fraction, []⟩ :=
      ⟨hsign, hinteger, hfraction, not_and_or.1 (by simpa using hdigits), .inr (by simp)⟩
    have hsplit := splitSign_append hformed []
    have hpoint : Stops Char.isDigit (pointed fraction) := by
      unfold pointed
      split
      · exact stops_nil
      · exact stops_cons.2 (by decide)
    rw [List.append_nil] at hsplit
    rw [decimal?, hsplit]
    simp only [splitDigits_append hinteger hpoint]
    by_cases hnil : fraction = []
    · rw [hnil, pointed, if_pos rfl]
      exact if_neg (by simpa [hnil] using hdigits)
    · have hbehind : splitDigits fraction = (fraction, []) := by
        have := splitDigits_append hfraction stops_nil
        rwa [List.append_nil] at this
      rw [pointed, if_neg hnil]
      simp [hbehind, hnil]

/-- What the cursor passes over in front of a unit is the text of the number. -/
theorem exists_magnitude (s : List Char) :
    ∃ front, front ++ (splitFraction (splitDigits (splitSign s).2).2).2 = s ∧
      decimal? front =
        if (NumberParts.ofText s).integer.length + (NumberParts.ofText s).fraction.length = 0
        then none
        else some (NumberParts.ofText s).number.magnitude := by
  obtain ⟨sign, hsign, hs, hnegative⟩ := exists_sign s
  obtain ⟨hfraction, hdigits, -⟩ := splitFraction_parts (splitDigits (splitSign s).2).2
  have hinteger : (splitDigits (splitSign s).2).1 ++ (splitDigits (splitSign s).2).2 =
      (splitSign s).2 := List.takeWhile_append_dropWhile
  refine ⟨sign ++ ((splitDigits (splitSign s).2).1 ++ pointed _), ?_,
    (decimal?_text hsign (fun _ => List.mem_takeWhile_imp) hdigits).trans ?_⟩
  · rw [List.append_assoc, List.append_assoc, ← hfraction, hinteger, ← hs]
  · rw [← hnegative]
    rfl

theorem tracks_parseNumber (hs : s <:+ source) :
    Tracks source depth parseNumber s (readNumber s)
      (fun taken => .literal taken.value) Taken.rest := by
  obtain ⟨front, htext, hmagnitude⟩ := exists_magnitude s
  have hsign := (splitSign_suffix s).trans hs
  have hinteger := (List.dropWhile_suffix Char.isDigit).trans hsign
  have hfraction := (splitFraction_suffix _).trans hinteger
  have hunit := (splitUnit_suffix _).trans hfraction
  rw [parseNumber, readNumber]
  refine .step exec_offset (.step (exec_passSign hs) (.step (exec_bumpWhile _ hsign)
    (.step (exec_passFraction hinteger) (.step (exec_passed htext hs) ?_))))
  by_cases hdigits :
      (NumberParts.ofText s).integer.length + (NumberParts.ofText s).fraction.length = 0
  · rw [hmagnitude, if_pos hdigits, dif_pos hdigits]
    exact .failAt hs _
  · have htext' := (splitUnit_parts (splitFraction (splitDigits (splitSign s).2).2).2).1.symm
    rw [hmagnitude, if_neg hdigits, dif_neg hdigits]
    exact .step exec_offset (.step (exec_passUnit hfraction)
      (.step (exec_passed htext' hfraction) (.pure hunit rfl rfl)))

end CursorM

end HostSheet
