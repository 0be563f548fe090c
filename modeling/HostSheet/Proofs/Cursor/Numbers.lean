import HostSheet.Proofs.Cursor.Literals

/-!
# Maximal munch of numbers

A cursor decides after three characters at most that a number is ahead, and then passes over a sign,
digits, a point with digits and a unit one after the other. The two agree: where the decision is
for a number there is one, and the longest one is read.
-/

namespace HostSheet

-- ---------------------------------------------------------------------------
-- Numerals
-- ---------------------------------------------------------------------------

def IsSign (cs : List Char) : Prop :=
  cs = [] ∨ cs = ['+'] ∨ cs = ['-']

def IsDigits (cs : List Char) : Prop :=
  cs ≠ [] ∧ ∀ c ∈ cs, c.isDigit = true

inductive IsNumeral : List Char → Prop
  | whole {sign integer} : IsSign sign → IsDigits integer → IsNumeral (sign ++ integer)
  | mixed {sign integer fraction} : IsSign sign → IsDigits integer → IsDigits fraction →
      IsNumeral (sign ++ (integer ++ '.' :: fraction))
  | fraction {sign fraction} : IsSign sign → IsDigits fraction → IsNumeral (sign ++ '.' :: fraction)

def NumberText.numeral (t : NumberText) : List Char :=
  t.sign ++ (t.integer ++ pointed t.fraction)

open NumberText

theorem IsNumeral.exists_numberText {cs : List Char} (h : IsNumeral cs) :
    ∃ t : NumberText, t.Formed ∧ t.unit = [] ∧ t.numeral = cs := by
  cases h with
  | @whole sign integer hsign hinteger =>
    refine ⟨⟨sign, integer, [], []⟩, ⟨hsign, hinteger.2, ?_, .inl hinteger.1, .inr ?_⟩, rfl, ?_⟩ <;>
      simp [numeral, pointed]
  | @mixed sign integer fraction hsign hinteger hfraction =>
    refine ⟨⟨sign, integer, fraction, []⟩,
      ⟨hsign, hinteger.2, hfraction.2, .inl hinteger.1, .inr ?_⟩, rfl, ?_⟩ <;>
      simp [numeral, pointed, hfraction.1]
  | @fraction sign fraction hsign hfraction =>
    refine ⟨⟨sign, [], fraction, []⟩,
      ⟨hsign, ?_, hfraction.2, .inr hfraction.1, .inr ?_⟩, rfl, ?_⟩ <;>
      simp [numeral, pointed, hfraction.1]

namespace NumberText

variable {t : NumberText} {rest other : List Char}

theorem text_eq (t : NumberText) : t.text = t.numeral ++ t.unit := by
  simp [text, numeral]

theorem Formed.isNumeral (ht : t.Formed) : IsNumeral t.numeral := by
  by_cases hinteger : t.integer = []
  · have hfraction := ht.digits.resolve_left (not_not.2 hinteger)
    rw [numeral, hinteger, pointed, if_neg hfraction]
    exact .fraction ht.sign ⟨hfraction, ht.fraction⟩
  · by_cases hfraction : t.fraction = []
    · rw [numeral, pointed, if_pos hfraction, List.append_nil]
      exact .whole ht.sign ⟨hinteger, ht.integer⟩
    · rw [numeral, pointed, if_neg hfraction]
      exact .mixed ht.sign ⟨hinteger, ht.integer⟩ ⟨hfraction, ht.fraction⟩

theorem Formed.decimal?_numeral (ht : t.Formed) :
    decimal? t.numeral = some t.number.magnitude := by
  rw [numeral, CursorM.decimal?_text ht.sign ht.integer ht.fraction, if_neg ht.length_ne_zero]
  rfl

theorem prefix_of_splitDigits {ds s integer behind : List Char} (hds : ∀ c ∈ ds, c.isDigit = true)
    (h : splitDigits (ds ++ s) = (integer, behind)) : ds <+: integer := by
  rw [splitDigits, List.takeWhile_append_of_pos hds, Prod.mk.injEq] at h
  exact h.1 ▸ List.prefix_append ds _

/-- No numeral at the front of a text is longer than that of the number there, if the text does not
go on with the number. -/
theorem Formed.prefix_numeral (ht : t.Formed) (h : t.Ends rest) (hother : IsNumeral other)
    (hfront : other <+: t.text ++ rest) : other <+: t.numeral := by
  obtain ⟨t', ht', -, rfl⟩ := hother.exists_numberText
  obtain ⟨tail, htail⟩ := hfront
  have htext : t'.sign ++ (t'.integer ++ (pointed t'.fraction ++ tail)) =
      t.sign ++ (t.integer ++ (pointed t.fraction ++ (t.unit ++ rest))) := by
    simpa [numeral, text] using htail
  -- The text tells the sign, and so the two are alike up to the digits.
  have hbehind := congrArg (fun s => (splitSign s).2) htext
  simp only [splitSign_append ht, splitSign_append ht'] at hbehind
  have hsign : t'.sign = t.sign := by
    rw [hbehind] at htext
    exact List.append_cancel_right htext
  rw [numeral, numeral, hsign, List.prefix_append_right_inj]
  have hdigits := splitDigits_append ht.integer (stops_pointed ht.unit h)
  rw [← hbehind] at hdigits
  by_cases hfraction : t'.fraction = []
  · rw [pointed, if_pos hfraction, List.append_nil]
    exact (prefix_of_splitDigits ht'.integer hdigits).trans (List.prefix_append _ _)
  · -- A point ends the digits in front of it, and the digits behind it are those that are read.
    have hpointed : pointed t'.fraction = '.' :: t'.fraction := if_neg hfraction
    have hstops : Stops Char.isDigit (pointed t'.fraction ++ tail) := by
      rw [hpointed, List.cons_append, stops_cons]
      decide
    rw [splitDigits_append ht'.integer hstops, Prod.mk.injEq] at hdigits
    obtain ⟨hinteger, hpoint⟩ := hdigits
    have hnone : ¬ (splitDigits (t'.fraction ++ tail)).1.isEmpty := by
      simp [splitDigits, List.takeWhile_append_of_pos ht'.fraction, hfraction]
    have hmore := splitFraction_append ht h
    rw [← hpoint, hpointed, List.cons_append, splitFraction, if_neg hnone] at hmore
    have hlonger := prefix_of_splitDigits ht'.fraction hmore
    have hpointed' : pointed t.fraction = '.' :: t.fraction := if_neg (hlonger.ne_nil hfraction)
    rw [hinteger, List.prefix_append_right_inj, hpointed, hpointed', List.cons_prefix_cons]
    exact ⟨rfl, hlonger⟩

theorem Formed.unit_exact (ht : t.Formed) (h : t.Ends rest) :
    t.unit = ['%'] ∨ (t.unit ++ rest).head? ≠ some '%' ∧ (∀ c ∈ t.unit, c.isAlpha = true) ∧
      Stops Char.isAlpha rest := by
  by_cases hpercent : t.unit = ['%']
  · exact .inl hpercent
  · have halpha := ht.unit.resolve_left hpercent
    refine .inr ⟨?_, halpha, h.unit hpercent⟩
    cases hunit : t.unit with
    | nil =>
      intro hrest
      exact absurd (h.bare hunit '%' hrest) (by decide)
    | cons c unit =>
      intro hc
      obtain rfl : c = '%' := Option.some.inj hc
      exact absurd (halpha '%' (by simp [hunit])) (by decide)

end NumberText

-- ---------------------------------------------------------------------------
-- Looking ahead
-- ---------------------------------------------------------------------------

theorem startsUnsigned_iff {s : List Char} :
    startsUnsigned s = true ↔ (∃ c t, s = c :: t ∧ c.isDigit = true) ∨ startsFraction s := by
  constructor
  · intro h
    unfold startsUnsigned at h
    split at h
    · exact .inr ⟨_, _, rfl, h⟩
    · exact .inl ⟨_, _, rfl, h⟩
    · cases h
  · rintro (⟨c, t, rfl, hc⟩ | ⟨c, t, rfl, hc⟩)
    · have hpoint : c ≠ '.' := by
        rintro rfl
        cases hc
      rw [startsUnsigned_cons hpoint, hc]
    · exact hc

theorem startsNumber_eq_startsUnsigned (s : List Char) :
    startsNumber s = startsUnsigned (splitSign s).2 := by
  unfold startsNumber splitSign
  split <;> rfl

theorem digits_of_startsNumber {s : List Char} (h : startsNumber s = true) :
    ¬ (NumberParts.ofText s).integer.length + (NumberParts.ofText s).fraction.length = 0 := by
  rw [startsNumber_eq_startsUnsigned, startsUnsigned_iff] at h
  rcases h with ⟨c, t, hs, hc⟩ | ⟨c, t, hs, hc⟩
  · simp [NumberParts.ofText, hs, splitDigits, hc]
  · simp [NumberParts.ofText, hs, splitDigits, splitFraction, hc]

/-- A number starts exactly where a numeral stands. -/
theorem startsNumber_iff {s : List Char} :
    startsNumber s = true ↔ ∃ numeral, IsNumeral numeral ∧ numeral <+: s := by
  constructor
  · intro h
    obtain ⟨t, ht, -, hs, -⟩ := exists_numberText (digits_of_startsNumber h)
    refine ⟨t.numeral, ht.isNumeral, ?_⟩
    rw [hs, text_eq, List.append_assoc]
    exact List.prefix_append _ _
  · rintro ⟨numeral, hnumeral, rest, rfl⟩
    obtain ⟨t, ht, hunit, rfl⟩ := hnumeral.exists_numberText
    have hstarts := ht.startsNumber rest
    rwa [text_eq, hunit, List.append_nil] at hstarts

-- ---------------------------------------------------------------------------
-- Cursors
-- ---------------------------------------------------------------------------

namespace CursorM

variable {source s : List Char} {cursor : Cursor}

theorem facing_of_rest (h : CursorM.rest.exec source cursor = some (.ok (s, cursor))) :
    s <:+ source ∧ cursor = .facing source s cursor.depth := by
  rw [CursorM.rest, exec_bind_ok exec_read, exec_bind_ok exec_offset] at h
  cases hslice : Source.sliceFrom? source cursor.offset with
  | none =>
    rw [hslice] at h
    cases h
  | some t =>
    rw [exec_slice hslice] at h
    cases h
    obtain ⟨⟨before, rest⟩, hcut, rfl⟩ := Option.map_eq_some_iff.1 hslice
    obtain ⟨rfl, hoffset⟩ := Source.cut?_eq_some.1 hcut
    refine ⟨List.suffix_append _ _, ?_⟩
    rw [Cursor.facing, Source.offsetOf_append, hoffset]

/-- Where a number starts, a number is read: the longest numeral there with what stands behind it as
its unit, a percent sign or else all letters. The magnitude is that of the numeral. -/
theorem parseNumber_munches (hrest : CursorM.rest.exec source cursor = some (.ok (s, cursor)))
    (h : startsNumber s = true) :
    ∃ numeral unit rest magnitude,
      s = numeral ++ (unit ++ rest) ∧
      IsNumeral numeral ∧
      (∀ other, IsNumeral other → other <+: s → other <+: numeral) ∧
      (unit = ['%'] ∨ (unit ++ rest).head? ≠ some '%' ∧ (∀ c ∈ unit, c.isAlpha = true) ∧
        Stops Char.isAlpha rest) ∧
      decimal? numeral = some magnitude ∧
      parseNumber.exec source cursor = some (.ok
        (.literal (.number ⟨magnitude, String.ofList unit⟩),
          { cursor with offset := cursor.offset + Source.byteLength (numeral ++ unit) })) ∧
      readNumber.Reads s (.number ⟨magnitude, String.ofList unit⟩) rest := by
  obtain ⟨offset, depth⟩ := cursor
  obtain ⟨hs, hcursor⟩ := facing_of_rest hrest
  obtain rfl : offset = Source.offsetOf source s := congrArg Cursor.offset hcursor
  obtain ⟨t, ht, hends, htext, -⟩ := exists_numberText (digits_of_startsNumber h)
  generalize (NumberParts.ofText s).rest = rest at hends htext
  have hreads : readNumber.Reads s (.number t.number) rest :=
    reads_readNumber.2 ⟨t, ht, hends, htext, rfl⟩
  refine ⟨t.numeral, t.unit, rest, t.number.magnitude, ?_, ht.isNumeral, fun other hother hfront =>
    ht.prefix_numeral hends hother (htext ▸ hfront), ht.unit_exact hends, ht.decimal?_numeral, ?_,
    hreads⟩
  · rw [htext, text_eq, List.append_assoc]
  · obtain ⟨shorter, hread⟩ := hreads
    have htracks : Tracks source depth parseNumber s (readNumber s) _ _ :=
      tracks_parseNumber hs
    have hoffset : Source.offsetOf source s + Source.byteLength t.text =
        Source.offsetOf source rest := by
      rw [htext] at hs ⊢
      exact Source.add_offsetOf t.text hs
    rw [hread] at htracks
    rw [← text_eq, hoffset]
    exact htracks.1

/-- The second point is left where it is, behind a number without a unit. -/
theorem parseNumber_munches_point :
    let source := "é:+1.5.3".toList
    let s := "+1.5.3".toList
    CursorM.rest.exec source ⟨3, 2⟩ = some (.ok (s, ⟨3, 2⟩)) ∧ startsNumber s = true ∧
    (∀ other, IsNumeral other → other <+: s → other <+: "+1.5".toList) ∧
    ∃ magnitude, decimal? "+1.5".toList = some magnitude ∧
      parseNumber.exec source ⟨3, 2⟩ = some (.ok (.literal (.number ⟨magnitude, ""⟩), ⟨7, 2⟩)) := by
  intro source s
  have hrest : CursorM.rest.exec source ⟨3, 2⟩ = some (.ok (s, ⟨3, 2⟩)) := by decide +kernel
  have hstarts : startsNumber s = true := by decide +kernel
  obtain ⟨numeral, unit, rest, magnitude, hs, -, hlongest, -, hmagnitude, hparse, shorter, hread⟩ :=
    parseNumber_munches hrest hstarts
  have hunit : (NumberParts.ofText s).unit = [] := by decide +kernel
  have hbehind : (NumberParts.ofText s).rest = ".3".toList := by decide +kernel
  rw [readNumber, dif_neg (by decide +kernel)] at hread
  obtain ⟨hnumber, rfl⟩ := Taken.mk.inj (Except.ok.inj hread)
  have hempty := congrArg Number.unit (Value.number.inj hnumber)
  rw [NumberParts.number, hunit] at hempty
  obtain rfl : [] = unit := String.ofList_injective hempty
  rw [hbehind] at hs
  have htext : s = "+1.5".toList ++ ([] ++ ".3".toList) := by decide +kernel
  obtain rfl : numeral = "+1.5".toList := List.append_cancel_right (hs.symm.trans htext)
  exact ⟨hrest, hstarts, hlongest, magnitude, hmagnitude, hparse⟩

end CursorM

end HostSheet
