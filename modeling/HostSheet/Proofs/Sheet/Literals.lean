import HostSheet.Proofs.Sheet.Reading
import Mathlib.Data.List.TakeWhile
import Mathlib.Tactic.ByContra

/-!
# How literals are written

Names, colours and numbers are read as far as they go. So a reading is a text of a certain form
together with the fact that what follows does not go on with it.
-/

namespace HostSheet

def Stops (p : Char → Bool) (s : List Char) : Prop :=
  ∀ c ∈ s.head?, p c = false

section
variable {p q : Char → Bool} {xs s rest : List Char}

@[simp] theorem stops_nil : Stops p [] := by
  simp [Stops]

@[simp] theorem stops_cons {c : Char} : Stops p (c :: s) ↔ p c = false := by
  simp [Stops]

theorem Stops.mono (hpq : ∀ c, p c = true → q c = true) (h : Stops q s) : Stops p s := by
  intro c hc
  by_contra hp
  have hq := hpq c (by simpa using hp)
  simp [h c hc] at hq

theorem stops_dropWhile (p : Char → Bool) (s : List Char) : Stops p (s.dropWhile p) := by
  induction s with
  | nil => simp
  | cons c s ih => by_cases hc : p c = true <;> simp_all

theorem takeWhile_of_stops (hxs : ∀ c ∈ xs, p c = true) (hrest : Stops p rest) :
    (xs ++ rest).takeWhile p = xs := by
  have hnil : rest.takeWhile p = [] := by cases rest <;> simp_all
  rw [List.takeWhile_append_of_pos hxs, hnil, List.append_nil]

theorem dropWhile_of_stops (hxs : ∀ c ∈ xs, p c = true) (hrest : Stops p rest) :
    (xs ++ rest).dropWhile p = rest := by
  have hrest' : rest.dropWhile p = rest := by cases rest <;> simp_all
  rw [List.dropWhile_append_of_pos hxs, hrest']

/-- The longest run at the front is the one that what follows does not go on with. -/
theorem run_iff : s.takeWhile p = xs ∧ s.dropWhile p = rest ↔
    s = xs ++ rest ∧ (∀ c ∈ xs, p c = true) ∧ Stops p rest := by
  constructor
  · rintro ⟨rfl, rfl⟩
    exact ⟨List.takeWhile_append_dropWhile.symm, fun c hc => List.mem_takeWhile_imp hc,
      stops_dropWhile p s⟩
  · rintro ⟨rfl, hxs, hrest⟩
    exact ⟨takeWhile_of_stops hxs hrest, dropWhile_of_stops hxs hrest⟩

end

-- ---------------------------------------------------------------------------
-- Names
-- ---------------------------------------------------------------------------

def IsName (cs : List Char) : Prop :=
  ∃ c ds, cs = c :: ds ∧ (c = '-' → startsAfterHyphen ds = true) ∧ ∀ d ∈ ds, isNameChar d = true

theorem startsAfterHyphen_append {ds rest : List Char} (hds : ∀ d ∈ ds, isNameChar d = true)
    (hrest : Stops isNameChar rest) :
    startsAfterHyphen (ds ++ rest) = startsAfterHyphen ds := by
  cases ds with
  | cons => rfl
  | nil =>
    cases rest with
    | nil => rfl
    | cons c rest =>
      have hc : isNameChar c = false := stops_cons.1 hrest
      simp only [isNameChar, Bool.or_eq_false_iff] at hc
      simp [startsAfterHyphen, isNameStart, hc]

theorem reads_readName {s rest : List Char} {name : String} :
    readName.Reads s name rest ↔
      ∃ cs, IsName cs ∧ Stops isNameChar rest ∧ s = cs ++ rest ∧ name = String.ofList cs := by
  constructor
  · rintro ⟨_, h⟩
    cases s with
    | nil => cases h
    | cons c s =>
      rw [readName] at h
      split at h
      · cases h
      · rename_i hhyphen
        cases h
        obtain ⟨hs, hds, hrest⟩ := (run_iff (p := isNameChar) (s := s)).1 ⟨rfl, rfl⟩
        refine ⟨_, ⟨c, _, rfl, ?_, hds⟩, hrest, congrArg _ hs, rfl⟩
        intro hc
        rw [hs, startsAfterHyphen_append hds hrest] at hhyphen
        by_contra hstart
        exact hhyphen ⟨hc, hstart⟩
  · rintro ⟨_, ⟨c, ds, rfl, hhyphen, hds⟩, hrest, rfl, rfl⟩
    have hnot : ¬ (c = '-' ∧ ¬ startsAfterHyphen (ds ++ rest) = true) := by
      rintro ⟨hc, hstart⟩
      exact hstart (startsAfterHyphen_append hds hrest ▸ hhyphen hc)
    rw [Reader.Reads, List.cons_append, readName, if_neg hnot]
    refine Taken.found rfl ?_ (dropWhile_of_stops hds hrest)
    exact congrArg (fun name => String.ofList (c :: name)) (takeWhile_of_stops hds hrest)

def isIdentifier : List Char → Bool
  | [] => false
  | c :: cs => (isNameStart c || c == '-' && startsAfterHyphen cs) && cs.all isNameChar

-- ---------------------------------------------------------------------------
-- Colours
-- ---------------------------------------------------------------------------

theorem isAlpha_iff {c : Char} :
    c.isAlpha = true ↔ ('A' ≤ c ∧ c ≤ 'Z') ∨ ('a' ≤ c ∧ c ≤ 'z') := by
  change (decide ('A' ≤ c ∧ c ≤ 'Z') || (decide ('a' ≤ c) && decide (c ≤ 'z'))) = true ↔ _
  simp only [Bool.or_eq_true, Bool.and_eq_true, decide_eq_true_eq]

theorem isDigit_iff {c : Char} : c.isDigit = true ↔ '0' ≤ c ∧ c ≤ '9' := by
  change (decide ('0' ≤ c) && decide (c ≤ '9')) = true ↔ _
  simp only [Bool.and_eq_true, decide_eq_true_eq]

theorem isNameChar_of_isHexDigit {c : Char} (h : isHexDigit c = true) : isNameChar c = true := by
  simp only [isHexDigit, Bool.or_eq_true, Bool.and_eq_true, decide_eq_true_eq] at h
  rcases h with (hdigit | ⟨hlow, hhigh⟩) | ⟨hlow, hhigh⟩
  · simp [isNameChar, Text.isNumeral_of_isDigit hdigit]
  · have halpha := isAlpha_iff.2 (.inr ⟨hlow, Char.le_trans hhigh (by decide)⟩)
    simp [isNameChar, Text.isLetter_of_isAlpha halpha]
  · have halpha := isAlpha_iff.2 (.inl ⟨hlow, Char.le_trans hhigh (by decide)⟩)
    simp [isNameChar, Text.isLetter_of_isAlpha halpha]

theorem startsWithNameChar_eq_false {s : List Char} :
    startsWithNameChar s = false ↔ Stops isNameChar s := by
  cases s <;> simp [startsWithNameChar]

theorem reads_readColor {c : Char} {s rest : List Char} {v : Value} :
    readColor.Reads (c :: s) v rest ↔
      ∃ ds color, (∀ d ∈ ds, isHexDigit d = true) ∧ hexColor? ds = some color ∧
        Stops isNameChar rest ∧ s = ds ++ rest ∧ v = .color color := by
  constructor
  · rintro ⟨_, h⟩
    rw [readColor] at h
    split at h
    · cases h
    · rename_i hstop
      obtain ⟨hs, hds, -⟩ := (run_iff (p := isHexDigit) (s := s)).1 ⟨rfl, rfl⟩
      have hrest := startsWithNameChar_eq_false.1 (Bool.eq_false_iff.2 hstop)
      split at h
      · cases h
      · rename_i color hcolor
        cases h
        exact ⟨_, color, hds, hcolor, hrest, hs, rfl⟩
  · rintro ⟨ds, color, hds, hcolor, hrest, rfl, rfl⟩
    have hstop : Stops isHexDigit rest := hrest.mono fun _ => isNameChar_of_isHexDigit
    have htake := takeWhile_of_stops hds hstop
    have hdrop := dropWhile_of_stops hds hstop
    have hnot := Bool.eq_false_iff.1 (startsWithNameChar_eq_false.2 hrest)
    rw [Reader.Reads, readColor, hdrop, if_neg hnot, htake, hcolor]
    exact Taken.found rfl rfl hdrop

-- ---------------------------------------------------------------------------
-- Numbers
-- ---------------------------------------------------------------------------

theorem isDigit_of_isAlpha {c : Char} (h : c.isAlpha = true) : c.isDigit = false := by
  rw [← Bool.not_eq_true, isDigit_iff]
  rintro ⟨-, hdigit⟩
  rcases isAlpha_iff.1 h with ⟨hlow, -⟩ | ⟨hlow, -⟩ <;>
    exact absurd (Char.le_trans hlow hdigit) (by decide)

theorem startsUnsigned_point {s : List Char} :
    startsUnsigned ('.' :: s) = false ↔ Stops Char.isDigit s := by
  cases s with
  | nil => simp [startsUnsigned]
  | cons c s => rw [startsUnsigned, stops_cons]

theorem startsUnsigned_cons {c : Char} (hc : c ≠ '.') (s : List Char) :
    startsUnsigned (c :: s) = c.isDigit := by
  unfold startsUnsigned
  split <;> simp_all

theorem startsNumber_cons_of_ne {c : Char} (hplus : c ≠ '+') (hminus : c ≠ '-') (s : List Char) :
    startsNumber (c :: s) = startsUnsigned (c :: s) := by
  unfold startsNumber
  split <;> simp_all

theorem startsNumber_of_startsUnsigned {s : List Char} (h : startsUnsigned s = true) :
    startsNumber s = true := by
  unfold startsNumber
  split
  · cases h
  · cases h
  · exact h

/-- A number as it is written; the point is left out where no digits stand behind it. -/
structure NumberText where
  sign : List Char
  integer : List Char
  fraction : List Char
  unit : List Char

namespace NumberText

def pointed (fraction : List Char) : List Char :=
  if fraction = [] then [] else '.' :: fraction

def text (t : NumberText) : List Char :=
  t.sign ++ (t.integer ++ (pointed t.fraction ++ t.unit))

structure Formed (t : NumberText) : Prop where
  sign : t.sign = [] ∨ t.sign = ['+'] ∨ t.sign = ['-']
  integer : ∀ c ∈ t.integer, c.isDigit = true
  fraction : ∀ c ∈ t.fraction, c.isDigit = true
  digits : t.integer ≠ [] ∨ t.fraction ≠ []
  unit : t.unit = ['%'] ∨ ∀ c ∈ t.unit, c.isAlpha = true

def startsFraction (s : List Char) : Prop :=
  ∃ c s', s = '.' :: c :: s' ∧ c.isDigit = true

structure Ends (t : NumberText) (rest : List Char) : Prop where
  unit : t.unit ≠ ['%'] → Stops Char.isAlpha rest
  bare : t.unit = [] → Stops (fun c => c.isDigit || c == '%') rest
  point : t.unit = [] → t.fraction = [] → ¬ startsFraction rest

def number (t : NumberText) : Number :=
  ⟨Decimal.nearest (t.sign == ['-']) t.integer t.fraction, String.ofList t.unit⟩

end NumberText

open NumberText

section
variable {t : NumberText} {rest : List Char}

theorem splitUnit_append (hunit : t.unit = ['%'] ∨ ∀ c ∈ t.unit, c.isAlpha = true)
    (h : t.Ends rest) : splitUnit (t.unit ++ rest) = (t.unit, rest) := by
  by_cases hpercent : t.unit = ['%']
  · rw [hpercent]
    rfl
  · have halpha := hunit.resolve_left hpercent
    have hstops := h.unit hpercent
    have hnot : ∀ s, t.unit ++ rest ≠ '%' :: s := by
      intro s hs
      cases hu : t.unit with
      | nil =>
        have := h.bare hu
        simp_all
      | cons c unit =>
        rw [hu, List.cons_append, List.cons.injEq] at hs
        have hc := halpha c (by simp [hu])
        rw [hs.1] at hc
        revert hc
        decide
    unfold splitUnit
    split
    · rename_i s hs
      exact absurd hs (hnot s)
    · rw [takeWhile_of_stops halpha hstops, dropWhile_of_stops halpha hstops]

theorem stops_unit (hunit : t.unit = ['%'] ∨ ∀ c ∈ t.unit, c.isAlpha = true) (h : t.Ends rest) :
    Stops Char.isDigit (t.unit ++ rest) := by
  cases hu : t.unit with
  | nil => exact (h.bare hu).mono fun c hc => by simp [hc]
  | cons c unit =>
    rw [List.cons_append, stops_cons]
    rw [hu] at hunit
    rcases hunit with hpercent | halpha
    · cases hpercent
      decide
    · exact isDigit_of_isAlpha (halpha c List.mem_cons_self)

theorem splitDigits_append {ds : List Char} (hds : ∀ c ∈ ds, c.isDigit = true)
    (hrest : Stops Char.isDigit rest) : splitDigits (ds ++ rest) = (ds, rest) := by
  rw [splitDigits, takeWhile_of_stops hds hrest, dropWhile_of_stops hds hrest]

theorem splitFraction_of_not_starts {s : List Char} (h : ¬ startsFraction s) :
    splitFraction s = ([], s) := by
  unfold splitFraction
  split
  · rename_i s
    have hnone : (splitDigits s).1.isEmpty = true := by
      cases s with
      | nil => rfl
      | cons c s =>
        by_cases hc : c.isDigit = true
        · exact absurd ⟨c, s, rfl, hc⟩ h
        · simp [splitDigits, hc]
    rw [if_pos hnone]
  · rfl

theorem splitFraction_append (ht : t.Formed) (h : t.Ends rest) :
    splitFraction (pointed t.fraction ++ (t.unit ++ rest)) = (t.fraction, t.unit ++ rest) := by
  by_cases hfraction : t.fraction = []
  · have hnot : ¬ startsFraction (t.unit ++ rest) := by
      rintro ⟨c, s, hs, hc⟩
      cases hu : t.unit with
      | nil =>
        rw [hu, List.nil_append] at hs
        exact h.point hu hfraction ⟨c, s, hs, hc⟩
      | cons d unit =>
        rw [hu, List.cons_append, List.cons.injEq] at hs
        rcases ht.unit with hpercent | halpha
        · simp_all
        · have hd := halpha d (by simp [hu])
          rw [hs.1] at hd
          revert hd
          decide
    rw [pointed, if_pos hfraction, List.nil_append, splitFraction_of_not_starts hnot, hfraction]
  · rw [pointed, if_neg hfraction, List.cons_append, splitFraction,
      splitDigits_append ht.fraction (stops_unit ht.unit h), if_neg]
    simpa using hfraction

theorem stops_pointed (hunit : t.unit = ['%'] ∨ ∀ c ∈ t.unit, c.isAlpha = true)
    (h : t.Ends rest) : Stops Char.isDigit (pointed t.fraction ++ (t.unit ++ rest)) := by
  unfold pointed
  split
  · exact stops_unit hunit h
  · rw [List.cons_append, stops_cons]
    decide

theorem splitSign_append (ht : t.Formed) (s : List Char) :
    splitSign (t.sign ++ (t.integer ++ (pointed t.fraction ++ s))) =
      (t.sign == ['-'], t.integer ++ (pointed t.fraction ++ s)) := by
  rcases ht.sign with hsign | hsign | hsign
  · have hhead : ∃ c s', t.integer ++ (pointed t.fraction ++ s) = c :: s' ∧ c ≠ '+' ∧ c ≠ '-' := by
      cases hi : t.integer with
      | nil =>
        have hfraction := ht.digits.resolve_left (by simp [hi])
        exact ⟨'.', t.fraction ++ s, by simp [pointed, hfraction], by decide, by decide⟩
      | cons c integer =>
        have hc := ht.integer c (by simp [hi])
        refine ⟨c, _, rfl, ?_, ?_⟩ <;> rintro rfl <;> revert hc <;> decide
    obtain ⟨c, s', hs, hplus, hminus⟩ := hhead
    rw [hs, hsign, List.nil_append]
    unfold splitSign
    split <;> simp_all
  · rw [hsign]
    rfl
  · rw [hsign]
    rfl

theorem ofText_append (ht : t.Formed) (h : t.Ends rest) :
    NumberParts.ofText (t.text ++ rest) =
      ⟨t.sign == ['-'], t.integer, t.fraction, t.unit, rest⟩ := by
  have htext : t.text ++ rest =
      t.sign ++ (t.integer ++ (pointed t.fraction ++ (t.unit ++ rest))) := by
    simp [NumberText.text]
  rw [htext, NumberParts.ofText, splitSign_append ht,
    splitDigits_append ht.integer (stops_pointed ht.unit h), splitFraction_append ht h,
    splitUnit_append ht.unit h]

theorem NumberText.Formed.length_ne_zero (ht : t.Formed) :
    ¬ t.integer.length + t.fraction.length = 0 := by
  have hdigits := ht.digits
  rw [← List.length_pos_iff, ← List.length_pos_iff] at hdigits
  omega

theorem exists_sign (s : List Char) :
    ∃ sign, (sign = [] ∨ sign = ['+'] ∨ sign = ['-']) ∧ s = sign ++ (splitSign s).2 ∧
      (splitSign s).1 = (sign == ['-']) := by
  unfold splitSign
  split
  · exact ⟨['+'], by simp, rfl, rfl⟩
  · exact ⟨['-'], by simp, rfl, rfl⟩
  · exact ⟨[], by simp, rfl, rfl⟩

theorem splitFraction_parts (s : List Char) :
    s = pointed (splitFraction s).1 ++ (splitFraction s).2 ∧
      (∀ c ∈ (splitFraction s).1, c.isDigit = true) ∧
      ((splitFraction s).1 = [] → ¬ startsFraction (splitFraction s).2) ∧
      ((splitFraction s).1 ≠ [] → Stops Char.isDigit (splitFraction s).2) := by
  by_cases h : startsFraction s
  · obtain ⟨c, s, rfl, hc⟩ := h
    have hne : (splitDigits (c :: s)).1 ≠ [] := by simp [splitDigits, hc]
    obtain ⟨hs, hds, hrest⟩ :=
      (run_iff (p := Char.isDigit) (s := c :: s)).1 ⟨rfl, rfl⟩
    rw [splitFraction, if_neg (by simpa using hne), pointed, if_neg hne]
    exact ⟨congrArg _ hs, hds, fun h => absurd h hne, fun _ => hrest⟩
  · rw [splitFraction_of_not_starts h]
    simp [pointed, h]

theorem splitUnit_parts (s : List Char) :
    s = (splitUnit s).1 ++ (splitUnit s).2 ∧
      ((splitUnit s).1 = ['%'] ∨ ∀ c ∈ (splitUnit s).1, c.isAlpha = true) ∧
      ((splitUnit s).1 ≠ ['%'] → Stops Char.isAlpha (splitUnit s).2) ∧
      ((splitUnit s).1 = [] → (splitUnit s).2.head? ≠ some '%') := by
  by_cases hpercent : s.head? = some '%'
  · cases s with
    | nil => cases hpercent
    | cons c s =>
      cases hpercent
      simp [splitUnit]
  · have hsplit : splitUnit s = (s.takeWhile Char.isAlpha, s.dropWhile Char.isAlpha) := by
      unfold splitUnit
      split
      · exact absurd rfl hpercent
      · rfl
    obtain ⟨htext, halpha, hrest⟩ := (run_iff (p := Char.isAlpha) (s := s)).1 ⟨rfl, rfl⟩
    rw [hsplit]
    refine ⟨htext, .inr halpha, fun _ => hrest, fun hnil => ?_⟩
    have hnil : s.takeWhile Char.isAlpha = [] := hnil
    rw [hnil, List.nil_append] at htext
    exact htext ▸ hpercent

/-- The parts that are found in a text make up a number, and go as far as they can. -/
theorem exists_numberText {s : List Char}
    (h : ¬ (NumberParts.ofText s).integer.length + (NumberParts.ofText s).fraction.length = 0) :
    ∃ t : NumberText, t.Formed ∧ t.Ends (NumberParts.ofText s).rest ∧
      s = t.text ++ (NumberParts.ofText s).rest ∧ (NumberParts.ofText s).number = t.number := by
  obtain ⟨sign, hsign, hs, hneg⟩ := exists_sign s
  rcases hs1 : splitSign s with ⟨negative, s1⟩
  rcases hs2 : splitDigits s1 with ⟨integer, s2⟩
  rcases hs3 : splitFraction s2 with ⟨fraction, s3⟩
  rcases hs4 : splitUnit s3 with ⟨unit, rest⟩
  have hparts : NumberParts.ofText s = ⟨negative, integer, fraction, unit, rest⟩ := by
    simp [NumberParts.ofText, hs1, hs2, hs3, hs4]
  rw [splitDigits, Prod.mk.injEq] at hs2
  obtain ⟨htext1, hinteger, hstops2⟩ := run_iff.1 hs2
  have hfraction := splitFraction_parts s2
  have hunit := splitUnit_parts s3
  rw [hs1] at hs hneg
  rw [hs3] at hfraction
  rw [hs4] at hunit
  obtain ⟨htext2, hfraction, hpoint, hstops3⟩ := hfraction
  obtain ⟨htext3, hunit, halpha, hpercent⟩ := hunit
  simp only [hparts] at h hneg hs htext2 htext3 hfraction hunit hpoint hstops3 halpha hpercent ⊢
  refine ⟨⟨sign, integer, fraction, unit⟩, ⟨hsign, hinteger, hfraction, ?_, hunit⟩,
    ⟨halpha, ?_, ?_⟩, ?_, ?_⟩
  · rw [← List.length_pos_iff, ← List.length_pos_iff]
    simp only
    omega
  · intro hnil
    have hdigit : Stops Char.isDigit rest := by
      have hrest : s3 = rest := by rw [htext3, show unit = [] from hnil, List.nil_append]
      by_cases hfrac : fraction = []
      · have : s2 = s3 := by simpa [hfrac, pointed] using htext2
        rwa [← hrest, ← this]
      · rw [← hrest]
        exact hstops3 hfrac
    intro c hc
    have hne : c ≠ '%' := by
      rintro rfl
      exact hpercent hnil hc
    simp [hdigit c hc, hne]
  · intro hnil hfrac
    have hrest : s3 = rest := by rw [htext3, show unit = [] from hnil, List.nil_append]
    exact hrest ▸ hpoint hfrac
  · rw [hs, htext1, htext2, htext3]
    simp [NumberText.text]
  · rw [NumberParts.number, NumberText.number, hneg]

theorem reads_readNumber {s : List Char} {v : Value} :
    readNumber.Reads s v rest ↔
      ∃ t : NumberText, t.Formed ∧ t.Ends rest ∧ s = t.text ++ rest ∧ v = .number t.number := by
  constructor
  · rintro ⟨_, h⟩
    rw [readNumber] at h
    split at h
    · cases h
    · rename_i hdigits
      cases h
      obtain ⟨t, hformed, hends, hs, hnumber⟩ := exists_numberText hdigits
      exact ⟨t, hformed, hends, hs, congrArg _ hnumber⟩
  · rintro ⟨t, ht, h, rfl, rfl⟩
    have hparts := ofText_append ht h
    have hdigits : ¬ (NumberParts.ofText (t.text ++ rest)).integer.length +
        (NumberParts.ofText (t.text ++ rest)).fraction.length = 0 := by
      rw [hparts]
      exact ht.length_ne_zero
    rw [Reader.Reads, readNumber, dif_neg hdigits]
    exact Taken.found rfl (congrArg (fun parts => Value.number parts.number) hparts)
      (congrArg NumberParts.rest hparts)

end

def IsUnit (unit : String) : Prop :=
  unit = "%" ∨ ∀ c ∈ unit.toList, c.isAlpha = true

theorem NumberText.Formed.startsNumber {t : NumberText} (ht : t.Formed) (s : List Char) :
    startsNumber (t.text ++ s) = true := by
  have hunsigned : startsUnsigned (t.integer ++ (pointed t.fraction ++ (t.unit ++ s))) = true := by
    cases hi : t.integer with
    | nil =>
      obtain ⟨c, cs, hcs⟩ := List.exists_cons_of_ne_nil (ht.digits.resolve_left (by simp [hi]))
      have hc := ht.fraction c (by simp [hcs])
      simpa [pointed, hcs, startsUnsigned] using hc
    | cons c cs =>
      have hc := ht.integer c (by simp [hi])
      have hpoint : c ≠ '.' := by
        rintro rfl
        cases hc
      rw [List.cons_append, startsUnsigned_cons hpoint, hc]
  have htext : t.text ++ s = t.sign ++ (t.integer ++ (pointed t.fraction ++ (t.unit ++ s))) := by
    simp [text]
  rw [htext]
  rcases ht.sign with h | h | h <;> rw [h]
  · exact startsNumber_of_startsUnsigned hunsigned
  · exact hunsigned
  · exact hunsigned

end HostSheet
