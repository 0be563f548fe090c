import HostSheet.Proofs.Css.Scalars
import HostSheet.Proofs.Decimal.Positional

/-!
# Magnitudes as text

A finite double is printed as the canonical text of what it is rounded to. The text comes from one
with all places by edits of the text: zeros and a point are taken off behind, a sign of zero in
front, and for short output a lone zero in front of the point. None of them changes the number that
the text denotes.
-/

namespace HostSheet

open NumberText

namespace Decimal

-- ---------------------------------------------------------------------------
-- Canonical texts
-- ---------------------------------------------------------------------------

/-- The text is a number without a unit and nothing else, and `y` is its value. -/
def Denotes (text : List Char) (y : ℚ) : Prop :=
  ∃ negative integer fraction, NumberParts.ofText text = ⟨negative, integer, fraction, [], []⟩ ∧
    (integer ≠ [] ∨ fraction ≠ []) ∧ signed negative (positional integer fraction) = y

/-- Digits in front of a point and behind it of which none can be left out. -/
structure CanonicalDigits (places : Nat) (integer fraction : List Char) : Prop where
  nonempty : integer ≠ []
  leading : integer.head? = some '0' → integer = ['0']
  fits : fraction.length ≤ places
  trailing : fraction.getLast? ≠ some '0'
  integer : ∀ c ∈ integer, c.isDigit = true
  fraction : ∀ c ∈ fraction, c.isDigit = true

/-- The text of a number with at most so many places. It has no point without digits behind it, and
zero has no sign. -/
def CanonicalText (places : Nat) (text : List Char) : Prop :=
  ∃ sign integer fraction, (sign = [] ∨ sign = ['-']) ∧ CanonicalDigits places integer fraction ∧
    text = sign ++ (integer ++ pointed fraction) ∧ text ≠ ['-', '0']

section
variable (d : Decimal)

theorem length_fractionDigits_le : d.fractionDigits.length ≤ d.places := by
  rw [fractionDigits_eq, ← length_fullFraction]
  exact (List.rdropWhile_prefix _ _).length_le

theorem canonicalDigits : CanonicalDigits d.places d.integerDigits d.fractionDigits where
  nonempty := Nat.toDigits_ne_nil
  leading := digits_of_head?
  fits := d.length_fractionDigits_le
  trailing := by
    rw [fractionDigits_eq]
    exact getLast?_trimZeros _
  integer _ := isDigit_of_mem_digits
  fraction _ := isDigit_of_mem_fractionDigits

theorem toList_text : d.text.toList = d.sign ++ (d.integerDigits ++ pointed d.fractionDigits) := by
  rw [text, String.toList_ofList, fraction_eq, List.append_assoc]

theorem sign_beq : (d.sign == ['-']) = d.negative := by
  rw [sign]
  cases d.negative <;> rfl

theorem denotes_of_positional {integer fraction : List Char}
    (hinteger : ∀ c ∈ integer, c.isDigit = true) (hfraction : ∀ c ∈ fraction, c.isDigit = true)
    (hdigits : integer ≠ [] ∨ fraction ≠ [])
    (hvalue : positional integer fraction = d.coefficient / 10 ^ d.places) :
    Denotes (d.sign ++ (integer ++ pointed fraction)) d.value := by
  have hsign := (d.formed d.canonicalDigits.integer (.inl d.canonicalDigits.nonempty)).sign
  have hformed : (NumberText.mk d.sign integer fraction []).Formed :=
    ⟨hsign, hinteger, hfraction, hdigits, .inr (by simp)⟩
  have hparts := ofText_append hformed (Follows.nil.ends _)
  rw [List.append_nil, NumberText.text, List.append_nil, sign_beq] at hparts
  exact ⟨_, _, _, hparts, hdigits, by rw [hvalue, value]⟩

theorem text_denotes : Denotes d.text.toList d.value := by
  rw [toList_text]
  exact d.denotes_of_positional d.canonicalDigits.integer d.canonicalDigits.fraction
    (.inl d.canonicalDigits.nonempty) d.positional_fractionDigits

theorem terseText_denotes : Denotes d.terseText.toList d.value := by
  rw [terseText]
  split
  · rename_i h
    rw [fraction_eq] at h
    have hsome : d.fractionDigits ≠ [] := by
      intro hnone
      exact h.2 (by rw [hnone]; rfl)
    have hempty : ∀ c ∈ ([] : List Char), c.isDigit = true := by simp
    rw [String.toList_ofList, fraction_eq]
    refine d.denotes_of_positional hempty d.canonicalDigits.fraction (.inr hsome) ?_
    rw [← positional_zero_integer, ← h.1, positional_fractionDigits]
  · exact d.text_denotes

theorem pointed_eq_nil {fraction : List Char} : pointed fraction = [] ↔ fraction = [] := by
  rw [pointed]
  split <;> simp [*]

theorem digits_of_coefficient (h : d.coefficient = 0) :
    d.integerDigits = ['0'] ∧ d.fractionDigits = [] := by
  rw [integerDigits, fractionDigits, h, Nat.zero_div, Nat.zero_mod]
  refine ⟨Nat.toDigits_zero 10, ?_⟩
  split
  · rfl
  · refine List.rdropWhile_eq_nil_iff.2 fun c hc => ?_
    rw [paddedDigits, List.mem_append, digits, Nat.toDigits_zero, List.mem_singleton] at hc
    exact beq_iff_eq.2 (hc.elim List.eq_of_mem_replicate id)

theorem coefficient_of_digits (h : d.integerDigits = ['0']) (h' : d.fractionDigits = []) :
    d.coefficient = 0 := by
  have hvalue := d.positional_fractionDigits
  rw [h, h'] at hvalue
  have hzero : positional ['0'] [] = 0 := by
    change ((0 : ℕ) : ℚ) / 10 ^ 0 = 0
    simp
  rw [hzero, eq_comm, div_eq_zero_iff] at hvalue
  exact Nat.cast_eq_zero.1 (hvalue.resolve_right (by positivity))

theorem digits_ne_minus (rest : List Char) :
    d.integerDigits ++ pointed d.fractionDigits ≠ '-' :: rest := by
  intro h
  have hhead : d.integerDigits.head? = some '-' := by
    rw [← List.head?_append_of_ne_nil _ d.canonicalDigits.nonempty, h]
    rfl
  exact absurd (d.canonicalDigits.integer '-' (List.mem_of_head? hhead)) (by decide)

theorem text_eq_minus_zero :
    d.text.toList = ['-', '0'] ↔ d.negative = true ∧ d.coefficient = 0 := by
  rw [toList_text, sign]
  constructor
  · intro htext
    split at htext
    · rename_i hnegative
      have hdigits := (List.cons.inj htext).2
      change d.integerDigits ++ pointed d.fractionDigits = ['0'] at hdigits
      rw [List.append_eq_singleton_iff, pointed_eq_nil] at hdigits
      obtain ⟨hinteger, -⟩ | ⟨hinteger, hfraction⟩ := hdigits
      · exact absurd hinteger d.canonicalDigits.nonempty
      · exact ⟨hnegative, d.coefficient_of_digits hinteger hfraction⟩
    · exact absurd htext (d.digits_ne_minus _)
  · rintro ⟨hnegative, hzero⟩
    obtain ⟨hinteger, hfraction⟩ := d.digits_of_coefficient hzero
    rw [if_pos hnegative, hinteger, hfraction]
    rfl

theorem canonicalText (h : d.negative = true → d.coefficient ≠ 0) :
    CanonicalText d.places d.text.toList := by
  refine ⟨d.sign, _, _, ?_, d.canonicalDigits, d.toList_text, fun htext => ?_⟩
  · rw [sign]
    cases d.negative <;> simp
  · obtain ⟨hnegative, hzero⟩ := d.text_eq_minus_zero.1 htext
    exact h hnegative hzero

end

-- ---------------------------------------------------------------------------
-- Edits
-- ---------------------------------------------------------------------------

def fullText (d : Decimal) : List Char :=
  d.sign ++ (d.integerDigits ++ pointed d.fullFraction)

def trimFraction (text : List Char) : List Char :=
  if '.' ∈ text then (text.rdropWhile (· == '0')).rdropWhile (· == '.') else text

def dropMinusOfZero (text : List Char) : List Char :=
  if text = ['-', '0'] then ['0'] else text

def dropLoneZero : List Char → List Char
  | '0' :: '.' :: text => '.' :: text
  | '-' :: '0' :: '.' :: text => '-' :: '.' :: text
  | text => text

theorem rdropWhile_eq_self {p : Char → Bool} {text : List Char}
    (h : ∀ c, text.getLast? = some c → p c = false) : text.rdropWhile p = text := by
  refine List.rdropWhile_eq_self_iff.2 fun hne => ?_
  rw [h _ (List.getLast?_eq_some_getLast hne)]
  exact Bool.false_ne_true

section
variable (d : Decimal)

theorem getLast?_whole {c : Char} (h : (d.sign ++ d.integerDigits).getLast? = some c) :
    c.isDigit = true := by
  rw [List.getLast?_append_of_ne_nil _ d.canonicalDigits.nonempty] at h
  exact d.canonicalDigits.integer c (List.mem_of_getLast? h)

theorem not_mem_whole : '.' ∉ d.sign ++ d.integerDigits := by
  intro h
  rcases List.mem_append.1 h with h | h
  · rw [sign] at h
    split at h <;> simp at h
  · exact absurd (d.canonicalDigits.integer _ h) (by decide)

theorem getLast?_pointed {c : Char}
    (h : (d.sign ++ d.integerDigits ++ '.' :: d.fractionDigits).getLast? = some c) :
    d.fractionDigits = [] ∧ c = '.' ∨ c.isDigit = true ∧ c ≠ '0' := by
  rw [List.getLast?_append_of_ne_nil _ (List.cons_ne_nil _ _)] at h
  by_cases hnone : d.fractionDigits = []
  · rw [hnone, List.getLast?_singleton, Option.some.injEq] at h
    exact .inl ⟨hnone, h.symm⟩
  · rw [← List.singleton_append, List.getLast?_append_of_ne_nil _ hnone] at h
    refine .inr ⟨d.canonicalDigits.fraction c (List.mem_of_getLast? h), ?_⟩
    rintro rfl
    exact d.canonicalDigits.trailing h

/-- A point behind which no digits are left is taken off with the zeros. -/
theorem trimFraction_pointed (count : Nat) :
    trimFraction (d.sign ++ d.integerDigits ++
      ('.' :: d.fractionDigits ++ List.replicate count '0')) =
        d.sign ++ d.integerDigits ++ pointed d.fractionDigits := by
  have hzeros : ∀ c ∈ List.replicate count '0', (c == '0') = true := fun c hc =>
    beq_iff_eq.2 (List.eq_of_mem_replicate hc)
  have hpoint : (d.sign ++ d.integerDigits ++ '.' :: d.fractionDigits).rdropWhile (· == '0') =
      d.sign ++ d.integerDigits ++ '.' :: d.fractionDigits := by
    refine rdropWhile_eq_self fun c hc => beq_eq_false_iff_ne.2 ?_
    rintro rfl
    obtain ⟨-, hpoint⟩ | ⟨-, hzero⟩ := d.getLast?_pointed hc
    · exact absurd hpoint (by decide)
    · exact hzero rfl
  rw [trimFraction, if_pos (by simp), ← List.append_assoc, Text.rdropWhile_append hzeros, hpoint,
    pointed]
  split
  · rename_i hnone
    rw [hnone, List.append_nil, List.rdropWhile_concat_pos _ _ _ (by decide)]
    refine rdropWhile_eq_self fun c hc => beq_eq_false_iff_ne.2 ?_
    rintro rfl
    exact absurd (d.getLast?_whole hc) (by decide)
  · rename_i hsome
    refine rdropWhile_eq_self fun c hc => beq_eq_false_iff_ne.2 ?_
    rintro rfl
    obtain ⟨hnone, -⟩ | ⟨hdigit, -⟩ := d.getLast?_pointed hc
    · exact hsome hnone
    · exact absurd hdigit (by decide)

theorem trimFraction_fullText : trimFraction d.fullText = d.text.toList := by
  rw [toList_text, ← List.append_assoc, fullText, ← List.append_assoc, pointed]
  split
  · rename_i hnone
    have hnone : d.fractionDigits = [] := by rw [fractionDigits_eq, hnone]; rfl
    rw [hnone, List.append_nil, trimFraction, if_neg d.not_mem_whole]
    exact (List.append_nil _).symm
  · obtain ⟨count, hcount⟩ := exists_zeros d.fullFraction
    rw [hcount, ← fractionDigits_eq]
    exact d.trimFraction_pointed count

theorem fullText_denotes : Denotes d.fullText d.value := by
  refine d.denotes_of_positional d.canonicalDigits.integer ?_ (.inl d.canonicalDigits.nonempty)
    d.positional_fullFraction
  rw [fullFraction]
  split
  · simp
  · exact fun c hc => isDigit_of_mem_paddedDigits hc

theorem dropMinusOfZero_text : dropMinusOfZero d.text.toList = d.dropZeroSign.text.toList := by
  by_cases htext : d.text.toList = ['-', '0']
  · have hzero := (d.text_eq_minus_zero.1 htext).2
    have hplain : d.dropZeroSign.negative = false := by simp [dropZeroSign, hzero]
    obtain ⟨hinteger, hfraction⟩ := d.dropZeroSign.digits_of_coefficient hzero
    rw [dropMinusOfZero, if_pos htext, toList_text, sign, hplain, hinteger, hfraction]
    rfl
  · have hkept : d.dropZeroSign = d := by
      have hsign : (d.negative && d.coefficient != 0) = d.negative := by
        rw [text_eq_minus_zero] at htext
        simpa using htext
      rw [dropZeroSign, hsign]
    rw [dropMinusOfZero, if_neg htext, hkept]

theorem lone_zero {rest : List Char}
    (h : d.integerDigits ++ pointed d.fractionDigits = '0' :: '.' :: rest) :
    d.integerDigits = ['0'] ∧ d.fraction ≠ [] := by
  have hhead : d.integerDigits.head? = some '0' := by
    rw [← List.head?_append_of_ne_nil _ d.canonicalDigits.nonempty, h]
    rfl
  have hinteger := d.canonicalDigits.leading hhead
  rw [hinteger, List.singleton_append, List.cons.injEq] at h
  rw [fraction_eq, h.2]
  exact ⟨hinteger, List.cons_ne_nil _ _⟩

theorem dropLoneZero_text : dropLoneZero d.text.toList = d.terseText.toList := by
  rw [terseText]
  split
  · rename_i h
    rw [fraction_eq] at h
    have hpointed : pointed d.fractionDigits = '.' :: d.fractionDigits :=
      if_neg (pointed_eq_nil.not.1 h.2)
    rw [String.toList_ofList, toList_text, fraction_eq, h.1, hpointed, sign]
    cases d.negative <;> rfl
  · rename_i h
    have hkept : ∀ rest, d.integerDigits ++ pointed d.fractionDigits ≠ '0' :: '.' :: rest :=
      fun rest hrest => h (d.lone_zero hrest)
    rw [toList_text, sign]
    unfold dropLoneZero
    cases d.negative with
    | false =>
      split
      · rename_i rest htext
        exact absurd htext (hkept rest)
      · rename_i rest htext
        exact absurd htext (d.digits_ne_minus _)
      · rfl
    | true =>
      split
      · rename_i rest htext
        cases htext
      · rename_i rest htext
        exact absurd (List.cons.inj htext).2 (hkept rest)
      · rfl

end

end Decimal

-- ---------------------------------------------------------------------------
-- Printed magnitudes
-- ---------------------------------------------------------------------------

namespace Formatter

open Decimal

def fullText (f : Formatter) (x : Float) : List Char :=
  match Binary.ofFloat x with
  | .finite negative mantissa exponent => (fixed f.places negative mantissa exponent).fullText
  | _ => []

def edited (f : Formatter) (text : List Char) : List Char :=
  if f.isCompressed then dropLoneZero (dropMinusOfZero (trimFraction text))
  else dropMinusOfZero (trimFraction text)

section
variable {x : Float}

/-- A finite double is printed by a numeral that has the rounded value. -/
theorem exists_numeral (precision : Nat) (hx : x.isFinite = true) :
    ∃ d : Decimal, d.places = min precision 15 ∧
      RoundsTo (min precision 15) (exactValue x) d.value ∧
      ∀ style, fullText ⟨style, precision⟩ x = d.fullText ∧
        magnitude ⟨style, precision⟩ x =
          if isCompressed ⟨style, precision⟩ then d.dropZeroSign.terseText
          else d.dropZeroSign.text := by
  obtain ⟨negative, mantissa, exponent, hbinary⟩ := Binary.exists_finite hx
  have hrounds := fixed_roundsTo (min precision 15) negative mantissa exponent
  refine ⟨fixed (min precision 15) negative mantissa exponent, rfl, ?_, fun style => ⟨?_, ?_⟩⟩
  · rw [exactValue, hbinary]
    exact hrounds
  · rw [fullText, hbinary]
    rfl
  · rw [magnitude, hbinary]
    rfl

theorem magnitude_edited (f : Formatter) (hx : x.isFinite = true) :
    (f.magnitude x).toList = f.edited (f.fullText x) := by
  obtain ⟨d, -, -, hprinted⟩ := exists_numeral f.precision hx
  obtain ⟨hfull, hmagnitude⟩ := hprinted f.style
  rw [hmagnitude, hfull, edited, trimFraction_fullText, dropMinusOfZero_text, dropLoneZero_text]
  split <;> rfl

/-- A finite double is printed as a text that denotes its value, rounded to the places of the
formatter, in both styles. Expanded text is canonical, and compressed text leaves out of it a lone
zero in front of the point. Both come from the text with all places by the same edits. -/
theorem magnitude_canonical (precision : Nat) (hx : x.isFinite = true) :
    (∃ y, (∀ z, RoundsTo (min precision 15) (exactValue x) z ↔ z = y) ∧
      ∀ style, Denotes (fullText ⟨style, precision⟩ x) y ∧
        Denotes (magnitude ⟨style, precision⟩ x).toList y) ∧
    CanonicalText (min precision 15) (magnitude ⟨.expanded, precision⟩ x).toList ∧
    (magnitude ⟨.compressed, precision⟩ x).toList =
      dropLoneZero (magnitude ⟨.expanded, precision⟩ x).toList ∧
    ∀ style, (magnitude ⟨style, precision⟩ x).toList =
      edited ⟨style, precision⟩ (fullText ⟨style, precision⟩ x) := by
  obtain ⟨d, hplaces, hrounds, hprinted⟩ := exists_numeral precision hx
  have hexpanded : magnitude ⟨.expanded, precision⟩ x = d.dropZeroSign.text :=
    (hprinted .expanded).2
  have hcompressed : magnitude ⟨.compressed, precision⟩ x = d.dropZeroSign.terseText :=
    (hprinted .compressed).2
  refine ⟨⟨d.value, fun z => ⟨fun hz => hz.unique hrounds, fun hz => hz ▸ hrounds⟩, ?_⟩, ?_, ?_,
    fun style => magnitude_edited ⟨style, precision⟩ hx⟩
  · intro style
    rw [(hprinted style).1]
    refine ⟨d.fullText_denotes, ?_⟩
    rw [← dropZeroSign_value]
    cases style with
    | expanded => exact hexpanded ▸ d.dropZeroSign.text_denotes
    | compressed => exact hcompressed ▸ d.dropZeroSign.terseText_denotes
  · rw [hexpanded, ← hplaces]
    exact d.dropZeroSign.canonicalText (by simp [dropZeroSign])
  · rw [hcompressed, hexpanded, dropLoneZero_text]

/-- A negative double halfway between two hundredths. -/
theorem magnitude_canonical_tie :
    (-0.125 : Float).isFinite = true ∧ magnitude ⟨.expanded, 2⟩ (-0.125) = "-0.12" ∧
    magnitude ⟨.compressed, 2⟩ (-0.125) = "-.12" ∧
    (∃ y, (∀ z, RoundsTo (min 2 15) (exactValue (-0.125)) z ↔ z = y) ∧
      ∀ style, Denotes (fullText ⟨style, 2⟩ (-0.125)) y ∧
        Denotes (magnitude ⟨style, 2⟩ (-0.125)).toList y) ∧
    CanonicalText (min 2 15) (magnitude ⟨.expanded, 2⟩ (-0.125)).toList ∧
    (magnitude ⟨.compressed, 2⟩ (-0.125)).toList =
      dropLoneZero (magnitude ⟨.expanded, 2⟩ (-0.125)).toList ∧
    ∀ style, (magnitude ⟨style, 2⟩ (-0.125)).toList =
      edited ⟨style, 2⟩ (fullText ⟨style, 2⟩ (-0.125)) :=
  ⟨by decide +kernel, by decide +kernel, by decide +kernel,
    magnitude_canonical 2 (by decide +kernel)⟩

end

end Formatter

end HostSheet
