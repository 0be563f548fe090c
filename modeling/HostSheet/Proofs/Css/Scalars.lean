import HostSheet.Css.Formatter
import HostSheet.Proofs.Css.Quoting

/-!
# Scalars as text

Every scalar that a sheet can write is printed as one primary, which is read back up to what may
follow it in a printed value.
-/

namespace HostSheet

open Grammar

-- ---------------------------------------------------------------------------
-- What follows
-- ---------------------------------------------------------------------------

/-- A primary ends here, and whatever was printed behind it goes on. -/
def Follows (s : List Char) : Prop :=
  ∀ c ∈ s.head?, c ∈ [' ', ',', ')', ':']

theorem Follows.nil : Follows [] := by
  simp [Follows]

theorem Follows.cons {c : Char} (hc : c ∈ [' ', ',', ')', ':']) (s : List Char) :
    Follows (c :: s) := by
  simpa [Follows] using hc

theorem Follows.stops {p : Char → Bool} (hp : ∀ c ∈ [' ', ',', ')', ':'], p c = false)
    {s : List Char} (h : Follows s) : Stops p s :=
  fun c hc => hp c (h c hc)

def Form.Writes (F : Form RawExpr) (After : List Char → Prop) (text : List Char) (e : RawExpr) :
    Prop :=
  ∀ s, After s → F (text ++ s) e s

-- ---------------------------------------------------------------------------
-- Numerals
-- ---------------------------------------------------------------------------

namespace Decimal

theorem isDigit_of_mem_digits {n : Nat} {c : Char} (h : c ∈ digits n) : c.isDigit = true :=
  Nat.isDigit_of_mem_toDigits (by decide) (by decide) h

theorem isDigit_of_mem_paddedDigits {width n : Nat} {c : Char} (h : c ∈ paddedDigits width n) :
    c.isDigit = true := by
  rcases List.mem_append.1 h with h | h
  · rw [List.eq_of_mem_replicate h]
    decide
  · exact isDigit_of_mem_digits h

theorem mem_of_mem_trimZeros {ds : List Char} {c : Char} (h : c ∈ trimZeros ds) : c ∈ ds := by
  have h := List.mem_reverse.1 h
  exact List.mem_reverse.1 ((List.dropWhile_sublist _).subset h)

theorem isDigit_of_mem_fractionDigits {d : Decimal} {c : Char} (h : c ∈ d.fractionDigits) :
    c.isDigit = true := by
  rw [fractionDigits] at h
  split at h
  · cases h
  · exact isDigit_of_mem_paddedDigits (mem_of_mem_trimZeros h)

theorem fraction_eq (d : Decimal) : d.fraction = NumberText.pointed d.fractionDigits := by
  rw [fraction, NumberText.pointed]
  cases d.fractionDigits <;> rfl

theorem formed (d : Decimal) {integer : List Char} (hinteger : ∀ c ∈ integer, c.isDigit = true)
    (hdigits : integer ≠ [] ∨ d.fractionDigits ≠ []) :
    (NumberText.mk d.sign integer d.fractionDigits []).Formed where
  sign := by
    change d.sign = [] ∨ d.sign = ['+'] ∨ d.sign = ['-']
    rw [sign]
    split <;> simp
  integer := hinteger
  fraction _ := isDigit_of_mem_fractionDigits
  digits := hdigits
  unit := .inr (by simp)

theorem text_formed (d : Decimal) :
    ∃ t : NumberText, t.Formed ∧ t.unit = [] ∧ d.text.toList = t.text := by
  have hformed : (NumberText.mk d.sign d.integerDigits d.fractionDigits []).Formed :=
    d.formed (fun _ => isDigit_of_mem_digits) (.inl Nat.toDigits_ne_nil)
  refine ⟨_, hformed, rfl, ?_⟩
  simp [text, NumberText.text, fraction_eq]

theorem terseText_formed (d : Decimal) :
    ∃ t : NumberText, t.Formed ∧ t.unit = [] ∧ d.terseText.toList = t.text := by
  rw [terseText]
  split
  · rename_i h
    have hfraction : d.fractionDigits ≠ [] := by
      intro hnil
      exact h.2 (by rw [fraction_eq, hnil]; rfl)
    have hformed : (NumberText.mk d.sign [] d.fractionDigits []).Formed :=
      d.formed (by simp) (.inr hfraction)
    refine ⟨_, hformed, rfl, ?_⟩
    simp [NumberText.text, fraction_eq]
  · exact d.text_formed

end Decimal

theorem Decimal.Binary.exists_finite {x : Float} (hx : x.isFinite = true) :
    ∃ negative mantissa exponent, ofFloat x = .finite negative mantissa exponent := by
  have hx : x.toModel.unpack.isFinite = true := hx
  rw [ofFloat]
  cases hunpack : x.toModel.unpack with
  | notANumber => rw [hunpack] at hx; cases hx
  | infinity sign => rw [hunpack] at hx; cases hx
  | zero sign => exact ⟨_, _, _, rfl⟩
  | finite sign mantissa exponent _ => exact ⟨_, _, _, rfl⟩

namespace Formatter

variable (f : Formatter)

theorem magnitude_formed {x : Float} (hx : x.isFinite = true) :
    ∃ t : NumberText, t.Formed ∧ t.unit = [] ∧ (f.magnitude x).toList = t.text := by
  obtain ⟨negative, mantissa, exponent, hbinary⟩ := Decimal.Binary.exists_finite hx
  rw [magnitude, hbinary]
  simp only
  split
  · exact Decimal.terseText_formed _
  · exact Decimal.text_formed _

def reread (x : Float) : Float :=
  (NumberParts.ofText (f.magnitude x).toList).number.magnitude

end Formatter

theorem Follows.ends {s : List Char} (h : Follows s) (t : NumberText) : t.Ends s where
  unit _ := h.stops (by decide)
  bare _ := h.stops (by decide)
  point _ _ := by
    rintro ⟨c, s, rfl, -⟩
    exact absurd (h '.' rfl) (by decide)

theorem Formatter.writes_number (f : Formatter) {n : Number} (hx : n.magnitude.isFinite = true)
    (hunit : IsUnit n.unit) {levels : Nat} :
    (Primary levels).Writes Follows (f.number n).toList
      (.literal (.number ⟨f.reread n.magnitude, n.unit⟩)) := by
  intro s hs
  obtain ⟨t, ht, hbare, htext⟩ := f.magnitude_formed hx
  have hformed : ({t with unit := n.unit.toList} : NumberText).Formed :=
    { ht with unit := hunit.imp_left (congrArg String.toList) }
  have hnumber : ({t with unit := n.unit.toList} : NumberText).number =
      ⟨f.reread n.magnitude, n.unit⟩ := by
    have hparts := ofText_append ht (Follows.nil.ends t)
    rw [List.append_nil] at hparts
    rw [reread, htext, hparts, NumberText.number, String.ofList_toList]
    rfl
  have hprinted : (f.number n).toList ++ s =
      ({t with unit := n.unit.toList} : NumberText).text ++ s := by
    simp [number, htext, NumberText.text, hbare]
  have hread := reads_readNumber.2 ⟨_, hformed, hs.ends _, rfl, rfl⟩
  rw [hprinted, ← hnumber]
  cases levels <;> exact .number (hformed.startsNumber s) hread

-- ---------------------------------------------------------------------------
-- Names and strings
-- ---------------------------------------------------------------------------

theorem isDigit_of_isNameStart {c : Char} (h : isNameStart c = true) : c.isDigit = false := by
  rw [← Bool.not_eq_true]
  intro hdigit
  have hsmall : c.toNat < 0xAA := by
    have hc := (isDigit_iff.1 hdigit).2
    simp only [Char.le_def, UInt32.le_iff_toNat_le] at hc
    exact Nat.lt_of_le_of_lt hc (by decide)
  have hranges : Text.inRanges Text.letterRanges c.toNat = false := if_pos hsmall
  simp only [isNameStart, Text.isLetter, hranges, Bool.or_false, Bool.or_eq_true, beq_iff_eq] at h
  rcases h with halpha | rfl
  · rw [isDigit_of_isAlpha halpha] at hdigit
    cases hdigit
  · cases hdigit

theorem startsUnsigned_of_isNameStart {c : Char} (h : isNameStart c = true) (s : List Char) :
    startsUnsigned (c :: s) = false := by
  have hpoint : c ≠ '.' := by
    rintro rfl
    exact absurd h (by decide)
  rw [startsUnsigned_cons hpoint, isDigit_of_isNameStart h]

theorem startsNumber_of_identifier {c : Char} {cs : List Char}
    (h : isNameStart c = true ∨ c = '-' ∧ startsAfterHyphen cs = true) (s : List Char) :
    startsNumber (c :: (cs ++ s)) = false := by
  rcases h with h | ⟨rfl, h⟩
  · have hplus : c ≠ '+' := by
      rintro rfl
      exact absurd h (by decide)
    have hminus : c ≠ '-' := by
      rintro rfl
      exact absurd h (by decide)
    rw [startsNumber_cons_of_ne hplus hminus, startsUnsigned_of_isNameStart h]
  · cases cs with
    | nil => cases h
    | cons d cs =>
      simp only [startsAfterHyphen, Bool.or_eq_true, beq_iff_eq] at h
      rcases h with h | rfl
      · exact startsUnsigned_of_isNameStart h _
      · rfl

/-- An identifier is read as a name up to where it stops, and is not taken for a number. -/
theorem reads_identifier {name : String} (hname : isIdentifier name.toList = true) {s : List Char}
    (hs : Stops isNameChar s) :
    ∃ c cs, name.toList = c :: cs ∧ (isNameStart c = true ∨ c = '-') ∧
      startsNumber (c :: (cs ++ s)) = false ∧ readName.Reads (c :: (cs ++ s)) name s := by
  generalize hcs : name.toList = cs at hname
  cases cs with
  | nil => cases hname
  | cons c cs =>
    simp only [isIdentifier, Bool.and_eq_true, Bool.or_eq_true, beq_iff_eq,
      List.all_eq_true] at hname
    obtain ⟨hstart, hmore⟩ := hname
    refine ⟨c, cs, rfl, hstart.imp_right And.left, startsNumber_of_identifier hstart s,
      reads_readName.2 ⟨c :: cs, ⟨c, cs, rfl, ?_, hmore⟩, hs, rfl, ?_⟩⟩
    · rintro rfl
      exact hstart.elim (fun h => absurd h (by decide)) And.right
    · rw [← hcs, String.ofList_toList]

theorem writes_nameValue (name : String) (hname : isIdentifier name.toList = true) {levels : Nat} :
    (Primary levels).Writes Follows name.toList (.literal (nameValue name)) := by
  intro s hs
  obtain ⟨c, cs, hcs, hstart, hnumber, hread⟩ := reads_identifier hname (hs.stops (by decide))
  have hcall : s.head? ≠ some '(' := fun h => absurd (hs '(' h) (by decide)
  rw [hcs]
  cases levels <;> exact .name hnumber hstart (.name hread hcall)

theorem writes_quote {text : String} (htext : '\n' ∉ text.toList) {levels : Nat} :
    (Primary levels).Writes Follows (Formatter.quote text).toList
      (.literal (.string text true)) := by
  intro s _
  obtain ⟨body, hbody, hescape⟩ := exists_quoted_escape htext s
  have hread : readQuoted.Reads ('"' :: (body ++ '"' :: s)) (.string text true) s :=
    (reads_readQuoted (.inl rfl)).2 ⟨body, text.toList, hbody, rfl, by rw [String.ofList_toList]⟩
  rw [toList_quote, List.cons_append, List.append_assoc, List.singleton_append, hescape]
  cases levels <;> exact .quoted (.inl rfl) hread

-- ---------------------------------------------------------------------------
-- Colours
-- ---------------------------------------------------------------------------

theorem isHexDigit_hexDigit {n : Nat} (h : n < 16) :
    isHexDigit (Formatter.hexDigit n) = true := by
  revert n
  decide

theorem hexValue_hexDigit {n : Nat} (h : n < 16) : hexValue (Formatter.hexDigit n) = n := by
  revert n
  decide

theorem channel_channelDigits (c : UInt8) :
    channel (Formatter.hexDigit (c.toNat / 16)) (Formatter.hexDigit (c.toNat % 16)) = c := by
  have hc := c.toNat_lt
  rw [channel, hexValue_hexDigit (by omega), hexValue_hexDigit (Nat.mod_lt _ (by decide)),
    Nat.div_add_mod]
  exact UInt8.ofNat_toNat

theorem channel_doubled {c : UInt8} (h : Formatter.isDoubled c = true) :
    channel (Formatter.hexDigit (c.toNat % 16)) (Formatter.hexDigit (c.toNat % 16)) = c := by
  have h : c.toNat / 16 = c.toNat % 16 := by simpa [Formatter.isDoubled] using h
  have hchannel := channel_channelDigits c
  rwa [h] at hchannel

theorem Formatter.exists_hexColor (f : Formatter) (c : Color) :
    ∃ ds, (∀ d ∈ ds, isHexDigit d = true) ∧ hexColor? ds = some {c with alpha := 1} ∧
      (f.opaqueColor c).toList = '#' :: ds := by
  have hlow : ∀ c : UInt8, isHexDigit (hexDigit (c.toNat % 16)) = true :=
    fun c => isHexDigit_hexDigit (Nat.mod_lt _ (by decide))
  have hhigh : ∀ c : UInt8, isHexDigit (hexDigit (c.toNat / 16)) = true :=
    fun c => isHexDigit_hexDigit (by have := c.toNat_lt; omega)
  rw [opaqueColor]
  split
  · rename_i h
    simp only [Bool.and_eq_true] at h
    obtain ⟨⟨⟨-, hred⟩, hgreen⟩, hblue⟩ := h
    refine ⟨_, ?_, ?_, String.toList_ofList⟩
    · simp [hlow]
    · simp only [List.map_cons, List.map_nil, hexColor?, channel_doubled, hred, hgreen, hblue]
  · refine ⟨_, ?_, ?_, String.toList_ofList⟩
    · simp [channelDigits, hlow, hhigh]
    · simp only [List.flatMap_cons, List.flatMap_nil, channelDigits, List.cons_append,
        List.nil_append, hexColor?, channel_channelDigits]

theorem Formatter.writes_color (f : Formatter) {c : Color} (hc : c.alpha = 1) {levels : Nat} :
    (Primary levels).Writes Follows (f.color c).toList (.literal (.color c)) := by
  intro s hs
  obtain ⟨ds, hds, hcolor, htext⟩ := f.exists_hexColor c
  obtain ⟨red, green, blue, alpha⟩ := c
  obtain rfl : alpha = 1 := hc
  have hopaque : Color.isOpaque ⟨red, green, blue, 1⟩ = true := by
    change decide ((1 : Float) ≤ 1) = true
    decide
  have hread : readColor.Reads ('#' :: (ds ++ s)) (.color ⟨red, green, blue, 1⟩) s :=
    reads_readColor.2 ⟨ds, _, hds, hcolor, hs.stops (by decide), rfl, rfl⟩
  rw [color, if_pos hopaque, htext]
  cases levels <;> exact .color hread

end HostSheet
