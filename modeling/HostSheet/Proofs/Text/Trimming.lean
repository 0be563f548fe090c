import HostSheet.Proofs.Text.Words
import Mathlib.Data.List.DropRight

/-!
# Blanks around a text

Trimming takes the blanks off both sides of a text and nothing else, so it does not matter which
blanks are there. Where a text is cut and its parts are trimmed, trimming the whole changes nothing.
-/

namespace HostSheet

/-- Decides for the characters of a list one by one. There are other ways to decide such statements,
which go through all characters there are. -/
instance (priority := high) decidableForallMem {P : Char → Prop} [DecidablePred P]
    (cs : List Char) : Decidable (∀ c ∈ cs, P c) :=
  List.decidableBAll P cs

def Blank (pad : List Char) : Prop :=
  ∀ c ∈ pad, Text.isBlank c = true

instance (pad : List Char) : Decidable (Blank pad) :=
  inferInstanceAs (Decidable (∀ c ∈ pad, Text.isBlank c = true))

theorem blank_nil : Blank [] := by
  decide

-- ---------------------------------------------------------------------------
-- Characters that are not blank
-- ---------------------------------------------------------------------------

def blanks : List Char :=
  [9, 10, 11, 12, 13, 0x20, 0x85, 0xA0, 0x1680, 0x2000, 0x2001, 0x2002, 0x2003, 0x2004, 0x2005,
    0x2006, 0x2007, 0x2008, 0x2009, 0x200A, 0x2028, 0x2029, 0x202F, 0x205F, 0x3000].map Char.ofNat

theorem mem_blanks {c : Char} (h : Text.isBlank c = true) : c ∈ blanks := by
  refine List.mem_map.2 ⟨c.toNat, ?_, Char.ofNat_toNat c⟩
  simp only [Text.isBlank, Bool.or_eq_true, Bool.and_eq_true, decide_eq_true_eq, beq_iff_eq] at h
  simp only [List.mem_cons, List.not_mem_nil, or_false]
  omega

theorem not_mem_of_forall {p : Char → Bool} {cs : List Char} (hp : ∀ c ∈ cs, p c = false) {c : Char}
    (h : p c = true) : c ∉ cs := by
  intro hmem
  rw [hp c hmem] at h
  cases h

theorem forall_ne_of_not_mem {c : Char} {cs : List Char} (h : c ∉ cs) :
    ∀ d ∈ cs, (d == c) = false :=
  fun _ hd => beq_eq_false_iff_ne.2 fun heq => h (heq ▸ hd)

theorem not_isBlank_of_forall {p : Char → Bool} (hp : ∀ c ∈ blanks, p c = false) {c : Char}
    (h : p c = true) : Text.isBlank c = false :=
  Bool.eq_false_iff.2 fun hblank => not_mem_of_forall hp h (mem_blanks hblank)

namespace Text

-- ---------------------------------------------------------------------------
-- Trimming
-- ---------------------------------------------------------------------------

section
variable {pre post s : List Char}

theorem trim_eq_rdropWhile (s : List Char) : trim s = (trimStart s).rdropWhile isBlank := rfl

theorem trimStart_of_blank (h : Blank s) : trimStart s = [] :=
  List.dropWhile_eq_nil_iff.2 h

/-- A text is what trimming leaves of it, with blanks on both sides. -/
theorem exists_trim (s : List Char) :
    ∃ pre post, Blank pre ∧ Blank post ∧ s = pre ++ (trim s ++ post) := by
  refine ⟨s.takeWhile isBlank, (trimStart s).rtakeWhile isBlank,
    fun _ hc => List.mem_takeWhile_imp hc, fun _ hc => List.mem_rtakeWhile_imp hc, ?_⟩
  rw [trim_eq_rdropWhile, List.rdropWhile_append_rtakeWhile]
  exact List.takeWhile_append_dropWhile.symm

theorem trim_append_left (hpre : Blank pre) (s : List Char) : trim (pre ++ s) = trim s := by
  have hstart : trimStart (pre ++ s) = trimStart s := List.dropWhile_append_of_pos hpre
  rw [trim_eq_rdropWhile, hstart, trim_eq_rdropWhile]

theorem rdropWhile_append {p : Char → Bool} (hpost : ∀ c ∈ post, p c = true) (s : List Char) :
    (s ++ post).rdropWhile p = s.rdropWhile p := by
  rw [List.rdropWhile, List.reverse_append, List.rdropWhile,
    List.dropWhile_append_of_pos fun c hc => hpost c (List.mem_reverse.1 hc)]

theorem trim_append_right (hpost : Blank post) (s : List Char) : trim (s ++ post) = trim s := by
  rw [trim_eq_rdropWhile, trimStart, List.dropWhile_append]
  split
  · -- The text is blank itself, and nothing is left on either side.
    rename_i h
    have hnil : trimStart s = [] := List.isEmpty_iff.1 h
    rw [trim_eq_rdropWhile, hnil]
    exact congrArg _ (trimStart_of_blank hpost)
  · exact rdropWhile_append hpost _

theorem trim_padded (hpre : Blank pre) (hpost : Blank post) (s : List Char) :
    trim (pre ++ (s ++ post)) = trim s := by
  rw [trim_append_left hpre, trim_append_right hpost]

theorem trim_eq_nil_iff : trim s = [] ↔ Blank s := by
  constructor
  · intro h
    obtain ⟨pre, post, hpre, hpost, hs⟩ := exists_trim s
    rw [hs, h]
    exact fun c hc => (List.mem_append.1 hc).elim (hpre c) (hpost c)
  · intro h
    rw [trim_eq_rdropWhile, trimStart_of_blank h]
    rfl

theorem trim_of_bare (h : ∀ c, s.head? = some c ∨ s.getLast? = some c → isBlank c = false) :
    trim s = s := by
  have hstart : trimStart s = s := by
    cases s with
    | nil => rfl
    | cons c s => exact List.dropWhile_cons_of_neg (by simp [h c (.inl rfl)])
  rw [trim_eq_rdropWhile, hstart, List.rdropWhile_eq_self_iff]
  intro hl
  simp [h _ (.inr (List.getLast?_eq_some_getLast hl))]

theorem trim_of_forall (h : ∀ c ∈ s, isBlank c = false) : trim s = s :=
  trim_of_bare fun c hc => h c (hc.elim List.mem_of_head? List.mem_of_getLast?)

end

-- ---------------------------------------------------------------------------
-- Trimmed parts
-- ---------------------------------------------------------------------------

section
variable {cut : Char → Bool}

theorem splitAtEach_append_left {xs : List Char} (h : ∀ c ∈ xs, cut c = false) (s : List Char) :
    splitAtEach cut (xs ++ s) = (splitAtEach cut s).modifyHead (xs ++ ·) := by
  induction xs with
  | nil => cases hs : splitAtEach cut s <;> simp [hs]
  | cons c xs ih =>
    rw [List.forall_mem_cons] at h
    rw [List.cons_append, splitAtEach_cons h.1, ih h.2, List.modifyHead_modifyHead]
    rfl

theorem map_trim_splitAtEach_trim (hcut : ∀ c, isBlank c = true → cut c = false) (s : List Char) :
    (splitAtEach cut (trim s)).map trim = (splitAtEach cut s).map trim := by
  obtain ⟨pre, post, hpre, hpost, hs⟩ := exists_trim s
  obtain ⟨front, last, h⟩ := exists_splitAtEach_append cut (trim s)
  have hbare : splitAtEach cut (trim s) = front ++ [last] := by
    simpa [splitAtEach] using h []
  have hbehind : splitAtEach cut (trim s ++ post) = front ++ [last ++ post] := by
    rw [h, splitAtEach_of_forall fun c hc => hcut c (hpost c hc)]
    rfl
  conv_rhs => rw [hs, splitAtEach_append_left (fun c hc => hcut c (hpre c hc)), hbehind]
  rw [hbare]
  cases front with
  | nil => simp [trim_padded hpre hpost]
  | cons part front => simp [trim_append_left hpre, trim_append_right hpost]

end

end Text

-- ---------------------------------------------------------------------------
-- Texts with blanks around them
-- ---------------------------------------------------------------------------

/-- The second text is the first one with blanks around it. -/
def Padded (t s : List Char) : Prop :=
  ∃ pre post, Blank pre ∧ Blank post ∧ s = pre ++ (t ++ post)

section
variable {s t : List Char}

theorem padded_trim (s : List Char) : Padded (Text.trim s) s :=
  Text.exists_trim s

theorem Padded.refl (s : List Char) : Padded s s :=
  ⟨[], [], blank_nil, blank_nil, (List.append_nil s).symm⟩

theorem Padded.trim_eq (h : Padded t s) : Text.trim s = Text.trim t := by
  obtain ⟨pre, post, hpre, hpost, rfl⟩ := h
  exact Text.trim_padded hpre hpost t

theorem Blank.not_mem (h : Blank s) {c : Char} (hc : Text.isBlank c = false) : c ∉ s := by
  intro hmem
  rw [h c hmem] at hc
  cases hc

theorem Padded.not_mem (h : Padded t s) {c : Char} (hc : Text.isBlank c = false) (ht : c ∉ t) :
    c ∉ s := by
  obtain ⟨pre, post, hpre, hpost, rfl⟩ := h
  simp only [List.mem_append, not_or]
  exact ⟨hpre.not_mem hc, ht, hpost.not_mem hc⟩

theorem Padded.behind {pre : List Char} (hpre : Blank pre) (h : Padded t s) :
    Padded t (pre ++ s) := by
  obtain ⟨pre', post, hpre', hpost, rfl⟩ := h
  refine ⟨pre ++ pre', post, ?_, hpost, (List.append_assoc ..).symm⟩
  exact List.forall_mem_append.2 ⟨hpre, hpre'⟩

end

end HostSheet
