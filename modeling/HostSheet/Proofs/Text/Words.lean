import HostSheet.Text.Blank
import Mathlib.Data.List.Basic

/-!
# Parts and words

Everything about the parts of a text follows from one equation: where a text is cut, the parts in
front of the cut are followed by those behind it. So blanks around a text do not change its words,
and it does not matter which blanks part them.
-/

namespace HostSheet.Text

-- ---------------------------------------------------------------------------
-- Parts
-- ---------------------------------------------------------------------------

section
variable {cut : Char → Bool} {c : Char} {xs s : List Char}

theorem splitAtEach_eq_splitOnP (cut : Char → Bool) (s : List Char) :
    splitAtEach cut s = s.splitOnP cut := by
  induction s with
  | nil => rfl
  | cons c s ih =>
    obtain ⟨part, parts, hparts⟩ := List.exists_cons_of_ne_nil (splitAtEach_ne_nil cut s)
    rw [List.splitOnP_cons_eq_if_modifyHead, ← ih, splitAtEach, hparts]
    cases cut c <;> rfl

theorem splitAtEach_append_cons (hc : cut c = true) (xs s : List Char) :
    splitAtEach cut (xs ++ c :: s) = splitAtEach cut xs ++ splitAtEach cut s := by
  simp only [splitAtEach_eq_splitOnP, List.splitOnP_append_cons xs s hc]

theorem splitAtEach_cons_cut (hc : cut c = true) (s : List Char) :
    splitAtEach cut (c :: s) = [] :: splitAtEach cut s :=
  splitAtEach_append_cons hc [] s

theorem splitAtEach_cons (hc : cut c = false) (s : List Char) :
    splitAtEach cut (c :: s) = (splitAtEach cut s).modifyHead (c :: ·) := by
  simp [splitAtEach_eq_splitOnP, List.splitOnP_cons_eq_if_modifyHead, hc]

theorem splitAtEach_of_forall (h : ∀ d ∈ xs, cut d = false) : splitAtEach cut xs = [xs] := by
  rw [splitAtEach_eq_splitOnP, List.splitOnP_eq_singleton h]

theorem splitAtEach_append_cut (h : ∀ d ∈ xs, cut d = false) (hc : cut c = true)
    (s : List Char) : splitAtEach cut (xs ++ c :: s) = xs :: splitAtEach cut s := by
  rw [splitAtEach_append_cons hc, splitAtEach_of_forall h, List.singleton_append]

theorem exists_splitAtEach_append (cut : Char → Bool) (xs : List Char) :
    ∃ front last, ∀ s,
      splitAtEach cut (xs ++ s) = front ++ (splitAtEach cut s).modifyHead (last ++ ·) := by
  induction xs with
  | nil =>
    refine ⟨[], [], fun s => ?_⟩
    cases h : splitAtEach cut s <;> simp [h]
  | cons c xs ih =>
    obtain ⟨front, last, h⟩ := ih
    cases hc : cut c with
    | true => exact ⟨[] :: front, last, fun s => by simp [splitAtEach_cons_cut hc, h]⟩
    | false =>
      cases front with
      | nil => exact ⟨[], c :: last, fun s => by simp [splitAtEach_cons hc, h, Function.comp_def]⟩
      | cons part front => exact ⟨(c :: part) :: front, last, fun s => by
          simp [splitAtEach_cons hc, h]⟩

theorem of_mem_splitAtEach {part : List Char} (h : part ∈ splitAtEach cut s) :
    ∀ c ∈ part, cut c = false ∧ c ∈ s := by
  induction s generalizing part with
  | nil =>
    obtain rfl := List.mem_singleton.1 h
    simp
  | cons d s ih =>
    cases hd : cut d with
    | true =>
      rw [splitAtEach_cons_cut hd, List.mem_cons] at h
      rcases h with rfl | h
      · simp
      · exact fun c hc => ⟨(ih h c hc).1, List.mem_cons_of_mem d (ih h c hc).2⟩
    | false =>
      obtain ⟨first, more, hparts⟩ := List.exists_cons_of_ne_nil (splitAtEach_ne_nil cut s)
      rw [splitAtEach_cons hd, hparts, List.modifyHead_cons, List.mem_cons] at h
      rw [hparts, List.forall_mem_cons] at ih
      rcases h with rfl | h
      · refine List.forall_mem_cons.2 ⟨⟨hd, List.mem_cons_self⟩, fun c hc => ?_⟩
        exact ⟨(ih.1 c hc).1, List.mem_cons_of_mem d (ih.1 c hc).2⟩
      · exact fun c hc => ⟨(ih.2 _ h c hc).1, List.mem_cons_of_mem d (ih.2 _ h c hc).2⟩

end

-- ---------------------------------------------------------------------------
-- Words
-- ---------------------------------------------------------------------------

section
variable {c : Char} {s : List Char}

theorem of_mem_words {word : List Char} (h : word ∈ words s) :
    word ≠ [] ∧ ∀ c ∈ word, isBlank c = false := by
  obtain ⟨hmem, hne⟩ := List.mem_filter.1 h
  exact ⟨by simpa using hne, fun c hc => (of_mem_splitAtEach hmem c hc).1⟩

theorem mem_of_mem_words {word : List Char} (h : word ∈ words s) : ∀ c ∈ word, c ∈ s :=
  fun c hc => (of_mem_splitAtEach (List.mem_filter.1 h).1 c hc).2

theorem words_append_cons (hc : isBlank c = true) (xs s : List Char) :
    words (xs ++ c :: s) = words xs ++ words s := by
  rw [words, splitAtEach_append_cons hc, List.filter_append]
  rfl

theorem words_cons_blank (hc : isBlank c = true) (s : List Char) : words (c :: s) = words s :=
  words_append_cons hc [] s

theorem words_append_blank (hc : isBlank c = true) (s : List Char) :
    words (s ++ [c]) = words s := by
  rw [words_append_cons hc]
  exact List.append_nil _

theorem words_padded {pre post : List Char} (hpre : ∀ c ∈ pre, isBlank c = true)
    (hpost : ∀ c ∈ post, isBlank c = true) (s : List Char) :
    words (pre ++ (s ++ post)) = words s := by
  induction pre with
  | nil =>
    rw [List.nil_append]
    induction post generalizing s with
    | nil => rw [List.append_nil]
    | cons c post ih =>
      rw [List.forall_mem_cons] at hpost
      have := ih hpost.2 (s ++ [c])
      rw [List.append_assoc, List.singleton_append] at this
      rw [this, words_append_blank hpost.1]
  | cons c pre ih =>
    rw [List.forall_mem_cons] at hpre
    rw [List.cons_append, words_cons_blank hpre.1, ih hpre.2]

theorem words_of_forall (h : ∀ c ∈ s, isBlank c = false) (hne : s ≠ []) : words s = [s] := by
  rw [words, splitAtEach_of_forall h]
  simpa using hne

/-- Words that single blanks part are found again. -/
theorem words_joined {texts : List (List Char)}
    (h : ∀ word ∈ texts, word ≠ [] ∧ ∀ c ∈ word, isBlank c = false) :
    words (List.intercalate [' '] texts) = texts := by
  induction texts with
  | nil => rfl
  | cons word texts ih =>
    rw [List.forall_mem_cons] at h
    have hword := words_of_forall h.1.2 h.1.1
    cases texts with
    | nil => simpa using hword
    | cons second texts =>
      rw [List.intercalate_cons_cons, List.append_assoc, List.singleton_append,
        words_append_cons (by decide), hword, ih h.2, List.singleton_append]

section
variable {texts : List (List Char)}
  (h : ∀ word ∈ texts, word ≠ [] ∧ ∀ c ∈ word, isBlank c = false)
include h

theorem isBlank_head_joined (hc : (List.intercalate [' '] texts).head? = some c) :
    isBlank c = false := by
  cases texts with
  | nil => cases hc
  | cons word texts =>
    rw [List.forall_mem_cons] at h
    refine h.1.2 c (List.mem_of_head? ?_)
    cases texts with
    | nil => simpa using hc
    | cons second texts =>
      rwa [List.intercalate_cons_cons, List.append_assoc,
        List.head?_append_of_ne_nil word h.1.1] at hc

theorem isBlank_last_joined (hc : (List.intercalate [' '] texts).getLast? = some c) :
    isBlank c = false := by
  induction texts with
  | nil => cases hc
  | cons word texts ih =>
    rw [List.forall_mem_cons] at h
    cases texts with
    | nil => exact h.1.2 c (List.mem_of_getLast? (by simpa using hc))
    | cons second texts =>
      have hmore : List.intercalate [' '] (second :: texts) ≠ [] := by
        intro hnil
        have hwords := words_joined h.2
        rw [hnil] at hwords
        cases hwords
      rw [List.intercalate_cons_cons, List.getLast?_append_of_ne_nil _ hmore] at hc
      exact ih h.2 hc

end

end

end HostSheet.Text
