import HostSheet.Proofs.Sheet.Literals
import HostSheet.Proofs.Sheet.Scanning
import HostSheet.Proofs.Text.Trimming

/-!
# The tokens of a value

Whatever the grammar of values reads is a list of tokens. This is shown once for each form, and what
holds of token lists then holds of everything that is read.
-/

namespace HostSheet

open Grammar

def Walked (s rest : List Char) : Prop :=
  ∃ ts, Lexed s ts rest

namespace Walked

variable {c : Char} {s s' rest : List Char}

theorem refl (s : List Char) : Walked s s :=
  ⟨[], .nil⟩

theorem trans (h : Walked s s') (h' : Walked s' rest) : Walked s rest := by
  obtain ⟨ts, h⟩ := h
  obtain ⟨us, h'⟩ := h'
  exact ⟨ts ++ us, h.trans h'⟩

theorem code (hc : isValueChar c = true) (h : Walked s rest) : Walked (c :: s) rest := by
  obtain ⟨ts, h⟩ := h
  exact ⟨_, .code hc h⟩

theorem group (h : Walked s (')' :: rest)) : Walked ('(' :: s) rest := by
  obtain ⟨ts, h⟩ := h
  exact ⟨_, .group h .nil⟩

theorem append {xs : List Char} (hxs : ∀ c ∈ xs, isValueChar c = true) (rest : List Char) :
    Walked (xs ++ rest) rest := by
  induction xs with
  | nil => exact refl rest
  | cons c xs ih =>
    rw [List.forall_mem_cons] at hxs
    exact code hxs.1 (ih hxs.2)

end Walked

def Form.Walks {α : Type} (F : Form α) : Prop :=
  ∀ ⦃s a rest⦄, F s a rest → Walked s rest

-- ---------------------------------------------------------------------------
-- Characters of values
-- ---------------------------------------------------------------------------

def structural : List Char :=
  ['/', '"', '\'', '{', ';', '}', '(', ')']

theorem isValueChar_of_not_mem {c : Char} (h : c ∉ structural) : isValueChar c = true := by
  simp only [structural, List.mem_cons, List.not_mem_nil, or_false, not_or] at h
  simp [isValueChar, isPlain, isBlockMark, h]

theorem isValueChar_of {p : Char → Bool} (hp : ∀ c ∈ structural, p c = false) {c : Char}
    (h : p c = true) : isValueChar c = true :=
  isValueChar_of_not_mem (not_mem_of_forall hp h)

theorem isValueChar_of_isBlank {c : Char} (h : Text.isBlank c = true) : isValueChar c = true :=
  isValueChar_of (by decide) h

theorem isValueChar_of_isNameChar {c : Char} (h : isNameChar c = true) : isValueChar c = true :=
  isValueChar_of (by decide) h

theorem isValueChar_of_isDigit {c : Char} (h : c.isDigit = true) : isValueChar c = true :=
  isValueChar_of (by decide) h

theorem isValueChar_of_isAlpha {c : Char} (h : c.isAlpha = true) : isValueChar c = true :=
  isValueChar_of (by decide) h

theorem isNameChar_of_isNameStart {c : Char} (h : isNameStart c = true) : isNameChar c = true := by
  simp only [isNameStart, Bool.or_eq_true] at h
  rcases h with h | h <;> simp [isNameChar, h]

theorem NumberText.Formed.isValueChar {t : NumberText} (ht : t.Formed) :
    ∀ c ∈ t.text, isValueChar c = true := by
  have hsign : ∀ c ∈ t.sign, HostSheet.isValueChar c = true := by
    rcases ht.sign with h | h | h <;> rw [h] <;> decide
  have hpointed : ∀ c ∈ pointed t.fraction, HostSheet.isValueChar c = true := by
    unfold pointed
    split
    · simp
    · rw [List.forall_mem_cons]
      exact ⟨by decide, fun c hc => isValueChar_of_isDigit (ht.fraction c hc)⟩
  have hunit : ∀ c ∈ t.unit, HostSheet.isValueChar c = true := by
    rcases ht.unit with h | h
    · rw [h]
      decide
    · exact fun c hc => isValueChar_of_isAlpha (h c hc)
  simp only [text, List.forall_mem_append]
  exact ⟨hsign, fun c hc => isValueChar_of_isDigit (ht.integer c hc), hpointed, hunit⟩

-- ---------------------------------------------------------------------------
-- Blanks and literals
-- ---------------------------------------------------------------------------

theorem Comment.exists_text {s rest : List Char} (h : Comment s rest) :
    ∃ text, s = text ++ rest := by
  obtain ⟨t, rfl, rfl⟩ | ⟨t, inside, rfl, hclose⟩ := comment_iff.1 h
  · refine ⟨'/' :: '/' :: t.takeWhile (· != '\n'), ?_⟩
    simp [dropLine, List.takeWhile_append_dropWhile]
  · exact ⟨'/' :: '*' :: inside ++ ['*', '/'], by simp [← closeComment_eq hclose]⟩

theorem Trivia.walked {s rest : List Char} (h : Trivia s rest) : Walked s rest := by
  induction h using Trivia.induction with
  | done => exact .refl rest
  | blank c s hc _ ih => exact .code (isValueChar_of_isBlank hc) ih
  | comment s s' hcomment _ ih =>
    obtain ⟨text, rfl⟩ := hcomment.exists_text
    obtain ⟨ts, hts⟩ := ih
    exact ⟨_, .comment hcomment hts⟩

theorem IsName.isValueChar {c : Char} {cs s rest : List Char} (h : IsName cs)
    (hs : c :: s = cs ++ rest) (hc : isNameStart c = true ∨ c = '-') :
    ∀ d ∈ cs, isValueChar d = true := by
  obtain ⟨d, ds, rfl, -, hds⟩ := h
  refine List.forall_mem_cons.2 ⟨?_, fun d hd => isValueChar_of_isNameChar (hds d hd)⟩
  obtain rfl : c = d := (List.cons.inj hs).1
  rcases hc with hc | rfl
  · exact isValueChar_of_isNameChar (isNameChar_of_isNameStart hc)
  · decide

theorem walked_readName {c : Char} {s rest : List Char} {name : String}
    (hc : isNameStart c = true ∨ c = '-') (h : readName.Reads (c :: s) name rest) :
    Walked (c :: s) rest := by
  obtain ⟨cs, hname, -, hs, -⟩ := reads_readName.1 h
  rw [hs]
  exact .append (hname.isValueChar hs hc) rest

theorem walked_readColor {s rest : List Char} {v : Value}
    (h : readColor.Reads ('#' :: s) v rest) : Walked ('#' :: s) rest := by
  obtain ⟨ds, _, hds, -, -, rfl, -⟩ := reads_readColor.1 h
  refine .code (by decide) (.append (fun d hd => ?_) rest)
  exact isValueChar_of_isNameChar (isNameChar_of_isHexDigit (hds d hd))

theorem walked_readQuoted {quote : Char} {s rest : List Char} {v : Value}
    (hquote : quote = '"' ∨ quote = '\'') (h : readQuoted.Reads (quote :: s) v rest) :
    Walked (quote :: s) rest := by
  obtain ⟨body, _, -, rfl, -⟩ := (reads_readQuoted hquote).1 h
  exact ⟨_, .string hquote h .nil⟩

theorem walked_readNumber {s rest : List Char} {v : Value} (h : readNumber.Reads s v rest) :
    Walked s rest := by
  obtain ⟨t, ht, -, rfl, -⟩ := reads_readNumber.1 h
  exact .append ht.isValueChar rest

-- ---------------------------------------------------------------------------
-- Each form
-- ---------------------------------------------------------------------------

namespace Grammar

section
variable {Item : Form RawExpr}

theorem SpaceItems.walks (hItem : Item.Walks) : (SpaceItems Item).Walks := by
  intro s es rest h
  induction h with
  | nil hblank => exact hblank.walked
  | cons hblank _ hfirst _ ih => exact (hblank.walked.trans (hItem hfirst)).trans ih

theorem SpaceList.walks (hItem : Item.Walks) : (SpaceList Item).Walks := by
  rintro _ _ _ ⟨-, hfirst, hmore⟩
  exact (hItem hfirst).trans (SpaceItems.walks hItem hmore)

theorem CommaItems.walks (hItem : Item.Walks) {atEnd : List Char → Bool} :
    (CommaItems Item atEnd).Walks := by
  intro s es rest h
  induction h with
  | none hblank => exact hblank.walked
  | last hblank hblank' => exact hblank.walked.trans (.code (by decide) hblank'.walked)
  | cons hblank hblank' _ hfirst _ ih =>
    exact hblank.walked.trans (.code (by decide) ((hblank'.walked.trans (hItem hfirst)).trans ih))

theorem CommaList.walks (hItem : Item.Walks) : (CommaList Item).Walks := by
  rintro _ _ _ ⟨hfirst, hmore⟩
  have hlist := SpaceList.walks hItem
  exact (hlist hfirst).trans (CommaItems.walks hlist hmore)

theorem EntryValue.walks (hItem : Item.Walks) : (EntryValue Item).Walks := by
  rintro _ _ _ ⟨hblank, hblank', hvalue⟩
  exact hblank.walked.trans (.code (by decide) (hblank'.walked.trans (hItem hvalue)))

theorem MapItems.walks (hItem : Item.Walks) : (MapItems Item).Walks := by
  intro s es rest h
  induction h with
  | none hblank => exact hblank.walked
  | last hblank hblank' => exact hblank.walked.trans (.code (by decide) hblank'.walked)
  | cons hblank hblank' _ hkey hvalue _ ih =>
    have hentry := (hItem hkey).trans (EntryValue.walks hItem hvalue)
    exact hblank.walked.trans (.code (by decide) ((hblank'.walked.trans hentry).trans ih))

theorem GroupRest.walks (hItem : Item.Walks) {first : RawExpr} :
    (GroupRest Item first).Walks := by
  intro s e rest h
  cases h with
  | map _ hvalue hmore => exact (EntryValue.walks hItem hvalue).trans (MapItems.walks hItem hmore)
  | list _ _ hmore => exact CommaItems.walks hItem hmore

theorem Group.walks (hItem : Item.Walks) : (Group Item).Walks := by
  intro s e rest h
  cases h with
  | empty hblank => exact .group hblank.walked
  | full hblank _ hfirst hinside =>
    exact .group ((hblank.walked.trans (hItem hfirst)).trans (GroupRest.walks hItem hinside))

theorem ArgumentItems.walked_close (hItem : Item.Walks) {s rest : List Char} {es : List RawExpr}
    (h : ArgumentItems Item s es rest) : Walked s (')' :: rest) := by
  induction h with
  | nil hblank => exact hblank.walked
  | last hblank _ hfirst hblank' =>
    exact (hblank.walked.trans (hItem hfirst)).trans hblank'.walked
  | cons hblank _ hfirst hblank' _ ih =>
    have hitem := (hblank.walked.trans (hItem hfirst)).trans hblank'.walked
    exact hitem.trans (.code (by decide) ih)

theorem ArgumentList.walks (hItem : Item.Walks) : (ArgumentList Item).Walks := by
  rintro _ _ _ ⟨hitems⟩
  exact .group (hitems.walked_close hItem)

end

theorem PrimaryOf.walks {Grp : Form RawExpr} {Args : Form (List RawExpr)} (hGrp : Grp.Walks)
    (hArgs : Args.Walks) : (PrimaryOf Grp Args).Walks := by
  intro s e rest h
  cases h with
  | group h => exact hGrp h
  | color h => exact walked_readColor h
  | quoted hquote h => exact walked_readQuoted hquote h
  | number _ h => exact walked_readNumber h
  | name _ hc h =>
    cases h with
    | name hname => exact walked_readName hc hname
    | call hname _ hargs => exact (walked_readName hc hname).trans (hArgs hargs)

/-- The tokens of a primary are passed over one by one, with the groups in it as wholes. -/
theorem Primary.walks (levels : Nat) : (Primary levels).Walks := by
  induction levels with
  | zero => exact PrimaryOf.walks (fun _ _ _ => False.elim) (fun _ _ _ => False.elim)
  | succ levels ih =>
    have hitem := SpaceList.walks ih
    exact PrimaryOf.walks (Group.walks hitem) (ArgumentList.walks hitem)

end Grammar

-- ---------------------------------------------------------------------------
-- Where items start
-- ---------------------------------------------------------------------------

def isItemStart (c : Char) : Bool :=
  c == '(' || c == '#' || c == '"' || c == '\'' || c == '+' || c == '-' || c == '.' || c.isDigit ||
    isNameStart c

def StartsItem (s : List Char) : Prop :=
  startsToken s ∧ atValueEnd s = false

theorem startsItem_cons {c : Char} (h : isItemStart c = true) (s : List Char) :
    StartsItem (c :: s) := by
  have hblanks : ∀ d ∈ blanks, isItemStart d = false := by decide +kernel
  have hends : ∀ d ∈ ['/', ',', ';', '}', '{', ')', ':'], isItemStart d = false := by decide
  have hblank : Text.isBlank c = false := not_isBlank_of_forall hblanks h
  have hne := not_mem_of_forall hends h
  simp only [List.mem_cons, List.not_mem_nil, or_false, not_or] at hne
  exact ⟨startsToken_cons.2 ⟨hblank, fun hc => absurd hc hne.1⟩, by simp [atValueEnd, hne]⟩

theorem StartsItem.atClose {s : List Char} (h : StartsItem s) : atClose s = false := by
  cases s with
  | nil => rfl
  | cons c s =>
    have hend := h.2
    simp only [atValueEnd, Bool.or_eq_false_iff] at hend
    exact hend.1.2

theorem isItemStart_of_startsNumber {c : Char} {s : List Char} (h : startsNumber (c :: s) = true) :
    isItemStart c = true := by
  by_cases hplus : c = '+'
  · simp [isItemStart, hplus]
  by_cases hminus : c = '-'
  · simp [isItemStart, hminus]
  by_cases hpoint : c = '.'
  · simp [isItemStart, hpoint]
  rw [startsNumber_cons_of_ne hplus hminus, startsUnsigned_cons hpoint] at h
  simp [isItemStart, h]

theorem Grammar.PrimaryOf.startsItem {Grp : Form RawExpr} {Args : Form (List RawExpr)}
    {s rest : List Char} {e : RawExpr} (h : PrimaryOf Grp Args s e rest) : StartsItem s := by
  cases h with
  | group => exact startsItem_cons rfl _
  | color => exact startsItem_cons rfl _
  | quoted hquote => exact startsItem_cons (by rcases hquote with rfl | rfl <;> rfl) _
  | number hnumber =>
    cases s with
    | nil => cases hnumber
    | cons c s => exact startsItem_cons (isItemStart_of_startsNumber hnumber) s
  | name _ hc => exact startsItem_cons (by rcases hc with hc | rfl <;> simp [isItemStart, *]) _

theorem Grammar.Primary.startsItem {levels : Nat} {s rest : List Char} {e : RawExpr}
    (h : Primary levels s e rest) : StartsItem s := by
  cases levels <;> exact PrimaryOf.startsItem h

end HostSheet
