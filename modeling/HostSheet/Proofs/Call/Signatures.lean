import HostSheet.Proofs.Result
import HostSheet.Proofs.Sheet.Literals
import HostSheet.Proofs.Text.Trimming
import HostSheet.Signature

/-!
# Signatures as they are written

A signature is accepted exactly if it is a name and, in parentheses, parameters with commas between
them, whatever blanks stand around the parts. The grammar is stated on texts alone; the reader looks
for the first parenthesis on either side, cuts what is between them at the commas and trims the
pieces. The canonical text of an accepted signature is accepted as well and gives that signature.
-/

namespace HostSheet.Signature

-- ---------------------------------------------------------------------------
-- The grammar
-- ---------------------------------------------------------------------------

def IsStart (c : Char) : Prop :=
  ('A' ≤ c ∧ c ≤ 'Z') ∨ ('a' ≤ c ∧ c ≤ 'z') ∨ c = '_' ∨ c = '-'

def IsRest (c : Char) : Prop :=
  IsStart c ∨ ('0' ≤ c ∧ c ≤ '9')

inductive Name : List Char → Prop
  | mk {c : Char} {cs : List Char} : IsStart c → (∀ d ∈ cs, IsRest d) → Name (c :: cs)

inductive Param : List Char → String → Prop
  | bare {name : String} : Name name.toList → Param name.toList name
  | sigil {name : String} : Name name.toList → Param ('$' :: name.toList) name

inductive ParamList : List Char → List String → Prop
  | last {s t : List Char} {p : String} : Padded t s → Param t p → ParamList s [p]
  | cons {s t rest : List Char} {p : String} {ps : List String} :
      Padded t s → Param t p → ParamList rest ps → ParamList (s ++ ',' :: rest) (p :: ps)

inductive Params : List Char → List String → Prop
  | none {s : List Char} : Blank s → Params s []
  | some {s : List Char} {ps : List String} : ParamList s ps → Params s ps

inductive Written : List Char → Signature → Prop
  | mk {before inside after : List Char} {name : String} {params : List String} :
      Padded name.toList before → Name name.toList → Params inside params → Blank after →
      Written (before ++ '(' :: (inside ++ ')' :: after)) ⟨name, params⟩

-- ---------------------------------------------------------------------------
-- Names
-- ---------------------------------------------------------------------------

theorem isIdentStart_iff {c : Char} : isIdentStart c = true ↔ IsStart c := by
  simp only [isIdentStart, IsStart, Bool.or_eq_true, beq_iff_eq, isAlpha_iff, or_assoc]

theorem isIdentRest_iff {c : Char} : isIdentRest c = true ↔ IsRest c := by
  simp only [isIdentRest, IsRest, IsStart, Char.isAlphanum, Bool.or_eq_true, beq_iff_eq,
    isAlpha_iff, isDigit_iff]
  tauto

theorem isIdentifier_iff {s : List Char} : isIdentifier s = true ↔ Name s := by
  constructor
  · intro h
    cases s with
    | nil => cases h
    | cons c cs =>
      simp only [isIdentifier, Bool.and_eq_true, List.all_eq_true] at h
      exact .mk (isIdentStart_iff.1 h.1) fun d hd => isIdentRest_iff.1 (h.2 d hd)
  · rintro ⟨hc, hcs⟩
    simp only [isIdentifier, Bool.and_eq_true, List.all_eq_true]
    exact ⟨isIdentStart_iff.2 hc, fun d hd => isIdentRest_iff.2 (hcs d hd)⟩

section
variable {s : List Char}

theorem Name.isIdentRest (h : Name s) : ∀ c ∈ s, Signature.isIdentRest c = true := by
  obtain ⟨hstart, hrest⟩ := h
  exact List.forall_mem_cons.2
    ⟨isIdentRest_iff.2 (.inl hstart), fun c hc => isIdentRest_iff.2 (hrest c hc)⟩

theorem Name.not_isBlank (h : Name s) : ∀ c ∈ s, Text.isBlank c = false :=
  fun c hc => not_isBlank_of_forall (by decide +kernel) (h.isIdentRest c hc)

theorem Name.not_mem (h : Name s) {c : Char} (hc : Signature.isIdentRest c = false) : c ∉ s := by
  intro hmem
  rw [h.isIdentRest c hmem] at hc
  cases hc

theorem Name.ne_nil (h : Name s) : s ≠ [] := by
  obtain ⟨-, -⟩ := h
  exact List.cons_ne_nil _ _

theorem Name.trim (h : Name s) : Text.trim s = s :=
  Text.trim_of_forall h.not_isBlank

end

-- ---------------------------------------------------------------------------
-- Parameters
-- ---------------------------------------------------------------------------

section
variable {s t : List Char} {p : String}

theorem Param.not_isBlank (h : Param s p) : ∀ c ∈ s, Text.isBlank c = false := by
  cases h with
  | bare h => exact h.not_isBlank
  | sigil h => exact List.forall_mem_cons.2 ⟨by decide, h.not_isBlank⟩

theorem Param.not_mem (h : Param s p) {c : Char} (hc : Signature.isIdentRest c = false)
    (hsigil : c ≠ '$') : c ∉ s := by
  cases h with
  | bare h => exact h.not_mem hc
  | sigil h => simpa [hsigil] using h.not_mem hc

theorem Param.ne_nil (h : Param s p) : s ≠ [] := by
  cases h with
  | bare h => exact h.ne_nil
  | sigil h => exact List.cons_ne_nil _ _

theorem Param.trim_eq (h : Param t p) (hpad : Padded t s) : Text.trim s = t :=
  hpad.trim_eq.trans (Text.trim_of_forall h.not_isBlank)

theorem Param.name (h : Param s p) : Name p.toList := by
  cases h with
  | bare h => exact h
  | sigil h => exact h

theorem bareParam_of_ne {c : Char} (hc : c ≠ '$') (cs : List Char) :
    bareParam (c :: cs) = c :: cs := by
  rw [bareParam]
  rintro cs ⟨⟩
  exact hc rfl

theorem Name.bareParam (h : Name s) : Signature.bareParam s = s := by
  obtain ⟨c, cs, rfl⟩ := List.exists_cons_of_ne_nil h.ne_nil
  refine bareParam_of_ne ?_ cs
  rintro rfl
  exact h.not_mem (by decide) List.mem_cons_self

theorem param_iff :
    Param s p ↔ isIdentifier (bareParam s) = true ∧ String.ofList (bareParam s) = p := by
  constructor
  · rintro (h | h)
    · rw [h.bareParam, String.ofList_toList]
      exact ⟨isIdentifier_iff.2 h, rfl⟩
    · exact ⟨isIdentifier_iff.2 h, String.ofList_toList⟩
  · rintro ⟨h, rfl⟩
    rw [isIdentifier_iff, ← String.toList_ofList (l := bareParam s)] at h
    by_cases hs : s.head? = some '$'
    · obtain ⟨cs, rfl⟩ := List.head?_eq_some_iff.1 hs
      have hparam := Param.sigil h
      rwa [String.toList_ofList] at hparam
    · have hbare : bareParam s = s := by
        cases s with
        | nil => rfl
        | cons c cs => exact bareParam_of_ne (fun hc => hs (congrArg some hc)) cs
      rw [hbare] at h ⊢
      have hparam := Param.bare h
      rwa [String.toList_ofList] at hparam

end

-- ---------------------------------------------------------------------------
-- Lists of parameters
-- ---------------------------------------------------------------------------

section
variable {s : List Char} {ps : List String}

theorem Param.cut {t : List Char} {p : String} (h : Param t p) (hpad : Padded t s) :
    ∀ c ∈ s, (c == ',') = false :=
  forall_ne_of_not_mem (hpad.not_mem (by decide) (h.not_mem (by decide) (by decide)))

theorem paramList_iff :
    ParamList s ps ↔ List.Forall₂ (fun piece p => Param (Text.trim piece) p)
      (Text.splitAtEach (· == ',') s) ps := by
  constructor
  · intro h
    induction h with
    | last hpad hparam =>
      rw [Text.splitAtEach_of_forall (hparam.cut hpad)]
      exact .cons (hparam.trim_eq hpad ▸ hparam) .nil
    | cons hpad hparam _ ih =>
      rw [Text.splitAtEach_append_cut (hparam.cut hpad) rfl]
      exact .cons (hparam.trim_eq hpad ▸ hparam) ih
  · intro h
    induction ps generalizing s with
    | nil => exact absurd (List.forall₂_nil_right_iff.1 h) (Text.splitAtEach_ne_nil _ s)
    | cons p ps ih =>
      by_cases hcomma : ',' ∈ s
      · obtain ⟨piece, rest, rfl, hpiece⟩ := List.eq_append_cons_of_mem hcomma
        rw [Text.splitAtEach_append_cut (forall_ne_of_not_mem hpiece) rfl, List.forall₂_cons] at h
        exact .cons (padded_trim piece) h.1 (ih h.2)
      · rw [Text.splitAtEach_of_forall (forall_ne_of_not_mem hcomma), List.forall₂_cons,
          List.forall₂_nil_left_iff] at h
        obtain ⟨hparam, rfl⟩ := h
        exact .last (padded_trim s) hparam

theorem ParamList.behind {pre : List Char} (hpre : Blank pre) (h : ParamList s ps) :
    ParamList (pre ++ s) ps := by
  cases h with
  | last hpad hparam => exact .last (hpad.behind hpre) hparam
  | cons hpad hparam hrest =>
    rw [← List.append_assoc]
    exact .cons (hpad.behind hpre) hparam hrest

theorem ParamList.not_blank (h : ParamList s ps) : ¬ Blank s := by
  intro hblank
  have hcomma : ',' ∉ s := hblank.not_mem (by decide)
  rw [paramList_iff, Text.splitAtEach_of_forall (forall_ne_of_not_mem hcomma)] at h
  cases h with
  | cons hparam => exact hparam.ne_nil (Text.trim_eq_nil_iff.2 hblank)

theorem readParams_cons_ok {signature : String} {position : Nat} {piece : List Char}
    {pieces : List (List Char)} :
    readParams signature position (piece :: pieces) = .ok ps ↔
      ∃ p rest, Param (Text.trim piece) p ∧
        readParams signature (position + 1) pieces = .ok rest ∧ ps = p :: rest := by
  rw [readParams]
  cases hparam : isIdentifier (bareParam (Text.trim piece)) with
  | false =>
    have hnone : ∀ p, ¬ Param (Text.trim piece) p := by
      intro p h
      rw [(param_iff.1 h).1] at hparam
      cases hparam
    simp only [hnone, false_and, exists_false, iff_false]
    split <;> simp [bind_ok, -bind_pure_comp]
  | true =>
    have hne : (Text.trim piece).isEmpty = false :=
      List.isEmpty_eq_false_iff.2 (param_iff.2 ⟨hparam, rfl⟩).ne_nil
    simp only [hne, hparam, param_iff, true_and, Bool.false_eq_true, if_false, if_true, bind_ok,
      pure_ok, exists_and_left, exists_eq_left']
    exact exists_congr fun _ => and_congr_right' eq_comm

theorem readParams_ok {signature : String} {position : Nat} {pieces : List (List Char)} :
    readParams signature position pieces = .ok ps ↔
      List.Forall₂ (fun piece p => Param (Text.trim piece) p) pieces ps := by
  induction pieces generalizing position ps with
  | nil => simp [readParams, eq_comm]
  | cons piece pieces ih =>
    simp only [readParams_cons_ok, List.forall₂_cons_left_iff, ih]

theorem ParamList.not_mem_close (h : ParamList s ps) : ')' ∉ s := by
  have hitem : ∀ {s t : List Char} {p : String}, Padded t s → Param t p → ')' ∉ s :=
    fun hpad hparam => hpad.not_mem (by decide) (hparam.not_mem (by decide) (by decide))
  induction h with
  | last hpad hparam => exact hitem hpad hparam
  | cons hpad hparam _ ih => simpa using ⟨hitem hpad hparam, ih⟩

theorem Params.not_mem_close (h : Params s ps) : ')' ∉ s := by
  cases h with
  | none h => exact h.not_mem (by decide)
  | some h => exact h.not_mem_close

theorem params_iff (signature : String) :
    Params s ps ↔
      (Text.trim s = [] ∧ ps = []) ∨
        Text.trim s ≠ [] ∧
          readParams signature 1 (Text.splitAtEach (· == ',') (Text.trim s)) = .ok ps := by
  have hcut : ∀ c, Text.isBlank c = true → (c == ',') = false := by
    intro c hc
    rw [beq_eq_false_iff_ne]
    rintro rfl
    exact absurd hc (by decide)
  have hlist : readParams signature 1 (Text.splitAtEach (· == ',') (Text.trim s)) = .ok ps ↔
      ParamList s ps := by
    rw [readParams_ok, paramList_iff, ← List.forall₂_map_left_iff,
      Text.map_trim_splitAtEach_trim hcut, List.forall₂_map_left_iff]
  rw [hlist, ne_eq, Text.trim_eq_nil_iff]
  constructor
  · rintro (h | h)
    · exact .inl ⟨h, rfl⟩
    · exact .inr ⟨h.not_blank, h⟩
  · rintro (⟨h, rfl⟩ | ⟨-, h⟩)
    · exact .none h
    · exact .some h

end

-- ---------------------------------------------------------------------------
-- Signatures
-- ---------------------------------------------------------------------------

theorem inside_ok (signature name : String) {s : List Char} {sig : Signature} :
    (if (Text.trim s).isEmpty = true then pure ⟨name, []⟩ else do
        let params ← readParams signature 1 (Text.splitAtEach (· == ',') (Text.trim s))
        pure ⟨name, params⟩) = (.ok sig : Except SignatureError Signature) ↔
      Params s sig.params ∧ name = sig.name := by
  obtain ⟨name', params⟩ := sig
  rw [params_iff signature]
  by_cases hnil : Text.trim s = []
  · simp [hnil, pure_ok, and_comm, eq_comm]
  · simp [hnil, bind_ok, pure_ok, and_comm, -bind_pure_comp]

theorem cutAt?_some {c : Char} {s before after : List Char} :
    cutAt? c s = some (before, after) ↔ c ∉ before ∧ s = before ++ c :: after := by
  induction s generalizing before after with
  | nil => simp [cutAt?]
  | cons d s ih =>
    rw [cutAt?]
    by_cases hd : d = c
    · subst hd
      rw [if_pos rfl]
      cases before with
      | nil => simp
      | cons e before =>
        simp only [Option.some.injEq, Prod.mk.injEq, List.nil_eq, reduceCtorEq, false_and,
          List.mem_cons, not_or, List.cons_append, List.cons.injEq, false_iff, not_and]
        exact fun hne heq => absurd heq hne.1
    · rw [if_neg hd]
      cases before with
      | nil => simp [hd]
      | cons e before =>
        simp only [Option.map_eq_some_iff, Prod.exists, Prod.mk.injEq, List.cons.injEq, ih,
          List.mem_cons, not_or, List.cons_append]
        constructor
        · rintro ⟨_, _, ⟨hmem, rfl⟩, ⟨rfl, rfl⟩, rfl⟩
          exact ⟨⟨Ne.symm hd, hmem⟩, rfl, rfl⟩
        · rintro ⟨⟨-, hmem⟩, rfl, rfl⟩
          exact ⟨before, after, ⟨hmem, rfl⟩, ⟨rfl, rfl⟩, rfl⟩

def Cuts (s : List Char) (sig : Signature) : Prop :=
  ∃ before behind inside after,
    cutAt? '(' (Text.trim s) = some (before, behind) ∧
    cutAt? ')' behind = some (inside, after) ∧
    isIdentifier (Text.trim before) = true ∧ Text.trim after = [] ∧
    Params inside sig.params ∧ String.ofList (Text.trim before) = sig.name

theorem parse_ok {source : String} {sig : Signature} :
    parse source = .ok sig ↔ Cuts source.toList sig := by
  rw [parse, Cuts]
  cases hopen : cutAt? '(' (Text.trim source.toList) with
  | none => simp
  | some cut =>
    obtain ⟨before, behind⟩ := cut
    cases hname : isIdentifier (Text.trim before) with
    | false =>
      simp only
      split <;> simp [bind_ok, hname, -bind_pure_comp]
    | true =>
      have hne : (Text.trim before).isEmpty = false :=
        List.isEmpty_eq_false_iff.2 (isIdentifier_iff.1 hname).ne_nil
      cases hclose : cutAt? ')' behind with
      | none => simp [hne, hname, hclose]
      | some cut =>
        obtain ⟨inside, after⟩ := cut
        cases hafter : Text.trim after with
        | cons c rest => simp [hne, hname, hclose, hafter, bind_ok, -bind_pure_comp]
        | nil => simpa [hne, hname, hclose, hafter, -bind_pure_comp] using inside_ok _ _

/-- The blanks on both sides are taken off first. What is left starts with the name and ends with
the parenthesis. -/
theorem Written.cuts {s : List Char} {sig : Signature} (h : Written s sig) : Cuts s sig := by
  obtain ⟨⟨pre, gap, hpre, hgap, rfl⟩, hname, hinside, hafter⟩ := h
  rename_i inside after name params
  have hopen : '(' ∉ name.toList ++ gap := by
    simpa using ⟨hname.not_mem (by decide), hgap.not_mem (by decide)⟩
  have htrim : Text.trim (pre ++ (name.toList ++ gap) ++ '(' :: (inside ++ ')' :: after)) =
      (name.toList ++ gap) ++ '(' :: (inside ++ [')']) := by
    have hsplit : pre ++ (name.toList ++ gap) ++ '(' :: (inside ++ ')' :: after) =
        pre ++ (((name.toList ++ gap) ++ '(' :: (inside ++ [')'])) ++ after) := by simp
    rw [hsplit, Text.trim_padded hpre hafter]
    refine Text.trim_of_bare ?_
    rintro c (hc | hc)
    · rw [List.append_assoc, List.head?_append_of_ne_nil _ hname.ne_nil] at hc
      exact hname.not_isBlank c (List.mem_of_head? hc)
    · have hlast : ((name.toList ++ gap) ++ '(' :: (inside ++ [')'])).getLast? = some ')' := by
        rw [← List.cons_append, ← List.append_assoc, List.getLast?_concat]
      rw [hlast] at hc
      cases hc
      decide
  refine ⟨name.toList ++ gap, inside ++ [')'], inside, [], ?_, ?_, ?_, rfl, hinside, ?_⟩
  · exact cutAt?_some.2 ⟨hopen, htrim⟩
  · exact cutAt?_some.2 ⟨hinside.not_mem_close, rfl⟩
  · rw [Text.trim_append_right hgap, hname.trim]
    exact isIdentifier_iff.2 hname
  · rw [Text.trim_append_right hgap, hname.trim, String.ofList_toList]

theorem Cuts.written {s : List Char} {sig : Signature} (h : Cuts s sig) : Written s sig := by
  obtain ⟨before, behind, inside, after, hopen, hclose, hname, hafter, hinside, heq⟩ := h
  obtain ⟨-, htrim⟩ := cutAt?_some.1 hopen
  obtain ⟨-, rfl⟩ := cutAt?_some.1 hclose
  obtain ⟨pre, post, hpre, hpost, hs⟩ := Text.exists_trim s
  have hbehind : Blank (after ++ post) :=
    List.forall_mem_append.2 ⟨Text.trim_eq_nil_iff.1 hafter, hpost⟩
  have hlist : sig.name.toList = Text.trim before := by
    rw [← heq, String.toList_ofList]
  have hpad : Padded sig.name.toList (pre ++ before) := hlist ▸ (padded_trim before).behind hpre
  have hwritten := Written.mk hpad (hlist ▸ isIdentifier_iff.1 hname) hinside hbehind
  rw [htrim] at hs
  simpa [hs] using hwritten

theorem Written.names {s : List Char} {sig : Signature} (h : Written s sig) :
    Name sig.name.toList ∧ ∀ p ∈ sig.params, Name p.toList := by
  obtain ⟨-, hname, hinside, -⟩ := h
  refine ⟨hname, ?_⟩
  cases hinside with
  | none => simp
  | some hlist =>
    exact forall_mem_of_forall₂ (fun _ _ hparam => hparam.name) (paramList_iff.1 hlist)

theorem paramList_text {p : String} {ps : List String} (h : ∀ q ∈ p :: ps, Name q.toList) :
    ParamList (List.intercalate [',', ' '] ((p :: ps).map fun q => '$' :: q.toList)) (p :: ps) := by
  induction ps generalizing p with
  | nil =>
    rw [List.map_singleton, List.intercalate_singleton]
    exact .last (.refl _) (.sigil (h p List.mem_cons_self))
  | cons q ps ih =>
    rw [List.forall_mem_cons] at h
    have hrest := (ih h.2).behind (show Blank [' '] by decide)
    simpa [List.intercalate_cons_cons] using ParamList.cons (.refl _) (.sigil h.1) hrest

theorem written_text {sig : Signature} (hname : Name sig.name.toList)
    (hparams : ∀ p ∈ sig.params, Name p.toList) : Written sig.text.toList sig := by
  have hinside : Params
      (List.intercalate [',', ' '] (sig.params.map fun p => '$' :: p.toList)) sig.params := by
    cases hps : sig.params with
    | nil => exact .none (by decide)
    | cons p ps => exact .some (paramList_text (hps ▸ hparams))
  have hwritten := Written.mk (.refl _) hname hinside blank_nil
  simpa [text, String.toList_intercalate, Function.comp_def] using hwritten

theorem parse_text {source : String} {sig : Signature} (h : parse source = .ok sig) :
    parse sig.text = .ok sig := by
  obtain ⟨hname, hparams⟩ := (parse_ok.1 h).written.names
  exact parse_ok.2 (written_text hname hparams).cuts

/-- A text is accepted exactly if it is written by the grammar, and the signature is the one that is
written there. The text of an accepted signature is accepted and gives the signature back, so
signatures are told apart by their texts. -/
theorem parse_ok_iff_written (source : String) :
    (∀ sig, parse source = .ok sig ↔ Written source.toList sig) ∧
    (∀ sig, parse source = .ok sig → sig.arity = sig.params.length ∧ parse sig.text = .ok sig) ∧
    ∀ source' sig sig', parse source = .ok sig → parse source' = .ok sig' →
      (sig.text = sig'.text ↔ sig = sig') := by
  refine ⟨fun sig => parse_ok.trans ⟨Cuts.written, Written.cuts⟩,
    fun sig h => ⟨rfl, parse_text h⟩, fun source' sig sig' h h' => ⟨fun htext => ?_, congrArg _⟩⟩
  have hsame : (.ok sig : Except SignatureError Signature) = .ok sig' := by
    rw [← parse_text h, htext, parse_text h']
  exact Except.ok.inj hsame

/-- Two ways to write one signature. -/
theorem parse_padded :
    parse " mix ( a ,$b )\n" = .ok ⟨"mix", ["a", "b"]⟩ ∧
    Written " mix ( a ,$b )\n".toList ⟨"mix", ["a", "b"]⟩ ∧
    parse "mix($a, $b)" = .ok ⟨"mix", ["a", "b"]⟩ := by
  have h : parse " mix ( a ,$b )\n" = .ok ⟨"mix", ["a", "b"]⟩ := by decide +kernel
  obtain ⟨hwritten, htext, -⟩ := parse_ok_iff_written " mix ( a ,$b )\n"
  exact ⟨h, (hwritten _).1 h, (htext _ h).2⟩

end HostSheet.Signature
