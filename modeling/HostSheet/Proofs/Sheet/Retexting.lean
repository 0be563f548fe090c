import HostSheet.Proofs.Sheet.Blocks
import HostSheet.Proofs.Sheet.Rules

/-!
# Values in other texts

A value is read the same from another text as long as its tokens are the same. Which texts are
changed into which is left open; what is asked of the change is said about blanks, strings and
single characters only.
-/

namespace HostSheet

open Grammar

/-- A change of texts that the readers of values do not notice, for texts that satisfy `D`. -/
structure Retexting (m : List Char → List Char) (D : List Char → Prop) : Prop where
  along : ∀ {s rest}, Walked s rest → D s → D rest
  inside : ∀ {s}, D ('(' :: s) → D s
  plain : ∀ {c} s, isPlain c = true → m (c :: s) = c :: m s
  /-- Behind the end there is nothing or the end of a declaration. -/
  ended : D [] → ∀ c ∈ (m []).head?, c = ';' ∨ c = '}'
  edge : ∀ {c s}, isPlain c = false → D (c :: s) →
    ∃ d t, m (c :: s) = d :: t ∧ (d = ' ' ∨ isPlain d = false)
  trivia : ∀ {s rest}, Trivia s rest → D s → Trivia (m s) (m rest)
  quoted : ∀ {quote s v rest}, quote = '"' ∨ quote = '\'' →
    readQuoted.Reads (quote :: s) v rest → D (quote :: s) →
    ∃ t, m (quote :: s) = quote :: t ∧ readQuoted.Reads (quote :: t) v (m rest)

def Form.Retexts {α : Type} (m : List Char → List Char) (D : List Char → Prop) (f : α → α)
    (F : Form α) : Prop :=
  ∀ ⦃s a rest⦄, F s a rest → D s → F (m s) (f a) (m rest)

theorem isPlain_eq_false {c : Char} :
    isPlain c = false ↔ c = '/' ∨ c = '"' ∨ c = '\'' := by
  rw [← Bool.not_eq_true, isPlain_iff]
  tauto

theorem not_atValueEnd {c : Char} {s : List Char} (hc : c = ' ' ∨ isPlain c = false) :
    atValueEnd (c :: s) = false := by
  rw [isPlain_eq_false] at hc
  rcases hc with rfl | rfl | rfl | rfl <;> rfl

theorem not_atClose {c : Char} {s : List Char} (hc : c = ' ' ∨ isPlain c = false) :
    atClose (c :: s) = false := by
  rw [isPlain_eq_false] at hc
  rcases hc with rfl | rfl | rfl | rfl <;> rfl

theorem startsFraction_point {s : List Char} :
    ¬ NumberText.startsFraction ('.' :: s) ↔ Stops Char.isDigit s := by
  cases s <;> simp [NumberText.startsFraction]

namespace Retexting

variable {m : List Char → List Char} {D : List Char → Prop} (hm : Retexting m D)
  {s rest : List Char}
include hm

-- ---------------------------------------------------------------------------
-- Single characters
-- ---------------------------------------------------------------------------

theorem value {c : Char} (hc : isValueChar c = true) (s : List Char) : m (c :: s) = c :: m s :=
  hm.plain s (isPlain_of_isValueChar hc)

theorem before {c : Char} (hc : isPlain c = true) (h : Trivia s (c :: rest)) (hs : D s) :
    Trivia (m s) (c :: m rest) :=
  hm.plain rest hc ▸ hm.trivia h hs

theorem past {c : Char} (hc : isValueChar c = true) (h : Trivia s (c :: rest)) (hs : D s) :
    D rest :=
  hm.along (h.walked.trans (.code hc (.refl rest))) hs

def borders : List Char :=
  [' ', '/', '"', '\'', ';', '}']

theorem stops_iff {p : Char → Bool} (hp : ∀ c ∈ borders, p c = false) (h : D s) :
    Stops p (m s) ↔ Stops p s := by
  cases s with
  | nil =>
    refine iff_of_true (fun d hd => hp d ?_) stops_nil
    rcases hm.ended h d hd with rfl | rfl <;> decide
  | cons c t =>
    cases hc : isPlain c with
    | true => rw [hm.plain t hc, stops_cons, stops_cons]
    | false =>
      obtain ⟨d, u, hd, hchanged⟩ := hm.edge hc h
      rw [hd, stops_cons, stops_cons]
      refine iff_of_true (hp d ?_) (hp c ?_)
      · rcases hchanged with rfl | hplain
        · decide
        · rcases isPlain_eq_false.1 hplain with rfl | rfl | rfl <;> decide
      · rcases isPlain_eq_false.1 hc with rfl | rfl | rfl <;> decide

theorem head_ne {c : Char} (hc : c ∉ borders) (h : D s) (hs : s.head? ≠ some c) :
    (m s).head? ≠ some c := by
  have hp : ∀ d ∈ borders, (d == c) = false := by
    intro d hd
    rw [beq_eq_false_iff_ne]
    rintro rfl
    exact hc hd
  have hstops : Stops (· == c) s := by
    intro d hd
    rw [beq_eq_false_iff_ne]
    rintro rfl
    exact hs hd
  intro hhead
  have := (hm.stops_iff hp h).2 hstops c hhead
  simp at this

theorem atValueEnd_eq (h : D s) : atValueEnd (m s) = atValueEnd s := by
  cases s with
  | nil =>
    cases hs : m [] with
    | nil => rfl
    | cons d t => rcases hm.ended h d (by simp [hs]) with rfl | rfl <;> rfl
  | cons c t =>
    cases hc : isPlain c with
    | true => rw [hm.plain t hc]; rfl
    | false =>
      obtain ⟨d, u, hd, hchanged⟩ := hm.edge hc h
      rw [hd, not_atValueEnd (.inr hc), not_atValueEnd hchanged]

theorem atClose_eq (h : D s) : atClose (m s) = atClose s := by
  cases s with
  | nil =>
    cases hs : m [] with
    | nil => rfl
    | cons d t => rcases hm.ended h d (by simp [hs]) with rfl | rfl <;> rfl
  | cons c t =>
    cases hc : isPlain c with
    | true => rw [hm.plain t hc]; rfl
    | false =>
      obtain ⟨d, u, hd, hchanged⟩ := hm.edge hc h
      rw [hd, not_atClose (.inr hc), not_atClose hchanged]

theorem startsUnsigned_eq (h : D s) : startsUnsigned (m s) = startsUnsigned s := by
  cases s with
  | nil =>
    cases hs : m [] with
    | nil => rfl
    | cons d t => rcases hm.ended h d (by simp [hs]) with rfl | rfl <;> rfl
  | cons c t =>
    cases hc : isPlain c with
    | true =>
      rw [hm.plain t hc]
      by_cases hpoint : c = '.'
      · subst hpoint
        have ht : D t := hm.along (.code (by decide) (.refl t)) h
        rw [Bool.eq_iff_iff, ← not_iff_not, Bool.not_eq_true, Bool.not_eq_true,
          startsUnsigned_point, startsUnsigned_point, hm.stops_iff (by decide) ht]
      · rw [startsUnsigned_cons hpoint, startsUnsigned_cons hpoint]
    | false =>
      obtain ⟨d, u, hd, hchanged⟩ := hm.edge hc h
      rw [isPlain_eq_false] at hc hchanged
      rw [hd]
      rcases hc with rfl | rfl | rfl <;> rcases hchanged with rfl | rfl | rfl | rfl <;> rfl

theorem startsNumber_eq (h : D s) : startsNumber (m s) = startsNumber s := by
  cases s with
  | nil =>
    cases hs : m [] with
    | nil => rfl
    | cons d t => rcases hm.ended h d (by simp [hs]) with rfl | rfl <;> rfl
  | cons c t =>
    cases hc : isPlain c with
    | true =>
      by_cases hsign : c = '+' ∨ c = '-'
      · rw [hm.plain t hc]
        rcases hsign with rfl | rfl <;>
          exact hm.startsUnsigned_eq (hm.along (.code (by decide) (.refl t)) h)
      · obtain ⟨hplus, hminus⟩ := not_or.1 hsign
        have heq := hm.startsUnsigned_eq h
        rw [hm.plain t hc] at heq ⊢
        rw [startsNumber_cons_of_ne hplus hminus, startsNumber_cons_of_ne hplus hminus, heq]
    | false =>
      obtain ⟨d, u, hd, hchanged⟩ := hm.edge hc h
      rw [isPlain_eq_false] at hc hchanged
      rw [hd]
      rcases hc with rfl | rfl | rfl <;> rcases hchanged with rfl | rfl | rfl | rfl <;> rfl

-- ---------------------------------------------------------------------------
-- Literals
-- ---------------------------------------------------------------------------

theorem append {xs : List Char} (hxs : ∀ c ∈ xs, isValueChar c = true) (rest : List Char) :
    m (xs ++ rest) = xs ++ m rest := by
  induction xs with
  | nil => rfl
  | cons c xs ih =>
    rw [List.forall_mem_cons] at hxs
    rw [List.cons_append, hm.value hxs.1, ih hxs.2, List.cons_append]

theorem readName {c : Char} {name : String} (hc : isNameStart c = true ∨ c = '-')
    (h : readName.Reads (c :: s) name rest) (hs : D (c :: s)) :
    readName.Reads (m (c :: s)) name (m rest) := by
  have hrest := hm.along (walked_readName hc h) hs
  obtain ⟨cs, hname, hstops, htext, rfl⟩ := reads_readName.1 h
  rw [htext, hm.append (hname.isValueChar htext hc)]
  exact reads_readName.2 ⟨cs, hname, (hm.stops_iff (by decide) hrest).2 hstops, rfl, rfl⟩

theorem readColor {v : Value} (h : readColor.Reads ('#' :: s) v rest) (hs : D ('#' :: s)) :
    readColor.Reads ('#' :: m s) v (m rest) := by
  have hrest := hm.along (walked_readColor h) hs
  obtain ⟨ds, color, hds, hcolor, hstops, rfl, rfl⟩ := reads_readColor.1 h
  have hchars : ∀ d ∈ ds, isValueChar d = true := fun d hd =>
    isValueChar_of_isNameChar (isNameChar_of_isHexDigit (hds d hd))
  exact reads_readColor.2 ⟨ds, color, hds, hcolor, (hm.stops_iff (by decide) hrest).2 hstops,
    hm.append hchars rest, rfl⟩

theorem not_startsFraction (h : D s) (hs : ¬ NumberText.startsFraction s) :
    ¬ NumberText.startsFraction (m s) := by
  by_cases hhead : s.head? = some '.'
  · cases s with
    | nil => cases hhead
    | cons c t =>
      cases hhead
      have ht : D t := hm.along (.code (by decide) (.refl t)) h
      rw [hm.plain t (by decide), startsFraction_point, hm.stops_iff (by decide) ht]
      exact startsFraction_point.1 hs
  · rintro ⟨c, t, htext, -⟩
    exact hm.head_ne (by decide) h hhead (by rw [htext, List.head?_cons])

theorem readNumber {v : Value} (h : readNumber.Reads s v rest) (hs : D s) :
    readNumber.Reads (m s) v (m rest) := by
  have hrest := hm.along (walked_readNumber h) hs
  obtain ⟨t, ht, hends, rfl, rfl⟩ := reads_readNumber.1 h
  refine reads_readNumber.2 ⟨t, ht, ⟨fun hunit => ?_, fun hunit => ?_, fun hunit hfraction => ?_⟩,
    hm.append ht.isValueChar rest, rfl⟩
  · exact (hm.stops_iff (by decide) hrest).2 (hends.unit hunit)
  · exact (hm.stops_iff (by decide) hrest).2 (hends.bare hunit)
  · exact hm.not_startsFraction hrest (hends.point hunit hfraction)

end Retexting

-- ---------------------------------------------------------------------------
-- Each form
-- ---------------------------------------------------------------------------

theorem mapPlaces_collapse {p q : Type} (f : p → q) (es : List (Expr p)) (separator : Separator) :
    (Expr.collapse es separator).mapPlaces f =
      .collapse (es.map (Expr.mapPlaces f)) separator := by
  unfold Expr.collapse
  split
  · rfl
  · rename_i hes
    split
    · rename_i e he
      obtain ⟨e', rfl, -⟩ := List.map_eq_singleton_iff.1 he
      exact absurd rfl (hes e')
    · rw [Expr.mapPlaces, Expr.mapPlacesItems_eq]

theorem mapPlaces_commaExpr (f : List Char → List Char) (e : RawExpr)
    (es : Option (List RawExpr)) :
    (commaExpr e es).mapPlaces f =
      commaExpr (e.mapPlaces f) (es.map (List.map (Expr.mapPlaces f))) := by
  cases es with
  | none => rfl
  | some es => exact congrArg (Expr.list · .comma) (Expr.mapPlacesItems_eq f (e :: es))

namespace Grammar

section
variable {m : List Char → List Char} {D : List Char → Prop} (hm : Retexting m D)
  {Item : Form RawExpr} (hItem : Item.Walks) (hre : Item.Retexts m D (Expr.mapPlaces m))
include hm hItem hre

theorem SpaceItems.retexts :
    (SpaceItems Item).Retexts m D (List.map (Expr.mapPlaces m)) := by
  intro s es rest h
  induction h with
  | nil hblank hend =>
    intro hs
    have hrest := hm.along hblank.walked hs
    exact .nil (hm.trivia hblank hs) (hm.atValueEnd_eq hrest ▸ hend)
  | cons hblank hend hfirst _ ih =>
    intro hs
    have hs' := hm.along hblank.walked hs
    exact .cons (hm.trivia hblank hs) (hm.atValueEnd_eq hs' ▸ hend) (hre hfirst hs')
      (ih (hm.along (hItem hfirst) hs'))

theorem SpaceList.retexts : (SpaceList Item).Retexts m D (Expr.mapPlaces m) := by
  rintro _ _ _ ⟨hstart, hfirst, hmore⟩ hs
  rw [mapPlaces_collapse, List.map_cons]
  exact .mk (hm.atValueEnd_eq hs ▸ hstart) (hre hfirst hs)
    (SpaceItems.retexts hm hItem hre hmore (hm.along (hItem hfirst) hs))

theorem CommaItems.retexts {atEnd : List Char → Bool} (hend : ∀ {s}, D s → atEnd (m s) = atEnd s) :
    (CommaItems Item atEnd).Retexts m D (Option.map (List.map (Expr.mapPlaces m))) := by
  intro s es rest h
  induction h with
  | none hblank hcomma =>
    intro hs
    have hrest := hm.along hblank.walked hs
    exact .none (hm.trivia hblank hs) (hm.head_ne (by decide) hrest hcomma)
  | last hblank hblank' hlast =>
    intro hs
    have hs' := hm.past (by decide) hblank hs
    have hrest := hm.along hblank'.walked hs'
    have hbefore := hm.before (by decide) hblank hs
    exact .last hbefore (hm.trivia hblank' hs') (hend hrest ▸ hlast)
  | @cons s s' s'' e s''' es rest hblank hblank' hmore hfirst _ ih =>
    intro hs
    have hs' := hm.past (by decide) hblank hs
    have hs'' := hm.along hblank'.walked hs'
    have hbefore := hm.before (by decide) hblank hs
    have hes : (Option.map (List.map (Expr.mapPlaces m)) es).getD [] =
        (es.getD []).map (Expr.mapPlaces m) := by cases es <;> rfl
    rw [Option.map_some, List.map_cons, ← hes]
    exact .cons hbefore (hm.trivia hblank' hs') (hend hs'' ▸ hmore) (hre hfirst hs'')
      (ih (hm.along (hItem hfirst) hs''))

theorem CommaList.retexts : (CommaList Item).Retexts m D (Expr.mapPlaces m) := by
  rintro _ _ _ ⟨hfirst, hmore⟩ hs
  have hlist := SpaceList.retexts hm hItem hre
  have hwalks := SpaceList.walks hItem
  rw [mapPlaces_commaExpr]
  exact .mk (hlist hfirst hs)
    (CommaItems.retexts hm hwalks hlist hm.atValueEnd_eq hmore (hm.along (hwalks hfirst) hs))

omit hItem in
theorem EntryValue.retexts : (EntryValue Item).Retexts m D (Expr.mapPlaces m) := by
  rintro _ _ _ ⟨hblank, hblank', hvalue⟩ hs
  have hs' := hm.past (by decide) hblank hs
  have hs'' := hm.along hblank'.walked hs'
  have hbefore := hm.before (by decide) hblank hs
  exact .mk hbefore (hm.trivia hblank' hs') (hre hvalue hs'')

theorem MapItems.retexts : (MapItems Item).Retexts m D
    (List.map fun entry => (entry.1.mapPlaces m, entry.2.mapPlaces m)) := by
  intro s es rest h
  induction h with
  | none hblank hcomma =>
    intro hs
    have hrest := hm.along hblank.walked hs
    exact .none (hm.trivia hblank hs) (hm.head_ne (by decide) hrest hcomma)
  | last hblank hblank' hlast =>
    intro hs
    have hs' := hm.past (by decide) hblank hs
    have hrest := hm.along hblank'.walked hs'
    have hbefore := hm.before (by decide) hblank hs
    exact .last hbefore (hm.trivia hblank' hs') (hm.atClose_eq hrest ▸ hlast)
  | cons hblank hblank' hmore hkey hvalue _ ih =>
    intro hs
    have hs' := hm.past (by decide) hblank hs
    have hs'' := hm.along hblank'.walked hs'
    have hbehind := hm.along (hItem hkey) hs''
    have hbefore := hm.before (by decide) hblank hs
    exact .cons hbefore (hm.trivia hblank' hs') (hm.atClose_eq hs'' ▸ hmore) (hre hkey hs'')
      (EntryValue.retexts hm hre hvalue hbehind)
      (ih (hm.along (EntryValue.walks hItem hvalue) hbehind))

theorem GroupRest.retexts (first : RawExpr) {s rest : List Char} {e : RawExpr}
    (h : GroupRest Item first s e rest) (hs : D s) :
    GroupRest Item (first.mapPlaces m) (m s) (e.mapPlaces m) (m rest) := by
  cases h with
  | map hblank hvalue hmore =>
    have hs' := hm.along (EntryValue.walks hItem hvalue) hs
    have hbefore := hm.before (by decide) hblank hs
    rw [Expr.mapPlaces, Expr.mapPlacesEntries_eq, List.map_cons]
    exact .map hbefore (EntryValue.retexts hm hre hvalue hs)
      (MapItems.retexts hm hItem hre hmore hs')
  | list hblank hcolon hmore =>
    have hs' := hm.along hblank.walked hs
    rw [mapPlaces_commaExpr]
    exact .list (hm.trivia hblank hs) (hm.head_ne (by decide) hs' hcolon)
      (CommaItems.retexts hm hItem hre hm.atClose_eq hmore hs)

theorem Group.retexts : (Group Item).Retexts m D (Expr.mapPlaces m) := by
  intro s e rest h hs
  cases h with
  | empty hblank =>
    rw [hm.plain _ (by decide)]
    exact .empty (hm.before (by decide) hblank (hm.inside hs))
  | full hblank hclose hfirst hinside =>
    have hs := hm.inside hs
    have hs' := hm.along hblank.walked hs
    have hmore := hinside.retexts hm hItem hre _ (hm.along (hItem hfirst) hs')
    rw [hm.plain _ (by decide)] at hmore ⊢
    exact .full (hm.trivia hblank hs) (hm.atClose_eq hs' ▸ hclose) (hre hfirst hs') hmore

theorem ArgumentItems.retexts :
    (ArgumentItems Item).Retexts m D (List.map (Expr.mapPlaces m)) := by
  intro s es rest h
  induction h with
  | nil hblank =>
    intro hs
    exact .nil (hm.before (by decide) hblank hs)
  | last hblank hclose hfirst hblank' =>
    intro hs
    have hs' := hm.along hblank.walked hs
    exact .last (hm.trivia hblank hs) (hm.atClose_eq hs' ▸ hclose) (hre hfirst hs')
      (hm.before (by decide) hblank' (hm.along (hItem hfirst) hs'))
  | cons hblank hclose hfirst hblank' _ ih =>
    intro hs
    have hs' := hm.along hblank.walked hs
    have hbehind := hm.along (hItem hfirst) hs'
    exact .cons (hm.trivia hblank hs) (hm.atClose_eq hs' ▸ hclose) (hre hfirst hs')
      (hm.before (by decide) hblank' hbehind) (ih (hm.past (by decide) hblank' hbehind))

theorem ArgumentList.retexts :
    (ArgumentList Item).Retexts m D (List.map (Expr.mapPlaces m)) := by
  rintro _ _ _ ⟨hitems⟩ hs
  rw [hm.plain _ (by decide)]
  exact .mk (ArgumentItems.retexts hm hItem hre hitems (hm.inside hs))

end

section
variable {m : List Char → List Char} {D : List Char → Prop} (hm : Retexting m D)
include hm

theorem NameOrCall.retexts {Args : Form (List RawExpr)}
    (hArgs : Args.Retexts m D (List.map (Expr.mapPlaces m))) {c : Char} {s rest : List Char}
    {e : RawExpr} (hc : isNameStart c = true ∨ c = '-') (h : NameOrCall Args (c :: s) e rest)
    (hs : D (c :: s)) : NameOrCall Args (m (c :: s)) (e.mapPlaces m) (m rest) := by
  cases h with
  | name hname hcall =>
    have hrest := hm.along (walked_readName hc hname) hs
    exact .name (hm.readName hc hname hs) (hm.head_ne (by decide) hrest hcall)
  | @call _ name s' es _ hname hcall hargs =>
    have hs' := hm.along (walked_readName hc hname) hs
    have hopen : (m s').head? = some '(' := by
      cases s' with
      | nil => cases hcall
      | cons d s' =>
        cases hcall
        rw [hm.plain _ (by decide), List.head?_cons]
    rw [Expr.mapPlaces, Expr.mapPlacesItems_eq]
    exact .call (hm.readName hc hname hs) hopen (hArgs hargs hs')

theorem PrimaryOf.retexts {Grp : Form RawExpr} {Args : Form (List RawExpr)}
    (hGrp : Grp.Retexts m D (Expr.mapPlaces m))
    (hArgs : Args.Retexts m D (List.map (Expr.mapPlaces m))) :
    (PrimaryOf Grp Args).Retexts m D (Expr.mapPlaces m) := by
  intro s e rest h hs
  cases h with
  | group h =>
    have hgroup := hGrp h hs
    rw [hm.plain _ (by decide)] at hgroup ⊢
    exact .group hgroup
  | color h =>
    rw [hm.plain _ (by decide)]
    exact .color (hm.readColor h hs)
  | quoted hquote h =>
    obtain ⟨t, ht, h⟩ := hm.quoted hquote h hs
    rw [ht]
    exact .quoted hquote h
  | number hnumber h => exact .number (hm.startsNumber_eq hs ▸ hnumber) (hm.readNumber h hs)
  | @name c s _ _ hnumber hc h =>
    have hname := h.retexts hm hArgs hc hs
    have hstart := hm.startsNumber_eq hs
    have hchar : isValueChar c = true := by
      rcases hc with hc | rfl
      · exact isValueChar_of_isNameChar (isNameChar_of_isNameStart hc)
      · decide
    rw [hm.value hchar] at hname hstart ⊢
    exact .name (hstart ▸ hnumber) hc hname

theorem Primary.retexts (levels : Nat) : (Primary levels).Retexts m D (Expr.mapPlaces m) := by
  induction levels with
  | zero => exact PrimaryOf.retexts hm (fun _ _ _ => False.elim) (fun _ _ _ => False.elim)
  | succ levels ih =>
    have hitem := SpaceList.retexts hm (Primary.walks levels) ih
    have hwalks := SpaceList.walks (Primary.walks levels)
    exact PrimaryOf.retexts hm (Group.retexts hm hwalks hitem)
      (ArgumentList.retexts hm hwalks hitem)

end

end Grammar

-- ---------------------------------------------------------------------------
-- Blocks
-- ---------------------------------------------------------------------------

/-- A change of texts that the searches for marks do not notice either. -/
structure SheetRetexting (m : List Char → List Char) (D : List Char → Prop) : Prop
    extends Retexting m D where
  back : ∀ {s ps rest}, pieces none s = ps ++ pieces none rest → D rest → D s
  closing : ∀ s, D ('}' :: s)
  search : ∀ {isMark mark s text us rest}, (∀ c, isMark c = true → isPropertyMark c = true) →
    isPlain mark = true → Heading isMark mark s text us rest →
    ∃ us', Heading isMark mark (m s) text us' (m rest)

theorem SheetRetexting.back_plain {m : List Char → List Char} {D : List Char → Prop}
    (hm : SheetRetexting m D) {c : Char} (hc : isPlain c = true) {s : List Char} (hs : D s) :
    D (c :: s) := by
  have hpieces : pieces none (c :: s) = [.code c] ++ pieces none s := pieces_plain hc s
  exact hm.back hpieces hs

namespace Grammar

section
variable {m : List Char → List Char} {D : List Char → Prop} (hm : SheetRetexting m D)
  {Val : Form RawExpr}
include hm

theorem DeclarationEnd.retexts {s rest : List Char} {ts : List Token}
    (h : DeclarationEnd s ts rest) : DeclarationEnd (m s) ts (m rest) := by
  cases h with
  | semicolon =>
    rw [hm.plain _ (by decide)]
    exact .semicolon
  | close =>
    rw [hm.plain _ (by decide)]
    exact .close

theorem DeclarationOf.retexts (hwalks : Val.Walks) (hVal : Val.Retexts m D (Expr.mapPlaces m))
    {s rest : List Char} {d : Declaration (List Char)} {ts : List Token}
    (h : DeclarationOf Val s d ts rest) (hrest : D rest) :
    ∃ ts', DeclarationOf Val (m s) (d.mapPlaces m) ts' (m rest) := by
  obtain ⟨hheading, hproperty, hblank, hvalue, hblank', hlexed, hend⟩ := h
  have hs₁ := hm.back hlexed.pieces_eq (hm.back hend.pieces_eq hrest)
  have hs₂ := hm.along hblank.walked hs₁
  have hs₃ := hm.along (hwalks hvalue) hs₂
  obtain ⟨us, hheading⟩ := hm.search (fun _ => id) (by decide) hheading
  have hblank := hm.trivia hblank hs₁
  have hvalue := hVal hvalue hs₂
  have hblank' := hm.trivia hblank' hs₃
  obtain ⟨ts', hts'⟩ := (hblank.walked.trans (hwalks hvalue)).trans hblank'.walked
  exact ⟨_, .mk hheading hproperty hblank hvalue hblank' hts' (hend.retexts hm)⟩

variable {R : Traced RawRule} (hshows : R.Shows)
  (hR : ∀ {s r ts rest}, R s r ts rest → ∃ ts', R (m s) (r.mapPlaces m) ts' (m rest))
include hshows hR

theorem BlockItems.retexts (hwalks : Val.Walks) (hVal : Val.Retexts m D (Expr.mapPlaces m))
    {s rest : List Char} {items : List RawItem} {ts : List Token}
    (h : BlockItems R Val s items ts rest) :
    D s ∧ ∃ ts', BlockItems R Val (m s) (items.map (Item.mapPlaces m)) ts' (m rest) := by
  induction h with
  | close hblank hlexed =>
    have hs := hm.back hlexed.pieces_eq (hm.closing _)
    have hblank := hm.before (by decide) hblank hs
    obtain ⟨ts', hts'⟩ := hblank.walked
    exact ⟨hs, _, .close hblank hts'⟩
  | semicolon hblank hlexed _ ih =>
    obtain ⟨hs', us, hmore⟩ := ih
    have hs := hm.back hlexed.pieces_eq (hm.back_plain (by decide) hs')
    have hblank := hm.before (by decide) hblank hs
    obtain ⟨ts', hts'⟩ := hblank.walked
    exact ⟨hs, _, .semicolon hblank hts' hmore⟩
  | rule hblank hlexed hr _ ih =>
    obtain ⟨hs'', vs, hmore⟩ := ih
    have hs := hm.back hlexed.pieces_eq (hm.back (hshows hr) hs'')
    have hblank := hm.trivia hblank hs
    obtain ⟨ts', hts'⟩ := hblank.walked
    obtain ⟨us, hr⟩ := hR hr
    exact ⟨hs, _, .rule hblank hts' hr hmore⟩
  | declaration hblank hlexed hd _ ih =>
    obtain ⟨hs'', vs, hmore⟩ := ih
    have hs := hm.back hlexed.pieces_eq (hm.back (DeclarationOf.shows Val hd) hs'')
    have hblank := hm.trivia hblank hs
    obtain ⟨ts', hts'⟩ := hblank.walked
    obtain ⟨us, hd⟩ := hd.retexts hm hwalks hVal hs''
    exact ⟨hs, _, .declaration hblank hts' hd hmore⟩

theorem RuleOf.retexts (hwalks : Val.Walks) (hVal : Val.Retexts m D (Expr.mapPlaces m))
    {s rest : List Char} {r : RawRule} {ts : List Token} (h : RuleOf R Val s r ts rest) :
    D s ∧ ∃ ts', RuleOf R Val (m s) (r.mapPlaces m) ts' (m rest) := by
  obtain ⟨hheading, hselectors, hitems⟩ := h
  obtain ⟨hs', ts', hitems⟩ := hitems.retexts hm hshows hR hwalks hVal
  have hs := hm.back (Heading.shows (by decide) hheading) hs'
  obtain ⟨us, hheading⟩ := hm.search isPropertyMark_of_isBlockMark (by decide) hheading
  rw [Rule.mapPlaces, mapPlacesAll_eq]
  exact ⟨hs, _, .mk hheading hselectors hitems⟩

end

/-- A rule is read from the changed text with its places changed. -/
theorem Ruled.retexts {m : List Char → List Char} {D : List Char → Prop}
    (hm : SheetRetexting m D) {levels : Nat} {s rest : List Char} {r : RawRule} {ts : List Token}
    (h : Ruled levels s r ts rest) :
    D s ∧ ∃ ts', Ruled levels (m s) (r.mapPlaces m) ts' (m rest) := by
  have hwalks := fun levels => CommaList.walks (Primary.walks levels)
  have hVal := fun levels =>
    CommaList.retexts hm.toRetexting (Primary.walks levels) (Primary.retexts hm.toRetexting levels)
  induction levels generalizing s r ts rest with
  | zero =>
    exact RuleOf.retexts hm (fun _ _ _ _ => False.elim) False.elim (hwalks 0) (hVal 0) h
  | succ levels ih =>
    exact RuleOf.retexts hm (Ruled.shows levels) (fun hr => (ih hr).2) (hwalks _) (hVal _) h

end Grammar

end HostSheet
