import HostSheet.Proofs.Sheet.Places
import HostSheet.Proofs.Sheet.Reading

/-!
# Along the text

Readers go along the text. What a reader leaves is what stands behind the part it took, it comes
past the places of what it reads in the order in which these are listed, and a fault is reported at
a place that it has come to.
-/

namespace HostSheet

/-- On the way from `s` to `rest` one comes past these places, one behind the other. -/
inductive Passes : List Char → List (List Char) → List Char → Prop
  | done {s rest} : rest <:+ s → Passes s [] rest
  | place {s c t places rest} : c :: t <:+ s → Passes t places rest →
      Passes s ((c :: t) :: places) rest

namespace Passes

variable {s s' rest : List Char} {places others : List (List Char)}

theorem of_suffix (hs : s' <:+ s) (h : Passes s' places rest) : Passes s places rest := by
  cases h with
  | done hrest => exact .done (hrest.trans hs)
  | place hplace hmore => exact .place (hplace.trans hs) hmore

theorem trans (h : Passes s places s') (h' : Passes s' others rest) :
    Passes s (places ++ others) rest := by
  induction h with
  | done hs => exact h'.of_suffix hs
  | place hplace _ ih => exact .place hplace (ih h')

theorem suffix (h : Passes s places rest) : rest <:+ s := by
  induction h with
  | done hrest => exact hrest
  | place hplace _ ih => exact (ih.trans (List.suffix_cons _ _)).trans hplace

theorem mem (h : Passes s places rest) : ∀ place ∈ places, place <:+ s ∧ place ≠ [] := by
  induction h with
  | done => simp
  | @place s c t places rest hplace _ ih =>
    refine List.forall_mem_cons.2 ⟨⟨hplace, List.cons_ne_nil c t⟩, fun place h => ?_⟩
    exact ⟨((ih place h).1.trans (List.suffix_cons _ _)).trans hplace, (ih place h).2⟩

theorem from_start (hlength : s'.length < s.length) (hs : s' <:+ s) (h : Passes s' places rest) :
    Passes s (s :: places) rest := by
  cases s with
  | nil => simp at hlength
  | cons c t =>
    obtain rfl | hs := List.suffix_cons_iff.1 hs
    · exact absurd hlength (Nat.lt_irrefl _)
    · exact .place (List.suffix_refl _) (h.of_suffix hs)

end Passes

-- ---------------------------------------------------------------------------
-- Results and faults
-- ---------------------------------------------------------------------------

section
variable {α β : Type}

def Ends (s : List Char) (P : α → Prop) : Except Fault α → Prop
  | .ok a => P a
  | .error fault => fault.rest <:+ s

variable {s s' : List Char} {P : α → Prop} {Q : β → Prop}

theorem Ends.bind {x : Except Fault α} {k : α → Except Fault β} (hx : Ends s P x)
    (hk : ∀ a, P a → Ends s Q (k a)) : Ends s Q (x >>= k) := by
  cases x with
  | ok a => exact hk a hx
  | error fault => exact hx

theorem Ends.within {x : Except Fault α} (hs : s' <:+ s) (h : Ends s' P x) : Ends s P x := by
  cases x with
  | ok a => exact h
  | error fault => exact h.trans hs

def Reader.Passes (places : α → List (List Char)) (read : Reader α) : Prop :=
  ∀ s, Ends s (fun taken => HostSheet.Passes s (places taken.value) taken.rest) (read s)

end

def noPlaces {α : Type} (_ : α) : List (List Char) :=
  []

-- ---------------------------------------------------------------------------
-- Characters and blanks
-- ---------------------------------------------------------------------------

section
variable {c : Char} {s : List Char}

theorem takeChar?_suffix {taken : Taken Unit s} (h : takeChar? c s = some taken) :
    taken.rest <:+ s :=
  ⟨[c], (takeChar?_some h).symm⟩

theorem expect_passes (c : Char) : (Reader.expect c).Passes noPlaces := by
  intro s
  cases s with
  | nil => exact List.suffix_refl _
  | cons d s =>
    rw [Reader.expect]
    split
    · exact .done (List.suffix_cons _ _)
    · exact List.suffix_refl _

theorem closeComment_suffix {inside after : List Char}
    (h : closeComment s = some (inside, after)) : after <:+ s :=
  ⟨inside ++ ['*', '/'], by simpa using closeComment_eq h⟩

theorem readComment?_passes (s : List Char) :
    Ends s (fun comment? => ∀ comment ∈ comment?, comment.rest <:+ s) (readComment? s) := by
  unfold readComment?
  split
  · rename_i t
    rintro _ ⟨⟩
    have htwo : t <:+ '/' :: '/' :: t := ⟨['/', '/'], rfl⟩
    exact (List.dropWhile_suffix _).trans htwo
  · split
    · exact List.suffix_refl _
    · rename_i t _ _ hclose
      rintro _ ⟨⟩
      have htwo : t <:+ '/' :: '*' :: t := ⟨['/', '*'], rfl⟩
      exact (closeComment_suffix hclose).trans htwo
  · simp [Ends]

theorem skipTrivia_passes (s : List Char) :
    Ends s (fun blank => Passes s [] blank.rest) (skipTrivia s) := by
  rw [skipTrivia]
  have hblanks : (skipBlanks s).rest <:+ s := List.dropWhile_suffix _
  refine ((readComment?_passes _).within hblanks).bind fun comment? hcomment => ?_
  split
  · exact .done hblanks
  · rename_i comment
    have hshorter : comment.rest.length < s.length := ((skipBlanks s).andTake comment).shorter
    have hrest := (hcomment comment rfl).trans hblanks
    refine ((skipTrivia_passes comment.rest).within hrest).bind fun more hmore => ?_
    exact hmore.of_suffix hrest
termination_by s.length

end

-- ---------------------------------------------------------------------------
-- Literals
-- ---------------------------------------------------------------------------

theorem readName_passes : readName.Passes noPlaces := by
  intro s
  cases s with
  | nil => exact List.suffix_refl _
  | cons c s =>
    rw [readName]
    split
    · exact List.suffix_refl _
    · exact .done ((List.dropWhile_suffix _).trans (List.suffix_cons _ _))

theorem readColor_passes : readColor.Passes noPlaces := by
  intro s
  cases s with
  | nil => exact List.suffix_refl _
  | cons c s =>
    rw [readColor]
    split
    · exact List.suffix_refl _
    · split
      · exact List.suffix_refl _
      · exact .done ((List.dropWhile_suffix _).trans (List.suffix_cons _ _))

theorem splitQuoted_suffix {quote : Char} {s text rest : List Char}
    (h : splitQuoted quote s = some (text, rest)) : rest <:+ s := by
  fun_induction splitQuoted quote s generalizing text with
  | case1 => cases h
  | case2 => cases h
  | case3 => cases h
  | case4 c s ih =>
    obtain ⟨⟨text', rest'⟩, h', e⟩ := Option.map_eq_some_iff.1 h
    cases e
    have htwo : s <:+ '\\' :: c :: s := ⟨['\\', c], rfl⟩
    exact (ih h').trans htwo
  | case5 =>
    cases h
    exact List.suffix_cons _ _
  | case6 =>
    rename_i ih
    obtain ⟨⟨text', rest'⟩, h', e⟩ := Option.map_eq_some_iff.1 h
    cases e
    exact (ih h').trans (List.suffix_cons _ _)

theorem readQuoted_passes : readQuoted.Passes noPlaces := by
  intro s
  cases s with
  | nil => exact List.suffix_refl _
  | cons quote s =>
    rw [readQuoted]
    split
    · exact List.suffix_refl _
    · rename_i hsplit
      exact .done ((splitQuoted_suffix hsplit).trans (List.suffix_cons _ _))

theorem splitSign_suffix (s : List Char) : (splitSign s).2 <:+ s := by
  unfold splitSign
  split
  · exact List.suffix_cons _ _
  · exact List.suffix_cons _ _
  · exact List.suffix_refl _

theorem splitFraction_suffix (s : List Char) : (splitFraction s).2 <:+ s := by
  unfold splitFraction
  split
  · split
    · exact List.suffix_refl _
    · exact (List.dropWhile_suffix _).trans (List.suffix_cons _ _)
  · exact List.suffix_refl _

theorem splitUnit_suffix (s : List Char) : (splitUnit s).2 <:+ s := by
  unfold splitUnit
  split
  · exact List.suffix_cons _ _
  · exact List.dropWhile_suffix _

theorem readNumber_passes : readNumber.Passes noPlaces := by
  intro s
  rw [readNumber]
  split
  · exact List.suffix_refl _
  · have hsign := splitSign_suffix s
    have hdigits : (splitDigits (splitSign s).2).2 <:+ (splitSign s).2 := List.dropWhile_suffix _
    have hfraction := splitFraction_suffix (splitDigits (splitSign s).2).2
    exact .done ((splitUnit_suffix _).trans (hfraction.trans (hdigits.trans hsign)))

-- ---------------------------------------------------------------------------
-- Lists
-- ---------------------------------------------------------------------------

theorem places_commaExpr (first : RawExpr) (more : Option (List RawExpr)) :
    (commaExpr first more).places = first.places ++ Expr.itemsPlaces (more.getD []) := by
  cases more with
  | none => exact (List.append_nil _).symm
  | some items => rfl

namespace Passes

variable {s rest : List Char}

theorem collapse {items : List RawExpr} {separator : Separator}
    (h : Passes s (Expr.itemsPlaces items) rest) :
    Passes s (Expr.collapse items separator).places rest := by
  rwa [Expr.places_collapse]

theorem commaExpr {first : RawExpr} {more : Option (List RawExpr)}
    (h : Passes s (first.places ++ Expr.itemsPlaces (more.getD [])) rest) :
    Passes s (HostSheet.commaExpr first more).places rest := by
  rwa [places_commaExpr]

end Passes

section
variable {item : Reader RawExpr} (hitem : item.Passes Expr.places)
include hitem

theorem spaceItems_passes (s : List Char) :
    Ends s (fun items => Passes s (Expr.itemsPlaces items.value) items.rest)
      (spaceItems item s) := by
  rw [spaceItems]
  refine (skipTrivia_passes s).bind fun blank hblank => ?_
  split
  · exact hblank
  · refine ((hitem blank.rest).within hblank.suffix).bind fun first hfirst => ?_
    have hpast := hblank.trans hfirst
    refine ((spaceItems_passes first.rest).within hpast.suffix).bind fun more hmore => ?_
    exact hpast.trans hmore
termination_by s.length
decreasing_by exact (blank.andTake first).shorter

theorem spaceList_passes : (spaceList item).Passes Expr.places := by
  intro s
  rw [spaceList]
  split
  · exact List.suffix_refl s
  · refine (hitem s).bind fun first hfirst => ?_
    refine ((spaceItems_passes hitem first.rest).within hfirst.suffix).bind fun more hmore => ?_
    have hitems : Passes s (Expr.itemsPlaces (first.value :: more.value)) more.rest :=
      hfirst.trans hmore
    exact hitems.collapse

theorem commaItems_passes (atEnd : List Char → Bool) (s : List Char) :
    Ends s (fun items => Passes s (Expr.itemsPlaces (items.value.getD [])) items.rest)
      (commaItems item atEnd s) := by
  rw [commaItems]
  refine (skipTrivia_passes s).bind fun blank hblank => ?_
  split
  · exact hblank
  · rename_i comma hcomma
    have hpast := (takeChar?_suffix hcomma).trans hblank.suffix
    refine ((skipTrivia_passes comma.rest).within hpast).bind fun blank' hblank' => ?_
    have hbefore := hblank'.of_suffix hpast
    split
    · exact hbefore
    · refine ((hitem blank'.rest).within hbefore.suffix).bind fun first hfirst => ?_
      have hpast := hbefore.trans hfirst
      have hshorter : first.rest.length < s.length :=
        (blank.andTake (comma.andTake (blank'.andTake first))).shorter
      refine ((commaItems_passes atEnd first.rest).within hpast.suffix).bind fun more hmore => ?_
      exact hpast.trans hmore
termination_by s.length

theorem commaList_passes : (commaList item).Passes Expr.places := by
  intro s
  refine (spaceList_passes hitem s).bind fun first hfirst => ?_
  refine ((commaItems_passes (spaceList_passes hitem) _ first.rest).within hfirst.suffix).bind
    fun more hmore => ?_
  exact Passes.commaExpr (hfirst.trans hmore)

-- ---------------------------------------------------------------------------
-- Groups and calls
-- ---------------------------------------------------------------------------

theorem entryValue_passes : (entryValue item).Passes Expr.places := by
  intro s
  refine (skipTrivia_passes s).bind fun blank hblank => ?_
  refine ((expect_passes ':' blank.rest).within hblank.suffix).bind fun colon hcolon => ?_
  have hpast := hblank.trans hcolon
  refine ((skipTrivia_passes colon.rest).within hpast.suffix).bind fun blank' hblank' => ?_
  have hbefore := hpast.trans hblank'
  refine ((hitem blank'.rest).within hbefore.suffix).bind fun value hvalue => ?_
  exact hbefore.trans hvalue

theorem mapItems_passes (s : List Char) :
    Ends s (fun entries => Passes s (Expr.entriesPlaces entries.value) entries.rest)
      (mapItems item s) := by
  rw [mapItems]
  refine (skipTrivia_passes s).bind fun blank hblank => ?_
  split
  · exact hblank
  · rename_i comma hcomma
    have hpast := (takeChar?_suffix hcomma).trans hblank.suffix
    refine ((skipTrivia_passes comma.rest).within hpast).bind fun blank' hblank' => ?_
    have hbefore := hblank'.of_suffix hpast
    split
    · exact hbefore
    · refine ((hitem blank'.rest).within hbefore.suffix).bind fun key hkey => ?_
      have hkey := hbefore.trans hkey
      refine ((entryValue_passes hitem key.rest).within hkey.suffix).bind fun value hvalue => ?_
      have hsuffix := hvalue.suffix.trans hkey.suffix
      have hshorter : value.rest.length < s.length :=
        (blank.andTake (comma.andTake (blank'.andTake (key.andTake value)))).shorter
      refine ((mapItems_passes value.rest).within hsuffix).bind fun more hmore => ?_
      exact hkey.trans (hvalue.trans hmore)
termination_by s.length

theorem groupRest_passes (first : RawExpr) (s : List Char) :
    Ends s (fun group =>
        ∀ {s'}, Passes s' first.places s → Passes s' group.value.places group.rest)
      (groupRest item first s) := by
  refine (skipTrivia_passes s).bind fun blank hblank => ?_
  split
  · refine (entryValue_passes hitem s).bind fun value hvalue => ?_
    refine ((mapItems_passes hitem value.rest).within hvalue.suffix).bind fun more hmore => ?_
    exact fun hfirst => hfirst.trans (hvalue.trans hmore)
  · refine (commaItems_passes hitem _ s).bind fun more hmore => ?_
    exact fun hfirst => Passes.commaExpr (hfirst.trans hmore)

theorem readGroup_passes : (readGroup item).Passes Expr.places := by
  intro s
  refine (expect_passes '(' s).bind fun opened hopened => ?_
  refine ((skipTrivia_passes opened.rest).within hopened.suffix).bind fun blank hblank => ?_
  have hbefore := hopened.trans hblank
  split
  · refine ((expect_passes ')' blank.rest).within hbefore.suffix).bind fun closed hclosed => ?_
    exact hbefore.trans hclosed
  · refine ((hitem blank.rest).within hbefore.suffix).bind fun first hfirst => ?_
    have hpast := hbefore.trans hfirst
    refine ((groupRest_passes hitem first.value first.rest).within hpast.suffix).bind
      fun inside hinside => ?_
    have hinside := hinside hpast
    refine ((expect_passes ')' inside.rest).within hinside.suffix).bind fun closed hclosed => ?_
    have hgroup := hinside.trans hclosed
    rw [noPlaces, List.append_nil] at hgroup
    exact hgroup

theorem argumentItems_passes (s : List Char) :
    Ends s (fun args => Passes s (Expr.itemsPlaces args.value) args.rest)
      (argumentItems item s) := by
  rw [argumentItems]
  refine (skipTrivia_passes s).bind fun blank hblank => ?_
  split
  · refine ((expect_passes ')' blank.rest).within hblank.suffix).bind fun closed hclosed => ?_
    exact hblank.trans hclosed
  · refine ((hitem blank.rest).within hblank.suffix).bind fun first hfirst => ?_
    have hpast := hblank.trans hfirst
    refine ((skipTrivia_passes first.rest).within hpast.suffix).bind fun blank' hblank' => ?_
    split
    · rename_i comma hcomma
      have hshorter : comma.rest.length < s.length :=
        (blank.andTake (first.andTake (blank'.andTake comma))).shorter
      have hbehind := (takeChar?_suffix hcomma).trans hblank'.suffix
      refine ((argumentItems_passes comma.rest).within (hbehind.trans hpast.suffix)).bind
        fun more hmore => ?_
      exact hpast.trans (hmore.of_suffix hbehind)
    · have hbehind := hblank'.suffix.trans hpast.suffix
      refine ((expect_passes ')' blank'.rest).within hbehind).bind fun closed hclosed => ?_
      exact hpast.trans (hblank'.trans hclosed)
termination_by s.length

theorem readArguments_passes : (readArguments item).Passes Expr.itemsPlaces := by
  intro s
  refine (expect_passes '(' s).bind fun opened hopened => ?_
  refine ((argumentItems_passes hitem opened.rest).within hopened.suffix).bind
    fun items hitems => ?_
  exact hopened.trans hitems

end

-- ---------------------------------------------------------------------------
-- Primaries
-- ---------------------------------------------------------------------------

theorem tooDeep_passes {α : Type} (places : α → List (List Char)) :
    (Reader.tooDeep : Reader α).Passes places :=
  fun s => List.suffix_refl s

theorem readNameOrCall_passes {arguments : Reader (List RawExpr)}
    (harguments : arguments.Passes Expr.itemsPlaces) :
    (readNameOrCall arguments).Passes Expr.places := by
  intro s
  refine (readName_passes s).bind fun name hname => ?_
  split
  · refine ((harguments name.rest).within hname.suffix).bind fun args hargs => ?_
    exact hargs.from_start name.shorter hname.suffix
  · exact hname

theorem literal_passes {read : Reader Value} (h : read.Passes noPlaces) :
    (literal read).Passes Expr.places := by
  intro s
  exact (h s).bind fun _ hread => hread

section
variable {group : Reader RawExpr} {arguments : Reader (List RawExpr)}

theorem primaryWith_passes (hgroup : group.Passes Expr.places)
    (harguments : arguments.Passes Expr.itemsPlaces) :
    (primaryWith group arguments).Passes Expr.places := by
  intro s
  cases s with
  | nil => exact List.suffix_refl _
  | cons c s =>
    rw [primaryWith]
    split
    · exact hgroup _
    split
    · exact literal_passes readColor_passes _
    split
    · exact literal_passes readQuoted_passes _
    split
    · exact literal_passes readNumber_passes _
    split
    · exact readNameOrCall_passes harguments _
    · exact List.suffix_refl _

end

theorem readPrimary_passes (levels : Nat) : (readPrimary levels).Passes Expr.places := by
  induction levels with
  | zero => exact primaryWith_passes (tooDeep_passes _) (tooDeep_passes _)
  | succ levels ih =>
    have hitem := spaceList_passes ih
    exact primaryWith_passes (readGroup_passes hitem) (readArguments_passes hitem)

theorem readValue_passes (levels : Nat) : (readValue levels).Passes Expr.places :=
  commaList_passes (readPrimary_passes levels)

-- ---------------------------------------------------------------------------
-- Blocks
-- ---------------------------------------------------------------------------

theorem findMark_suffix {isMark : Char → Bool} {quote : Option Char} {depth : Nat}
    {s rest : List Char} {before : List Piece}
    (h : findMark isMark quote depth s = some (before, rest)) : rest <:+ s :=
  ⟨before.flatMap Piece.text, text_findMark h⟩

theorem textBefore?_suffix {isMark : Char → Bool} {mark : Char} {s : List Char}
    {taken : Taken (List Char) s} (h : textBefore? isMark mark s = some taken) :
    taken.rest <:+ s := by
  unfold textBefore? at h
  split at h
  · rename_i hfound
    split at h
    · cases h
      exact (List.suffix_cons _ _).trans (findMark_suffix hfound)
    · cases h
  · cases h

theorem declarationEnd_passes (s : List Char) :
    Ends s (fun ended => ended.rest <:+ s) (declarationEnd s) := by
  unfold declarationEnd
  split
  · exact List.suffix_cons _ _
  · exact List.suffix_refl _
  · exact List.suffix_refl _

theorem readDeclaration_passes {value : Reader RawExpr} (hvalue : value.Passes Expr.places) :
    (readDeclaration value).Passes Declaration.places := by
  intro s
  rw [readDeclaration]
  split
  · exact List.suffix_refl s
  · rename_i name hname
    have hname := textBefore?_suffix hname
    simp only
    split
    · exact List.suffix_refl s
    · refine ((skipTrivia_passes name.rest).within hname).bind fun blank hblank => ?_
      have hbefore := hblank.of_suffix hname
      refine ((hvalue blank.rest).within hbefore.suffix).bind fun v hv => ?_
      have hpast := hblank.trans hv
      refine ((skipTrivia_passes v.rest).within (hpast.suffix.trans hname)).bind
        fun blank' hblank' => ?_
      have hbehind := hpast.trans hblank'
      refine ((declarationEnd_passes blank'.rest).within (hbehind.suffix.trans hname)).bind
        fun ended hended => ?_
      have hdeclaration := hbehind.trans (.done hended)
      rw [List.append_nil, List.append_nil] at hdeclaration
      exact hdeclaration.from_start name.shorter hname

section
variable {rule : Reader RawRule} {value : Reader RawExpr} (hrule : rule.Passes Rule.places)
  (hvalue : value.Passes Expr.places)
include hrule hvalue

theorem blockItems_passes (s : List Char) :
    Ends s (fun items => Passes s (Item.places items.value) items.rest)
      (blockItems rule value s) := by
  rw [blockItems]
  refine (skipTrivia_passes s).bind fun blank hblank => ?_
  split
  · rename_i closed _ hclosed
    exact .done ((takeChar?_suffix hclosed).trans hblank.suffix)
  · rename_i semicolon _ hsemicolon
    have hshorter : semicolon.rest.length < s.length := (blank.andTake semicolon).shorter
    have hpast := (takeChar?_suffix hsemicolon).trans hblank.suffix
    refine ((blockItems_passes semicolon.rest).within hpast).bind fun more hmore => ?_
    exact hmore.of_suffix hpast
  · split
    · exact hblank.suffix
    split
    · refine ((hrule blank.rest).within hblank.suffix).bind fun r hr => ?_
      have hshorter : r.rest.length < s.length := (blank.andTake r).shorter
      have hpast := hblank.trans hr
      refine ((blockItems_passes r.rest).within hpast.suffix).bind fun more hmore => ?_
      exact hpast.trans hmore
    · refine ((readDeclaration_passes hvalue blank.rest).within hblank.suffix).bind fun d hd => ?_
      have hshorter : d.rest.length < s.length := (blank.andTake d).shorter
      have hpast := hblank.trans hd
      refine ((blockItems_passes d.rest).within hpast.suffix).bind fun more hmore => ?_
      exact hpast.trans hmore
termination_by s.length

theorem ruleWith_passes : (ruleWith rule value).Passes Rule.places := by
  intro s
  rw [ruleWith]
  split
  · exact List.suffix_refl s
  · rename_i text htext
    have htext := textBefore?_suffix htext
    simp only
    split
    · exact List.suffix_refl s
    · refine ((blockItems_passes hrule hvalue text.rest).within htext).bind fun items hitems => ?_
      exact hitems.from_start text.shorter htext

end

theorem readRule_passes (levels : Nat) : (readRule levels).Passes Rule.places := by
  induction levels with
  | zero => exact ruleWith_passes (tooDeep_passes _) (readValue_passes 0)
  | succ levels ih => exact ruleWith_passes ih (readValue_passes (levels + 1))

-- ---------------------------------------------------------------------------
-- Sheets and values
-- ---------------------------------------------------------------------------

theorem readRules_passes (s : List Char) :
    Ends s (fun rules => Passes s (Sheet.places rules) []) (readRules s) := by
  rw [readRules]
  refine (skipTrivia_passes s).bind fun blank hblank => ?_
  split
  · exact .done (List.nil_suffix)
  · refine ((readRule_passes _ blank.rest).within hblank.suffix).bind fun rule hrule => ?_
    have hshorter : rule.rest.length < s.length := (blank.andTake rule).shorter
    have hpast := hblank.trans hrule
    refine ((readRules_passes rule.rest).within hpast.suffix).bind fun more hmore => ?_
    exact hpast.trans hmore
termination_by s.length

end HostSheet
