import HostSheet.Proofs.Result
import HostSheet.Proofs.Sheet.Grammar

/-!
# Readers and their grammars

A reader finds exactly the readings of its grammar, so that what holds of every reading is shown by
induction over the grammar, without the readers. For a reader that goes on and on there are two
lemmas, one for each direction; all others are equal to their grammars.
-/

namespace HostSheet

open Grammar

theorem Form.ext {α : Type} {f g : Form α} (h : ∀ s a rest, f s a rest ↔ g s a rest) : f = g := by
  funext s a rest
  exact propext (h s a rest)

-- What a result holds determines it, but its bound is not found by unification alone.

theorem Taken.found {α : Type} {s rest : List Char} {x : Except Fault (Taken α s)} {a : α}
    {taken : Taken α s} (h : x = .ok taken) (ha : taken.value = a) (hrest : taken.rest = rest) :
    ∃ shorter, x = .ok ⟨a, rest, shorter⟩ := by
  subst ha hrest
  exact ⟨_, h⟩

theorem Skipped.found {α : Type} {s rest : List Char} {x : Except Fault (Skipped α s)} {a : α}
    {skipped : Skipped α s} (h : x = .ok skipped) (ha : skipped.value = a)
    (hrest : skipped.rest = rest) : ∃ noLonger, x = .ok ⟨a, rest, noLonger⟩ := by
  subst ha hrest
  exact ⟨_, h⟩

-- ---------------------------------------------------------------------------
-- Single characters
-- ---------------------------------------------------------------------------

section
variable {c : Char} {s : List Char} {taken : Taken Unit s}

theorem takeChar?_some (h : takeChar? c s = some taken) : s = c :: taken.rest := by
  cases s with
  | nil => cases h
  | cons d s =>
    rw [takeChar?] at h
    split at h
    · rename_i hd
      cases h
      rw [hd]
      rfl
    · cases h

theorem head?_of_takeChar? (h : takeChar? c s = some taken) : s.head? = some c := by
  rw [takeChar?_some h]
  rfl

theorem takeChar?_none : takeChar? c s = none ↔ s.head? ≠ some c := by
  cases s <;> simp [takeChar?]

theorem exists_takeChar? (h : s.head? = some c) : ∃ taken, takeChar? c s = some taken :=
  Option.ne_none_iff_exists'.1 fun hnone => takeChar?_none.1 hnone h

@[simp] theorem takeChar?_cons_self :
    takeChar? c (c :: s) = some (.head () c s) := by
  simp [takeChar?]

theorem expect_ok (h : Reader.expect c s = .ok taken) : s = c :: taken.rest := by
  cases s with
  | nil => cases h
  | cons d s =>
    rw [Reader.expect] at h
    split at h
    · rename_i hd
      cases h
      rw [hd]
      rfl
    · cases h

@[simp] theorem expect_cons_self : Reader.expect c (c :: s) = .ok (.head () c s) := by
  simp [Reader.expect]

@[elab_as_elim]
theorem takeChar?_elim {motive : (s : List Char) → Taken Unit s → Prop}
    (h : takeChar? c s = some taken) (head : ∀ t, motive (c :: t) (.head () c t)) :
    motive s taken := by
  cases s with
  | nil => cases h
  | cons d s =>
    obtain rfl : d = c := (List.cons.inj (takeChar?_some h)).1
    rw [takeChar?_cons_self] at h
    cases h
    exact head s

theorem expect_of_takeChar? (h : takeChar? c s = some taken) : Reader.expect c s = .ok taken :=
  takeChar?_elim h fun _ => expect_cons_self

end

-- ---------------------------------------------------------------------------
-- Blanks
-- ---------------------------------------------------------------------------

theorem readComment?_none {s : List Char} (h : s.head? ≠ some '/') :
    readComment? s = .ok none := by
  unfold readComment?
  split
  · exact absurd rfl h
  · exact absurd rfl h
  · rfl

/-- Where no comment starts behind the blanks, the blanks are all that is passed over. -/
theorem trivia_of_trimStart {s rest : List Char} (h : Text.trimStart s = rest)
    (hrest : rest.head? ≠ some '/') : Trivia s rest := by
  have : readComment? (skipBlanks s).rest = .ok none :=
    readComment?_none (show (Text.trimStart s).head? ≠ _ from h ▸ hrest)
  rw [Trivia, skipTrivia, this]
  exact Skipped.found rfl rfl h

theorem trivia_cons {c : Char} {s : List Char} (hblank : Text.isBlank c = false) (hc : c ≠ '/') :
    Trivia (c :: s) (c :: s) :=
  trivia_of_trimStart (List.dropWhile_cons_of_neg (by simp [hblank])) (by simpa using hc)

-- ---------------------------------------------------------------------------
-- What the readers find
-- ---------------------------------------------------------------------------

section
variable {item : Reader RawExpr}

theorem spaceItems_sound {s : List Char} {skipped : Skipped (List RawExpr) s}
    (h : spaceItems item s = .ok skipped) : SpaceItems item.Reads s skipped.value skipped.rest := by
  -- The recursion is the reader's own: behind an item the text is shorter.
  rw [spaceItems] at h
  obtain ⟨blank, hblank, h⟩ := bind_ok.1 h
  split at h
  · rename_i hend
    cases h
    exact .nil ⟨_, hblank⟩ hend
  · rename_i hend
    obtain ⟨first, hfirst, h⟩ := bind_ok.1 h
    obtain ⟨more, hmore, h⟩ := bind_ok.1 h
    cases h
    exact .cons ⟨_, hblank⟩ (Bool.eq_false_iff.2 hend) ⟨_, hfirst⟩ (spaceItems_sound hmore)
termination_by s.length
decreasing_by exact (blank.andTake first).shorter

theorem spaceItems_complete {s : List Char} {es : List RawExpr} {rest : List Char}
    (h : SpaceItems item.Reads s es rest) :
    ∃ noLonger, spaceItems item s = .ok ⟨es, rest, noLonger⟩ := by
  induction h with
  | nil hblank hend =>
    obtain ⟨_, hblank⟩ := hblank
    rw [spaceItems, hblank, ok_bind, if_pos hend]
    exact Skipped.found rfl rfl rfl
  | cons hblank hend hfirst _ ih =>
    obtain ⟨_, hblank⟩ := hblank
    obtain ⟨_, hfirst⟩ := hfirst
    obtain ⟨_, hmore⟩ := ih
    rw [spaceItems, hblank, ok_bind, if_neg (Bool.eq_false_iff.1 hend), hfirst, ok_bind, hmore]
    exact Skipped.found rfl rfl rfl

theorem reads_spaceList : (spaceList item).Reads = SpaceList item.Reads := by
  refine Form.ext fun s e rest => ⟨?_, ?_⟩
  · rintro ⟨_, h⟩
    rw [spaceList] at h
    split at h
    · cases h
    · rename_i hstart
      obtain ⟨first, hfirst, h⟩ := bind_ok.1 h
      obtain ⟨more, hmore, h⟩ := bind_ok.1 h
      cases h
      exact .mk (Bool.eq_false_iff.2 hstart) ⟨_, hfirst⟩ (spaceItems_sound hmore)
  · rintro ⟨hstart, ⟨_, hfirst⟩, hmore⟩
    obtain ⟨_, hmore⟩ := spaceItems_complete hmore
    rw [Reader.Reads, spaceList, if_neg (Bool.eq_false_iff.1 hstart), hfirst, ok_bind, hmore]
    exact Taken.found rfl rfl rfl

theorem commaItems_sound {atEnd : List Char → Bool} {s : List Char}
    {skipped : Skipped (Option (List RawExpr)) s} (h : commaItems item atEnd s = .ok skipped) :
    CommaItems item.Reads atEnd s skipped.value skipped.rest := by
  rw [commaItems] at h
  obtain ⟨blank, hblank, h⟩ := bind_ok.1 h
  cases hcomma : takeChar? ',' blank.rest with
  | none =>
    rw [hcomma] at h
    cases h
    exact .none ⟨_, hblank⟩ (takeChar?_none.1 hcomma)
  | some comma =>
    rw [hcomma] at h
    have before : Trivia s (',' :: comma.rest) := takeChar?_some hcomma ▸ ⟨_, hblank⟩
    obtain ⟨blank', hblank', h⟩ := bind_ok.1 h
    split at h
    · rename_i hend
      cases h
      exact .last before ⟨_, hblank'⟩ hend
    · rename_i hend
      obtain ⟨first, hfirst, h⟩ := bind_ok.1 h
      obtain ⟨more, hmore, h⟩ := bind_ok.1 h
      cases h
      exact .cons before ⟨_, hblank'⟩ (Bool.eq_false_iff.2 hend) ⟨_, hfirst⟩
        (commaItems_sound hmore)
termination_by s.length
decreasing_by exact (blank.andTake (comma.andTake (blank'.andTake first))).shorter

theorem commaItems_complete {atEnd : List Char → Bool} {s : List Char}
    {es : Option (List RawExpr)} {rest : List Char} (h : CommaItems item.Reads atEnd s es rest) :
    ∃ noLonger, commaItems item atEnd s = .ok ⟨es, rest, noLonger⟩ := by
  induction h with
  | none hblank hcomma =>
    obtain ⟨_, hblank⟩ := hblank
    rw [commaItems, hblank, ok_bind, takeChar?_none.2 hcomma]
    exact Skipped.found rfl rfl rfl
  | last hblank hblank' hend =>
    obtain ⟨_, hblank⟩ := hblank
    obtain ⟨_, hblank'⟩ := hblank'
    rw [commaItems, hblank, ok_bind, takeChar?_cons_self, Taken.head]
    simp only
    rw [hblank', ok_bind, if_pos hend]
    exact Skipped.found rfl rfl rfl
  | cons hblank hblank' hend hfirst _ ih =>
    obtain ⟨_, hblank⟩ := hblank
    obtain ⟨_, hblank'⟩ := hblank'
    obtain ⟨_, hfirst⟩ := hfirst
    obtain ⟨_, hmore⟩ := ih
    rw [commaItems, hblank, ok_bind, takeChar?_cons_self, Taken.head]
    simp only
    rw [hblank', ok_bind, if_neg (Bool.eq_false_iff.1 hend), hfirst, ok_bind, hmore]
    exact Skipped.found rfl rfl rfl

theorem reads_commaList : (commaList item).Reads = CommaList item.Reads := by
  refine Form.ext fun s e rest => ⟨?_, ?_⟩
  · rintro ⟨_, h⟩
    obtain ⟨first, hfirst, h⟩ := bind_ok.1 h
    obtain ⟨more, hmore, h⟩ := bind_ok.1 h
    cases h
    have hfirst : (spaceList item).Reads s first.value first.rest := ⟨_, hfirst⟩
    have hmore := commaItems_sound hmore
    rw [reads_spaceList] at hfirst hmore
    exact .mk hfirst hmore
  · rintro ⟨hfirst, hmore⟩
    rw [← reads_spaceList] at hfirst hmore
    obtain ⟨_, hfirst⟩ := hfirst
    obtain ⟨_, hmore⟩ := commaItems_complete hmore
    rw [Reader.Reads, commaList, hfirst, ok_bind, hmore]
    exact Taken.found rfl rfl rfl

-- ---------------------------------------------------------------------------
-- Groups and calls
-- ---------------------------------------------------------------------------

theorem reads_entryValue : (entryValue item).Reads = EntryValue item.Reads := by
  refine Form.ext fun s e rest => ⟨?_, ?_⟩
  · rintro ⟨_, h⟩
    obtain ⟨blank, hblank, h⟩ := bind_ok.1 h
    obtain ⟨colon, hcolon, h⟩ := bind_ok.1 h
    obtain ⟨blank', hblank', h⟩ := bind_ok.1 h
    obtain ⟨value, hvalue, h⟩ := bind_ok.1 h
    have before : Trivia s (':' :: colon.rest) := expect_ok hcolon ▸ ⟨_, hblank⟩
    cases h
    exact .mk before ⟨_, hblank'⟩ ⟨_, hvalue⟩
  · rintro ⟨⟨_, hblank⟩, ⟨_, hblank'⟩, ⟨_, hvalue⟩⟩
    rw [Reader.Reads, entryValue, hblank, ok_bind, expect_cons_self, ok_bind, Taken.head]
    simp only
    rw [hblank', ok_bind, hvalue]
    exact Taken.found rfl rfl rfl

theorem mapItems_sound {s : List Char} {skipped : Skipped (List (RawExpr × RawExpr)) s}
    (h : mapItems item s = .ok skipped) :
    MapItems item.Reads s skipped.value skipped.rest := by
  rw [mapItems] at h
  obtain ⟨blank, hblank, h⟩ := bind_ok.1 h
  cases hcomma : takeChar? ',' blank.rest with
  | none =>
    rw [hcomma] at h
    cases h
    exact .none ⟨_, hblank⟩ (takeChar?_none.1 hcomma)
  | some comma =>
    rw [hcomma] at h
    have before : Trivia s (',' :: comma.rest) := takeChar?_some hcomma ▸ ⟨_, hblank⟩
    obtain ⟨blank', hblank', h⟩ := bind_ok.1 h
    split at h
    · rename_i hend
      cases h
      exact .last before ⟨_, hblank'⟩ hend
    · rename_i hend
      obtain ⟨key, hkey, h⟩ := bind_ok.1 h
      obtain ⟨value, hvalue, h⟩ := bind_ok.1 h
      obtain ⟨more, hmore, h⟩ := bind_ok.1 h
      cases h
      have hvalue : (entryValue item).Reads key.rest value.value value.rest := ⟨_, hvalue⟩
      rw [reads_entryValue] at hvalue
      exact .cons before ⟨_, hblank'⟩ (Bool.eq_false_iff.2 hend) ⟨_, hkey⟩ hvalue
        (mapItems_sound hmore)
termination_by s.length
decreasing_by exact (blank.andTake (comma.andTake (blank'.andTake (key.andTake value)))).shorter

theorem mapItems_complete {s : List Char} {entries : List (RawExpr × RawExpr)}
    {rest : List Char} (h : MapItems item.Reads s entries rest) :
    ∃ noLonger, mapItems item s = .ok ⟨entries, rest, noLonger⟩ := by
  induction h with
  | none hblank hcomma =>
    obtain ⟨_, hblank⟩ := hblank
    rw [mapItems, hblank, ok_bind, takeChar?_none.2 hcomma]
    exact Skipped.found rfl rfl rfl
  | last hblank hblank' hend =>
    obtain ⟨_, hblank⟩ := hblank
    obtain ⟨_, hblank'⟩ := hblank'
    rw [mapItems, hblank, ok_bind, takeChar?_cons_self, Taken.head]
    simp only
    rw [hblank', ok_bind, if_pos hend]
    exact Skipped.found rfl rfl rfl
  | cons hblank hblank' hend hkey hvalue _ ih =>
    rw [← reads_entryValue] at hvalue
    obtain ⟨_, hblank⟩ := hblank
    obtain ⟨_, hblank'⟩ := hblank'
    obtain ⟨_, hkey⟩ := hkey
    obtain ⟨_, hvalue⟩ := hvalue
    obtain ⟨_, hmore⟩ := ih
    rw [mapItems, hblank, ok_bind, takeChar?_cons_self, Taken.head]
    simp only
    rw [hblank', ok_bind, if_neg (Bool.eq_false_iff.1 hend), hkey, ok_bind, hvalue, ok_bind, hmore]
    exact Skipped.found rfl rfl rfl

theorem groupRest_sound {first : RawExpr} {s : List Char} {skipped : Skipped RawExpr s}
    (h : groupRest item first s = .ok skipped) :
    GroupRest item.Reads first s skipped.value skipped.rest := by
  obtain ⟨blank, hblank, h⟩ := bind_ok.1 h
  cases hcolon : takeChar? ':' blank.rest with
  | some colon =>
    rw [hcolon] at h
    have before : Trivia s (':' :: colon.rest) := takeChar?_some hcolon ▸ ⟨_, hblank⟩
    obtain ⟨value, hvalue, h⟩ := bind_ok.1 h
    obtain ⟨more, hmore, h⟩ := bind_ok.1 h
    cases h
    have hvalue : (entryValue item).Reads s value.value value.rest := ⟨_, hvalue⟩
    rw [reads_entryValue] at hvalue
    exact .map before hvalue (mapItems_sound hmore)
  | none =>
    rw [hcolon] at h
    obtain ⟨more, hmore, h⟩ := bind_ok.1 h
    cases h
    exact .list ⟨_, hblank⟩ (takeChar?_none.1 hcolon) (commaItems_sound hmore)

theorem groupRest_complete {first e : RawExpr} {s rest : List Char}
    (h : GroupRest item.Reads first s e rest) :
    ∃ noLonger, groupRest item first s = .ok ⟨e, rest, noLonger⟩ := by
  cases h with
  | map hblank hvalue hmore =>
    rw [← reads_entryValue] at hvalue
    obtain ⟨_, hblank⟩ := hblank
    obtain ⟨_, hvalue⟩ := hvalue
    obtain ⟨_, hmore⟩ := mapItems_complete hmore
    rw [groupRest, hblank, ok_bind, takeChar?_cons_self]
    simp only
    rw [hvalue, ok_bind, hmore]
    exact Skipped.found rfl rfl rfl
  | list hblank hcolon hmore =>
    obtain ⟨_, hblank⟩ := hblank
    obtain ⟨_, hmore⟩ := commaItems_complete hmore
    rw [groupRest, hblank, ok_bind, takeChar?_none.2 hcolon]
    simp only
    rw [hmore]
    exact Skipped.found rfl rfl rfl

theorem reads_readGroup : (readGroup item).Reads = Group item.Reads := by
  refine Form.ext fun s e rest => ⟨?_, ?_⟩
  · rintro ⟨_, h⟩
    obtain ⟨opened, hopened, h⟩ := bind_ok.1 h
    obtain ⟨blank, hblank, h⟩ := bind_ok.1 h
    rw [expect_ok hopened]
    split at h
    · obtain ⟨closed, hclosed, h⟩ := bind_ok.1 h
      cases h
      exact .empty (expect_ok hclosed ▸ ⟨_, hblank⟩)
    · rename_i hclose
      obtain ⟨first, hfirst, h⟩ := bind_ok.1 h
      obtain ⟨inside, hinside, h⟩ := bind_ok.1 h
      obtain ⟨closed, hclosed, h⟩ := bind_ok.1 h
      cases h
      have rest := groupRest_sound hinside
      rw [expect_ok hclosed] at rest
      exact .full ⟨_, hblank⟩ (Bool.eq_false_iff.2 hclose) ⟨_, hfirst⟩ rest
  · intro h
    cases h with
    | empty hblank =>
      obtain ⟨_, hblank⟩ := hblank
      rw [Reader.Reads, readGroup, expect_cons_self, ok_bind, Taken.head]
      simp only
      rw [hblank, ok_bind, if_pos (by rfl), expect_cons_self]
      exact Taken.found rfl rfl rfl
    | full hblank hclose hfirst hinside =>
      obtain ⟨_, hblank⟩ := hblank
      obtain ⟨_, hfirst⟩ := hfirst
      obtain ⟨_, hinside⟩ := groupRest_complete hinside
      rw [Reader.Reads, readGroup, expect_cons_self, ok_bind, Taken.head]
      simp only
      rw [hblank, ok_bind, if_neg (Bool.eq_false_iff.1 hclose), hfirst, ok_bind, hinside, ok_bind,
        expect_cons_self]
      exact Taken.found rfl rfl rfl

theorem argumentItems_sound {s : List Char} {taken : Taken (List RawExpr) s}
    (h : argumentItems item s = .ok taken) :
    ArgumentItems item.Reads s taken.value taken.rest := by
  rw [argumentItems] at h
  obtain ⟨blank, hblank, h⟩ := bind_ok.1 h
  split at h
  · obtain ⟨closed, hclosed, h⟩ := bind_ok.1 h
    cases h
    exact .nil (expect_ok hclosed ▸ ⟨_, hblank⟩)
  · rename_i hclose
    obtain ⟨first, hfirst, h⟩ := bind_ok.1 h
    obtain ⟨blank', hblank', h⟩ := bind_ok.1 h
    cases hcomma : takeChar? ',' blank'.rest with
    | some comma =>
      rw [hcomma] at h
      obtain ⟨more, hmore, h⟩ := bind_ok.1 h
      have behind : Trivia first.rest (',' :: comma.rest) :=
        takeChar?_some hcomma ▸ ⟨_, hblank'⟩
      cases h
      exact .cons ⟨_, hblank⟩ (Bool.eq_false_iff.2 hclose) ⟨_, hfirst⟩ behind
        (argumentItems_sound hmore)
    | none =>
      rw [hcomma] at h
      obtain ⟨closed, hclosed, h⟩ := bind_ok.1 h
      cases h
      exact .last ⟨_, hblank⟩ (Bool.eq_false_iff.2 hclose) ⟨_, hfirst⟩
        (expect_ok hclosed ▸ ⟨_, hblank'⟩)
termination_by s.length
decreasing_by exact (blank.andTake (first.andTake (blank'.andTake comma))).shorter

theorem argumentItems_complete {s : List Char} {es : List RawExpr} {rest : List Char}
    (h : ArgumentItems item.Reads s es rest) :
    ∃ shorter, argumentItems item s = .ok ⟨es, rest, shorter⟩ := by
  induction h with
  | nil hblank =>
    obtain ⟨_, hblank⟩ := hblank
    rw [argumentItems, hblank, ok_bind, if_pos (by rfl), expect_cons_self]
    exact Taken.found rfl rfl rfl
  | last hblank hclose hfirst hblank' =>
    obtain ⟨_, hblank⟩ := hblank
    obtain ⟨_, hfirst⟩ := hfirst
    obtain ⟨_, hblank'⟩ := hblank'
    rw [argumentItems, hblank, ok_bind, if_neg (Bool.eq_false_iff.1 hclose), hfirst, ok_bind,
      hblank', ok_bind]
    exact Taken.found rfl rfl rfl
  | cons hblank hclose hfirst hblank' _ ih =>
    obtain ⟨_, hblank⟩ := hblank
    obtain ⟨_, hfirst⟩ := hfirst
    obtain ⟨_, hblank'⟩ := hblank'
    obtain ⟨_, hmore⟩ := ih
    rw [argumentItems, hblank, ok_bind, if_neg (Bool.eq_false_iff.1 hclose), hfirst, ok_bind,
      hblank', ok_bind, takeChar?_cons_self, Taken.head]
    simp only
    rw [hmore]
    exact Taken.found rfl rfl rfl

theorem reads_readArguments : (readArguments item).Reads = ArgumentList item.Reads := by
  refine Form.ext fun s es rest => ⟨?_, ?_⟩
  · rintro ⟨_, h⟩
    obtain ⟨opened, hopened, h⟩ := bind_ok.1 h
    obtain ⟨items, hitems, h⟩ := bind_ok.1 h
    rw [expect_ok hopened]
    cases h
    exact .mk (argumentItems_sound hitems)
  · rintro ⟨hitems⟩
    obtain ⟨_, hitems⟩ := argumentItems_complete hitems
    rw [Reader.Reads, readArguments, expect_cons_self, ok_bind, Taken.head]
    simp only
    rw [hitems]
    exact Taken.found rfl rfl rfl

end

-- ---------------------------------------------------------------------------
-- Primaries
-- ---------------------------------------------------------------------------

theorem reads_readNameOrCall {arguments : Reader (List RawExpr)} :
    (readNameOrCall arguments).Reads = NameOrCall arguments.Reads := by
  refine Form.ext fun s e rest => ⟨?_, ?_⟩
  · rintro ⟨_, h⟩
    obtain ⟨name, hname, h⟩ := bind_ok.1 h
    cases hcall : takeChar? '(' name.rest with
    | some opened =>
      rw [hcall] at h
      obtain ⟨args, hargs, h⟩ := bind_ok.1 h
      cases h
      exact .call ⟨_, hname⟩ (takeChar?_some hcall ▸ rfl) ⟨_, hargs⟩
    | none =>
      rw [hcall] at h
      cases h
      exact .name ⟨_, hname⟩ (takeChar?_none.1 hcall)
  · intro h
    cases h with
    | name hname hcall =>
      obtain ⟨_, hname⟩ := hname
      rw [Reader.Reads, readNameOrCall, hname, ok_bind, takeChar?_none.2 hcall]
      exact Taken.found rfl rfl rfl
    | call hname hcall hargs =>
      obtain ⟨_, hname⟩ := hname
      obtain ⟨_, hargs⟩ := hargs
      obtain ⟨_, hopened⟩ := exists_takeChar? hcall
      rw [Reader.Reads, readNameOrCall, hname, ok_bind, hopened]
      simp only
      rw [hargs]
      exact Taken.found rfl rfl rfl

-- The tests for the sorts of primaries exclude each other, so a grammar needs no order of them.

theorem startsNumber_cons {c : Char} {s : List Char} (h : startsNumber (c :: s) = true) :
    c ≠ '(' ∧ c ≠ '#' ∧ ¬ (c = '"' ∨ c = '\'') := by
  refine ⟨?_, ?_, ?_⟩
  · rintro rfl
    cases s <;> cases h
  · rintro rfl
    cases s <;> cases h
  · rintro (rfl | rfl) <;> cases s <;> cases h

theorem isNameStart_or_hyphen {c : Char} (h : isNameStart c = true ∨ c = '-') :
    c ≠ '(' ∧ c ≠ '#' ∧ ¬ (c = '"' ∨ c = '\'') := by
  refine ⟨?_, ?_, ?_⟩
  · rintro rfl
    revert h
    decide
  · rintro rfl
    revert h
    decide
  · rintro (rfl | rfl) <;> revert h <;> decide

theorem reads_literal {read : Reader Value} {s rest : List Char} {e : RawExpr} :
    (literal read).Reads s e rest ↔ ∃ v, read.Reads s v rest ∧ e = .literal v := by
  constructor
  · rintro ⟨_, h⟩
    obtain ⟨r, hr, h⟩ := bind_ok.1 h
    cases h
    exact ⟨_, ⟨_, hr⟩, rfl⟩
  · rintro ⟨v, ⟨_, hr⟩, rfl⟩
    rw [Reader.Reads, literal, hr]
    exact Taken.found rfl rfl rfl

theorem reads_primaryWith {group : Reader RawExpr} {arguments : Reader (List RawExpr)} :
    (primaryWith group arguments).Reads = PrimaryOf group.Reads arguments.Reads := by
  refine Form.ext fun s e rest => ⟨?_, ?_⟩
  · rintro ⟨_, h⟩
    cases s with
    | nil => cases h
    | cons c s =>
      rw [primaryWith] at h
      split at h
      · rename_i hc
        subst hc
        exact .group ⟨_, h⟩
      split at h
      · rename_i hc
        subst hc
        obtain ⟨v, hv, rfl⟩ := reads_literal.1 ⟨_, h⟩
        exact .color hv
      split at h
      · rename_i hc
        obtain ⟨v, hv, rfl⟩ := reads_literal.1 ⟨_, h⟩
        exact .quoted hc hv
      split at h
      · rename_i hnumber
        obtain ⟨v, hv, rfl⟩ := reads_literal.1 ⟨_, h⟩
        exact .number hnumber hv
      split at h
      · rename_i hnumber hc
        exact .name (Bool.eq_false_iff.2 hnumber) hc (reads_readNameOrCall ▸ ⟨_, h⟩)
      · cases h
  · intro h
    cases h with
    | group h =>
      rw [Reader.Reads, primaryWith, if_pos rfl]
      exact h
    | color h =>
      rw [Reader.Reads, primaryWith, if_neg (by decide), if_pos rfl]
      exact reads_literal.2 ⟨_, h, rfl⟩
    | quoted hc h =>
      rw [Reader.Reads, primaryWith, if_neg (by rcases hc with rfl | rfl <;> decide),
        if_neg (by rcases hc with rfl | rfl <;> decide), if_pos hc]
      exact reads_literal.2 ⟨_, h, rfl⟩
    | @number s v rest hnumber h =>
      cases s with
      | nil => cases hnumber
      | cons c s =>
        obtain ⟨hgroup, hcolor, hquote⟩ := startsNumber_cons hnumber
        rw [Reader.Reads, primaryWith, if_neg hgroup, if_neg hcolor, if_neg hquote, if_pos hnumber]
        exact reads_literal.2 ⟨_, h, rfl⟩
    | name hnumber hc h =>
      obtain ⟨hgroup, hcolor, hquote⟩ := isNameStart_or_hyphen hc
      rw [Reader.Reads, primaryWith, if_neg hgroup, if_neg hcolor, if_neg hquote,
        if_neg (Bool.eq_false_iff.1 hnumber), if_pos hc]
      rw [← reads_readNameOrCall] at h
      exact h

theorem reads_tooDeep {α : Type} : (Reader.tooDeep : Reader α).Reads = fun _ _ _ => False := by
  refine Form.ext fun s a rest => ⟨?_, False.elim⟩
  rintro ⟨_, h⟩
  cases h

/-- With every number of levels, primaries are read as their grammar says. -/
theorem reads_readPrimary (levels : Nat) : (readPrimary levels).Reads = Primary levels := by
  induction levels with
  | zero => rw [readPrimary, Primary, reads_primaryWith, reads_tooDeep, reads_tooDeep]
  | succ levels ih =>
    rw [readPrimary, Primary, reads_primaryWith, reads_readGroup, reads_readArguments,
      reads_spaceList, ih]

theorem reads_readValue (levels : Nat) :
    (readValue levels).Reads = CommaList (Primary levels) := by
  rw [readValue, reads_commaList, reads_readPrimary]

end HostSheet
