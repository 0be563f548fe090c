import HostSheet.Cursor.Basic
import HostSheet.Proofs.Sheet.Scanning
import HostSheet.Proofs.Source.Slicing

/-!
# Cursors and readers

A cursor tracks a reader if it comes to the same end: it reads the same and then has the text ahead
that the reader leaves, or it reports the same fault where the reader does. Each step of a cursor is
a step of the reader, or a look at the text ahead.
-/

namespace HostSheet

def Cursor.facing (source rest : List Char) (depth : Nat) : Cursor :=
  ⟨Source.offsetOf source rest, depth⟩

namespace CursorM

variable {α α' β γ : Type} {source s t rest : List Char} {depth : Nat} {cursor next : Cursor}

-- ---------------------------------------------------------------------------
-- Steps
-- ---------------------------------------------------------------------------

theorem exec_bind_ok {p : CursorM α} {a : α} (h : p.exec source cursor = some (.ok (a, next)))
    (k : α → CursorM β) : (p >>= k).exec source cursor = (k a).exec source next := by
  change ((p source cursor).bind _ : Option (Except SyntaxError (β × Cursor))) = _
  rw [show p source cursor = _ from h]
  rfl

theorem exec_bind_error {p : CursorM α} {e : SyntaxError}
    (h : p.exec source cursor = some (.error e)) (k : α → CursorM β) :
    (p >>= k).exec source cursor = some (.error e) := by
  change ((p source cursor).bind _ : Option (Except SyntaxError (β × Cursor))) = _
  rw [show p source cursor = _ from h]
  rfl

theorem exec_offset : offset.exec source cursor = some (.ok (cursor.offset, cursor)) := rfl

theorem exec_read :
    CursorM.exec (read : CursorM (List Char)) source cursor = some (.ok (source, cursor)) := rfl

theorem exec_slice {slice? : Option α} {a : α} (h : slice? = some a) :
    CursorM.exec (liftM slice? : CursorM α) source cursor = some (.ok (a, cursor)) := by
  subst h
  rfl

-- A cursor inside a character has nothing ahead that could be sliced off.
example : CursorM.rest.exec ['é'] ⟨1, 0⟩ = none := rfl

section
variable (hs : s <:+ source)
include hs

theorem exec_rest :
    CursorM.rest.exec source (.facing source s depth) =
      some (.ok (s, .facing source s depth)) := by
  rw [CursorM.rest, exec_bind_ok exec_read, exec_bind_ok exec_offset]
  exact exec_slice (Source.sliceFrom?_offsetOf hs)

theorem exec_peek :
    peek.exec source (.facing source s depth) =
      some (.ok (s.head?, .facing source s depth)) := by
  rw [peek, exec_bind_ok (exec_rest hs)]
  rfl

theorem exec_peekSecond :
    peekSecond.exec source (.facing source s depth) =
      some (.ok (s[1]?, .facing source s depth)) := by
  rw [peekSecond, exec_bind_ok (exec_rest hs)]
  rfl

end

theorem exec_advance (front : List Char) (hs : front ++ s <:+ source) :
    (advance (Source.byteLength front)).exec source (.facing source (front ++ s) depth) =
      some (.ok ((), .facing source s depth)) := by
  rw [Cursor.facing, Cursor.facing, ← Source.add_offsetOf front hs]
  rfl

theorem exec_advance_offsetOf (ht : t <:+ s) (hs : s <:+ source) :
    (advance (Source.offsetOf s t)).exec source (.facing source s depth) =
      some (.ok ((), .facing source t depth)) := by
  obtain ⟨front, rfl⟩ := ht
  rw [Source.offsetOf_append]
  exact exec_advance front hs

theorem exec_advance_cons {c : Char} (hs : c :: s <:+ source) :
    (advance c.utf8Size).exec source (.facing source (c :: s) depth) =
      some (.ok ((), .facing source s depth)) :=
  exec_advance [c] hs

theorem exec_bump {c : Char} (hs : c :: s <:+ source) :
    bump.exec source (.facing source (c :: s) depth) =
      some (.ok (some c, .facing source s depth)) := by
  rw [bump, exec_bind_ok (exec_peek hs)]
  change (advance c.utf8Size >>= fun _ => pure (some c)).exec source _ = _
  rw [exec_bind_ok (exec_advance_cons hs)]
  rfl

theorem exec_bump_taken {c : Char} {taken : Taken Unit s} (h : takeChar? c s = some taken)
    (hs : s <:+ source) :
    bump.exec source (.facing source s depth) =
      some (.ok (some c, .facing source taken.rest depth)) := by
  revert hs
  exact takeChar?_elim h fun t hs => exec_bump hs

theorem exec_bump_nil :
    bump.exec source (.facing source [] depth) =
      some (.ok (none, .facing source [] depth)) := by
  rw [bump, exec_bind_ok (exec_peek List.nil_suffix)]
  rfl

theorem exec_eat {c : Char} (hs : c :: s <:+ source) :
    (eat c).exec source (.facing source (c :: s) depth) =
      some (.ok (true, .facing source s depth)) := by
  rw [eat, exec_bind_ok (exec_peek hs), List.head?_cons, if_pos rfl,
    exec_bind_ok (exec_advance_cons hs)]
  rfl

theorem exec_eat_not {c : Char} (hs : s <:+ source) (hc : s.head? ≠ some c) :
    (eat c).exec source (.facing source s depth) =
      some (.ok (false, .facing source s depth)) := by
  rw [eat, exec_bind_ok (exec_peek hs), if_neg hc]
  rfl

theorem exec_expect {c : Char} (hs : c :: s <:+ source) :
    (expect c).exec source (.facing source (c :: s) depth) =
      some (.ok ((), .facing source s depth)) := by
  rw [expect, exec_bind_ok (exec_eat hs)]
  rfl

theorem exec_bumpWhile (p : Char → Bool) (hs : s <:+ source) :
    (bumpWhile p).exec source (.facing source s depth) =
      some (.ok ((), .facing source (s.dropWhile p) depth)) := by
  induction s with
  | nil =>
    rw [bumpWhile, exec_bind_ok (exec_peek hs)]
    rfl
  | cons c s ih =>
    rw [bumpWhile, exec_bind_ok (exec_peek hs), List.dropWhile_cons, List.head?_cons,
      Option.any_some]
    split
    · rw [exec_bind_ok (exec_bump hs), ih ((List.suffix_cons c s).trans hs)]
    · rfl

theorem exec_passed {front : List Char} (h : front ++ s = t) (ht : t <:+ source) :
    (passed (Source.offsetOf source t)).exec source (.facing source s depth) =
      some (.ok (front, .facing source s depth)) := by
  subst h
  rw [passed, exec_bind_ok exec_read, exec_bind_ok exec_offset]
  exact exec_slice (Source.slice?_offsetOf ht)

theorem exec_enter (h : depth < maxNesting) :
    enter.exec source (.facing source s depth) =
      some (.ok ((), .facing source s (depth + 1))) := by
  change (ite (maxNesting ≤ depth) (fail .tooDeep) _ : CursorM Unit).exec source _ = _
  rw [if_neg (Nat.not_le_of_lt h)]
  rfl

theorem exec_enter_tooDeep (h : maxNesting ≤ depth) :
    enter.exec source (.facing source s depth) =
      some (.error (Fault.inSource source ⟨.tooDeep, s⟩)) := by
  change (ite (maxNesting ≤ depth) (fail .tooDeep) _ : CursorM Unit).exec source _ = _
  rw [if_pos h]
  rfl

-- ---------------------------------------------------------------------------
-- Tracking
-- ---------------------------------------------------------------------------

/-- The cursor, with `s` ahead of it, comes to the end that the reader comes to: with the result `a`
it reads `value a` and has `rest a` ahead, at the depth it started at; a fault it reports where the
fault is. -/
def Tracks (source : List Char) (depth : Nat) (p : CursorM β) (s : List Char) (x : Except Fault α)
    (value : α → β) (rest : α → List Char) : Prop :=
  match x with
  | .ok a => p.exec source (.facing source s depth) =
      some (.ok (value a, .facing source (rest a) depth)) ∧ rest a <:+ source
  | .error fault => p.exec source (.facing source s depth) =
      some (.error (fault.inSource source)) ∧ fault.rest <:+ source

def TracksReader (source : List Char) (depth : Nat) (p : CursorM β) (read : Reader α)
    (f : α → β) : Prop :=
  ∀ ⦃s⦄, s <:+ source → Tracks source depth p s (read s) (fun taken => f taken.value) Taken.rest

/-- The cursor tracks the reader one level deeper, where a further level is allowed. -/
def TracksDeeper (source : List Char) (depth : Nat) (p : CursorM β) (read : Reader α)
    (f : α → β) : Prop :=
  (maxNesting ≤ depth → read = Reader.tooDeep) ∧
    (depth < maxNesting → TracksReader source (depth + 1) p read f)

namespace Tracks

variable {x : Except Fault α} {value : α → β} {rest : α → List Char}

theorem pure {b : β} {a : α} (hs : s <:+ source) (hvalue : value a = b) (hrest : rest a = s) :
    Tracks source depth (pure b) s (pure a) value rest := by
  subst hvalue hrest
  exact ⟨rfl, hs⟩

theorem of_exec {p q : CursorM β}
    (hq : q.exec source (.facing source s depth) = p.exec source (.facing source t depth))
    (h : Tracks source depth p t x value rest) : Tracks source depth q s x value rest := by
  cases x <;> exact ⟨hq.trans h.1, h.2⟩

theorem step {p : CursorM γ} {c : γ} {k : γ → CursorM β}
    (hp : p.exec source (.facing source s depth) = some (.ok (c, .facing source t depth)))
    (h : Tracks source depth (k c) t x value rest) :
    Tracks source depth (p >>= k) s x value rest :=
  h.of_exec (exec_bind_ok hp k)

theorem bind {p : CursorM γ} {k : γ → CursorM β} {y : Except Fault α'} {read : α' → γ}
    {behind : α' → List Char} {f : α' → Except Fault α}
    (hp : Tracks source depth p s y read behind)
    (hk : ∀ a, y = .ok a → behind a <:+ source →
      Tracks source depth (k (read a)) (behind a) (f a) value rest) :
    Tracks source depth (p >>= k) s (y >>= f) value rest := by
  cases y with
  | error fault => exact ⟨exec_bind_error hp.1 k, hp.2⟩
  | ok a => exact (hk a rfl hp.2).step hp.1

theorem failAt {start : List Char} (hs : start <:+ source) (cause : SyntaxCause) :
    Tracks source depth (failAt (Source.offsetOf source start) cause) s (.error ⟨cause, start⟩)
      value rest :=
  ⟨rfl, hs⟩

theorem fail (hs : s <:+ source) (cause : SyntaxCause) :
    Tracks source depth (fail cause) s (.error ⟨cause, s⟩) value rest :=
  ⟨rfl, hs⟩

/-- A reader that only puts its result together differently. -/
theorem wrap {p : CursorM β} {y : Except Fault α'} {read : α' → β} {behind : α' → List Char}
    {f : α' → α} (h : Tracks source depth p s y read behind)
    (hvalue : ∀ a, value (f a) = read a) (hrest : ∀ a, rest (f a) = behind a) :
    Tracks source depth p s (y >>= fun a => Pure.pure (f a)) value rest := by
  cases y with
  | error fault => exact h
  | ok a =>
    refine ⟨h.1.trans ?_, (hrest a).symm ▸ h.2⟩
    rw [hvalue, hrest]

theorem branch {c : Prop} [Decidable c] {p q : CursorM β} {y : Except Fault α}
    (hp : c → Tracks source depth p s x value rest)
    (hq : ¬ c → Tracks source depth q s y value rest) :
    Tracks source depth (if c then p else q) s (if c then x else y) value rest := by
  by_cases hc : c
  · rw [if_pos hc, if_pos hc]
    exact hp hc
  · rw [if_neg hc, if_neg hc]
    exact hq hc

section
variable {c : Char} {p q : CursorM β}

theorem eat_some {taken : Taken Unit s} (hc : takeChar? c s = some taken) (hs : s <:+ source)
    (h : taken.rest <:+ source → Tracks source depth p taken.rest x value rest) :
    Tracks source depth (do if ← eat c then p else q) s x value rest := by
  revert hs h
  exact takeChar?_elim hc fun t hs h =>
    .step (exec_eat hs) (h ((List.suffix_cons c t).trans hs))

theorem eat_none (hc : takeChar? c s = none) (hs : s <:+ source)
    (h : Tracks source depth q s x value rest) :
    Tracks source depth (do if ← eat c then p else q) s x value rest :=
  .step (exec_eat_not hs (takeChar?_none.1 hc)) h

end

/-- A part that lies one level deeper. -/
theorem nested {p : CursorM γ} {k : γ → CursorM β} {read : Reader α'} {f : α' → γ}
    {g : Taken α' s → Except Fault α} (hs : s <:+ source) (hp : TracksDeeper source depth p read f)
    (hk : ∀ taken, read s = .ok taken → taken.rest <:+ source →
      Tracks source depth (k (f taken.value)) taken.rest (g taken) value rest) :
    Tracks source depth (do enter; let c ← p; leave; k c) s (read s >>= g) value rest := by
  by_cases hdepth : maxNesting ≤ depth
  · rw [hp.1 hdepth]
    exact ⟨exec_bind_error (exec_enter_tooDeep hdepth) _, hs⟩
  · have henter : enter.exec source (.facing source s depth) = _ :=
      exec_enter (Nat.lt_of_not_le hdepth)
    have hread := hp.2 (Nat.lt_of_not_le hdepth) hs
    cases hx : read s with
    | error fault =>
      rw [hx] at hread
      exact ⟨(exec_bind_ok henter _).trans (exec_bind_error hread.1 _), hread.2⟩
    | ok taken =>
      rw [hx] at hread
      exact (hk taken hx hread.2).of_exec ((exec_bind_ok henter _).trans
        ((exec_bind_ok hread.1 _).trans (exec_bind_ok rfl _)))

end Tracks

-- ---------------------------------------------------------------------------
-- Single characters, blanks and comments
-- ---------------------------------------------------------------------------

theorem tracks_expect (c : Char) :
    TracksReader source depth (expect c) (Reader.expect c) fun _ => () := by
  intro s hs
  cases s with
  | nil => exact .step (exec_eat_not hs nofun) (.fail hs _)
  | cons d s =>
    rw [Reader.expect]
    split
    · rename_i hd
      subst hd
      exact .step (exec_eat hs) (.pure ((List.suffix_cons d s).trans hs) rfl rfl)
    · rename_i hd
      exact .step (exec_eat_not hs (by simpa using hd)) (.fail hs _)

theorem tracks_afterTrivia (hs : s <:+ source) :
    Tracks source depth skipTrivia s (afterTrivia s) (fun _ => ()) id := by
  induction hn : s.length using Nat.strongRecOn generalizing s with
  | ind n ih =>
    subst hn
    have hblank : Text.trimStart s <:+ s := List.dropWhile_suffix _
    have hlength := Text.length_trimStart_le s
    have htrimmed := hblank.trans hs
    have hdone := Text.trimStart_trimStart s
    rw [skipTrivia, ← afterTrivia_trimStart]
    refine .step (exec_rest hs) (.step (exec_advance_offsetOf hblank hs) ?_)
    generalize Text.trimStart s = trimmed at hlength htrimmed hdone
    fun_cases readComment? trimmed with
    | case1 t =>
      have hline : dropLine t <:+ '/' :: '/' :: t :=
        (List.dropWhile_suffix _).trans (List.suffix_append ['/', '/'] t)
      have hshorter : (dropLine t).length < s.length := by
        have := length_dropLine_le t
        simp only [List.length_cons] at hlength
        omega
      rw [if_pos (by simp), Source.findChar?_offsetOf,
        afterTrivia_comment (comment_iff.2 (.inl ⟨t, rfl, rfl⟩))]
      exact .step (exec_advance_offsetOf hline htrimmed)
        (ih _ hshorter (hline.trans htrimmed) rfl)
    | case2 t hclose =>
      rw [if_neg (by simp), if_pos (by simp), afterTrivia_open hclose]
      refine .step (exec_slice (Source.sliceFrom?_pair rfl rfl t)) ?_
      rw [Source.find?_close, hclose]
      exact .fail htrimmed _
    | case3 t inside after hclose =>
      have htext : '/' :: '*' :: t = ('/' :: '*' :: inside ++ ['*', '/']) ++ after := by
        simp [closeComment_eq hclose]
      have hshorter : after.length < s.length := by
        have := length_closeComment hclose
        simp only [List.length_cons] at hlength
        omega
      rw [if_neg (by simp), if_pos (by simp),
        afterTrivia_comment (comment_iff.2 (.inr ⟨t, inside, rfl, hclose⟩))]
      refine .step (exec_slice (Source.sliceFrom?_pair rfl rfl t)) ?_
      rw [Source.find?_close, hclose]
      simp only [Option.map_some]
      rw [htext] at htrimmed ⊢
      rw [← Source.byteLength_comment]
      exact .step (exec_advance _ htrimmed)
        (ih _ hshorter ((List.suffix_append _ _).trans htrimmed) rfl)
    | case4 _ hline hopen =>
      rw [if_neg (fun h => (Source.isPrefixOf_pair.1 h).elim hline),
        if_neg (fun h => (Source.isPrefixOf_pair.1 h).elim hopen),
        afterTrivia_of_startsToken ⟨hdone, readComment?.eq_3 _ hline hopen⟩]
      exact .pure htrimmed rfl rfl

theorem tracks_skipTrivia (hs : s <:+ source) :
    Tracks source depth skipTrivia s (HostSheet.skipTrivia s) (fun _ => ()) Skipped.rest := by
  have hskip : Tracks source depth skipTrivia s _ _ _ := tracks_afterTrivia hs
  rw [afterTrivia] at hskip
  cases hblank : HostSheet.skipTrivia s <;> rw [hblank] at hskip <;> exact hskip

theorem exec_skipTrivia {blank : Skipped Unit s} (h : HostSheet.skipTrivia s = .ok blank)
    (hs : s <:+ source) :
    skipTrivia.exec source (.facing source s depth) =
      some (.ok ((), .facing source blank.rest depth)) := by
  have hskip : Tracks source depth skipTrivia s _ _ _ := tracks_skipTrivia hs
  rw [h] at hskip
  exact hskip.1

theorem exec_skipTrivia_again {blank : Skipped Unit s} (h : HostSheet.skipTrivia s = .ok blank)
    (hs : blank.rest <:+ source) :
    skipTrivia.exec source (.facing source blank.rest depth) =
      some (.ok ((), .facing source blank.rest depth)) := by
  have hblank : Trivia s blank.rest := ⟨blank.noLonger, h⟩
  have hskip : Tracks source depth skipTrivia blank.rest _ _ _ := tracks_afterTrivia hs
  rw [afterTrivia_of_startsToken hblank.startsToken] at hskip
  exact hskip.1

end CursorM

end HostSheet
