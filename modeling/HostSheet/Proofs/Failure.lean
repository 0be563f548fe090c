import HostSheet.Proofs.Result

/-!
# First failures

What the failure of a computation says about its parts. A pass over a list fails exactly if one of
its elements does, and it fails as the first of them; nothing behind that element plays a part.
-/

namespace HostSheet

variable {ε α β γ : Type}

-- ---------------------------------------------------------------------------
-- Failures
-- ---------------------------------------------------------------------------

def Fails (x : Except ε α) : Prop :=
  ∃ e, x = .error e

theorem not_fails_iff {x : Except ε α} : ¬ Fails x ↔ ∃ a, x = .ok a := by
  cases x <;> simp [Fails]

theorem bind_error {x : Except ε α} {f : α → Except ε β} {e : ε} :
    x >>= f = .error e ↔ x = .error e ∨ ∃ a, x = .ok a ∧ f a = .error e := by
  cases x <;> simp [bind, Except.bind]

@[simp] theorem pure_error {a : α} {e : ε} : (pure a : Except ε α) = .error e ↔ False := by
  simp [pure, Except.pure]

@[simp] theorem throw_error {e e' : ε} : (throw e : Except ε α) = .error e' ↔ e = e' := by
  simp [throw, throwThe, MonadExceptOf.throw]

theorem return_error {x : Except ε α} {g : α → β} {e : ε} :
    (do return g (← x)) = .error e ↔ x = .error e := by
  simp only [bind_error, pure_error, and_false, exists_false, or_false]

theorem both_error {x : Except ε α} {y : Except ε β} {g : α → β → γ} {e : ε} :
    (do return g (← x) (← y)) = .error e ↔ x = .error e ∨ ¬ Fails x ∧ y = .error e := by
  rw [bind_error, not_fails_iff]
  simp only [return_error, exists_and_right]

theorem fails_both {x : Except ε α} {y : Except ε β} {g : α → β → γ} :
    Fails (do return g (← x) (← y)) ↔ Fails x ∨ Fails y := by
  simp only [Fails, both_error, exists_or, exists_and_left]
  exact or_and_left.trans (and_iff_right (em _))

-- ---------------------------------------------------------------------------
-- The first element of a list
-- ---------------------------------------------------------------------------

section
variable {P : α → Prop}

/-- `a`, at place `i`, is the first element that satisfies `P`. -/
structure FirstAt (P : α → Prop) (as : List α) (i : Nat) (a : α) : Prop where
  getElem? : as[i]? = some a
  holds : P a
  before : ∀ b ∈ as.take i, ¬ P b

theorem not_firstAt_nil {i : Nat} {a : α} : ¬ FirstAt P [] i a :=
  fun h => nomatch h.getElem?

theorem firstAt_singleton {a : α} (h : P a) : FirstAt P [a] 0 a :=
  ⟨rfl, h, by simp⟩

theorem exists_firstAt_cons {a : α} {as : List α} {Q : Nat → α → Prop} :
    (∃ i b, FirstAt P (a :: as) i b ∧ Q i b) ↔
      P a ∧ Q 0 a ∨ ¬ P a ∧ ∃ i b, FirstAt P as i b ∧ Q (i + 1) b := by
  constructor
  · rintro ⟨i, b, ⟨hb, hP, before⟩, hQ⟩
    cases i with
    | zero =>
      obtain rfl : a = b := by simpa using hb
      exact .inl ⟨hP, hQ⟩
    | succ i =>
      rw [List.take_succ_cons, List.forall_mem_cons] at before
      exact .inr ⟨before.1, i, b, ⟨hb, hP, before.2⟩, hQ⟩
  · rintro (⟨hP, hQ⟩ | ⟨ha, i, b, ⟨hb, hP, before⟩, hQ⟩)
    · exact ⟨0, a, ⟨rfl, hP, by simp⟩, hQ⟩
    · refine ⟨i + 1, b, ⟨hb, hP, ?_⟩, hQ⟩
      rw [List.take_succ_cons, List.forall_mem_cons]
      exact ⟨ha, before⟩

end

/-- A pass over a list fails as its first element that fails. -/
theorem mapM_error {f : α → Except ε β} {as : List α} {e : ε} :
    as.mapM f = .error e ↔
      ∃ i a, FirstAt (fun a => Fails (f a)) as i a ∧ f a = .error e := by
  induction as with
  | nil =>
    simp only [List.mapM_nil, pure_error, not_firstAt_nil, false_and, exists_false]
  | cons a as ih =>
    rw [List.mapM_cons, both_error, ih, exists_firstAt_cons]
    exact or_congr_left ⟨fun h => ⟨⟨e, h⟩, h⟩, And.right⟩

theorem fails_mapM {f : α → Except ε β} {as : List α} :
    Fails (as.mapM f) ↔ ∃ a ∈ as, Fails (f a) := by
  induction as with
  | nil => simp [Fails]
  | cons a as ih => rw [List.mapM_cons, fails_both, ih, List.exists_mem_cons_iff]

-- ---------------------------------------------------------------------------
-- The first of many parts
-- ---------------------------------------------------------------------------

section
variable {δ : Type} {p : δ → Bool} {blame : δ → ε} {parts parts' : List δ}

/-- `x` fails exactly if one of the parts satisfies `p`, and the first of those is to blame. -/
def FailsByFirst (p : δ → Bool) (blame : δ → ε) (parts : List δ) (x : Except ε α) : Prop :=
  ∀ e, x = .error e ↔ (parts.find? p).map blame = some e

theorem FailsByFirst.exists_ok_iff {x : Except ε α} (h : FailsByFirst p blame parts x) :
    (∃ a, x = .ok a) ↔ (parts.find? p).map blame = none := by
  rw [← not_fails_iff, Fails, Option.eq_none_iff_forall_ne_some, not_exists]
  exact forall_congr' fun e => not_congr (h e)

theorem FailsByFirst.nil (a : α) : FailsByFirst p blame [] (.ok a) :=
  fun _ => ⟨nofun, nofun⟩

theorem FailsByFirst.head {part : δ} (h : p part = true) :
    FailsByFirst p blame (part :: parts) (.error (blame part) : Except ε α) := by
  intro e
  rw [List.find?_cons_of_pos h, Option.map_some, Except.error.injEq, Option.some.injEq]

theorem FailsByFirst.cons {part : δ} {x : Except ε α} (h : p part = false)
    (hx : FailsByFirst p blame parts x) : FailsByFirst p blame (part :: parts) x := by
  intro e
  rw [List.find?_cons_of_neg (Bool.eq_false_iff.1 h), hx e]

theorem FailsByFirst.both {x : Except ε α} {y : Except ε β} {g : α → β → γ}
    (hx : FailsByFirst p blame parts x) (hy : FailsByFirst p blame parts' y) :
    FailsByFirst p blame (parts ++ parts') (do return g (← x) (← y)) := by
  intro e
  rw [both_error, hx, not_fails_iff, hx.exists_ok_iff, hy, List.find?_append, Option.map_or,
    Option.or_eq_some_iff]

theorem FailsByFirst.map {x : Except ε α} {g : α → β} (hx : FailsByFirst p blame parts x) :
    FailsByFirst p blame parts (do return g (← x)) :=
  fun e => return_error.trans (hx e)

theorem FailsByFirst.mapM {f : α → Except ε β} {partsOf : α → List δ} {as : List α}
    (h : ∀ a ∈ as, FailsByFirst p blame (partsOf a) (f a)) :
    FailsByFirst p blame (as.flatMap partsOf) (as.mapM f) := by
  induction as with
  | nil => exact .nil []
  | cons a as ih =>
    rw [List.forall_mem_cons] at h
    rw [List.mapM_cons, List.flatMap_cons]
    exact h.1.both (ih h.2)

end

end HostSheet
