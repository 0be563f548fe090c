import Mathlib.Data.List.Forall2

/-!
# Successes

What the success of a computation that may fail says about its parts. A pass over a list succeeds
exactly if it succeeds item by item, so its success is a relation between the two lists.
-/

namespace HostSheet

variable {ε α β : Type}

theorem bind_ok {x : Except ε α} {f : α → Except ε β} {b : β} :
    x >>= f = .ok b ↔ ∃ a, x = .ok a ∧ f a = .ok b := by
  cases x <;> simp [bind, Except.bind]

theorem isOk_iff {x : Except ε α} : x.isOk = true ↔ ∃ a, x = .ok a := by
  cases x <;> simp [Except.isOk, Except.toBool]

theorem ok_bind (a : α) (f : α → Except ε β) : (.ok a : Except ε α) >>= f = f a := rfl

theorem error_bind (e : ε) (f : α → Except ε β) :
    (.error e : Except ε α) >>= f = .error e := rfl

theorem map_error {x : Except ε α} {f : α → β} {e : ε} : x.map f = .error e ↔ x = .error e := by
  cases x <;> simp [Except.map]

theorem pure_ok {a b : α} : (pure a : Except ε α) = .ok b ↔ a = b := by
  simp [pure, Except.pure]

@[simp] theorem throw_ok {e : ε} {a : α} : (throw e : Except ε α) = .ok a ↔ False := by
  simp [throw, throwThe, MonadExceptOf.throw]

theorem cons_ok {x : Except ε β} {y : Except ε (List β)} {bs : List β} :
    (do let b ← x; return b :: (← y)) = .ok bs ↔
      ∃ b rest, x = .ok b ∧ y = .ok rest ∧ bs = b :: rest := by
  simp only [bind_ok, pure_ok]
  constructor
  · rintro ⟨b, hx, rest, hy, rfl⟩
    exact ⟨b, rest, hx, hy, rfl⟩
  · rintro ⟨b, rest, hx, hy, rfl⟩
    exact ⟨b, hx, rest, hy, rfl⟩

theorem mapM_ok {f : α → Except ε β} {as : List α} {bs : List β} :
    as.mapM f = .ok bs ↔ List.Forall₂ (fun a b => f a = .ok b) as bs := by
  induction as generalizing bs with
  | nil =>
    simp only [List.mapM_nil, pure_ok, List.forall₂_nil_left_iff]
    exact eq_comm
  | cons a as ih =>
    simp only [List.mapM_cons, cons_ok, List.forall₂_cons_left_iff, ih]

theorem pair_ok {x : Except ε α} {y : Except ε β} {p : α × β} :
    (do return (← x, ← y)) = (.ok p : Except ε (α × β)) ↔ x = .ok p.1 ∧ y = .ok p.2 := by
  simp only [bind_ok, pure_ok]
  constructor
  · rintro ⟨_, hx, _, hy, rfl⟩
    exact ⟨hx, hy⟩
  · rintro ⟨hx, hy⟩
    exact ⟨_, hx, _, hy, rfl⟩

theorem exists_pair_iff {P : α → Prop} {Q : β → Prop} :
    (∃ p : α × β, P p.1 ∧ Q p.2) ↔ (∃ a, P a) ∧ ∃ b, Q b := by
  simp only [Prod.exists, exists_and_exists_comm]

theorem exists_forall₂_iff {R : α → β → Prop} {as : List α} :
    (∃ bs, List.Forall₂ R as bs) ↔ ∀ a ∈ as, ∃ b, R a b := by
  induction as with
  | nil => simp
  | cons a as ih =>
    simp only [List.forall₂_cons_left_iff, List.forall_mem_cons, ← ih]
    constructor
    · rintro ⟨_, b, bs, hb, hbs, -⟩
      exact ⟨⟨b, hb⟩, bs, hbs⟩
    · rintro ⟨⟨b, hb⟩, bs, hbs⟩
      exact ⟨_, b, bs, hb, hbs, rfl⟩

section
variable {R S : α → β → Prop} {as : List α} {bs : List β}

/-- What holds of partners may use what is known about each element on the left. -/
theorem forall₂_of_forall_mem (h : ∀ a ∈ as, ∀ b, R a b → S a b) (hR : List.Forall₂ R as bs) :
    List.Forall₂ S as bs :=
  (List.forall₂_and_left _ _ |>.2 ⟨h, hR⟩).imp fun _ b both => both.1 b both.2

theorem forall₂_trans_of_forall_mem {γ : Type} {Q : β → γ → Prop} {T : α → γ → Prop} {cs : List γ}
    (hR : List.Forall₂ R as bs) (hQ : List.Forall₂ Q bs cs)
    (h : ∀ a ∈ as, ∀ b c, R a b → Q b c → T a c) : List.Forall₂ T as cs := by
  induction hR generalizing cs with
  | nil =>
    cases hQ
    exact .nil
  | cons hab _ ih =>
    cases hQ with
    | cons hbc rest =>
      rw [List.forall_mem_cons] at h
      exact .cons (h.1 _ _ hab hbc) (ih rest h.2)

theorem forall_mem_of_forall₂ {P : β → Prop} (h : ∀ a b, R a b → P b)
    (hR : List.Forall₂ R as bs) : ∀ b ∈ bs, P b := by
  induction hR with
  | nil => simp
  | cons head _ ih => exact List.forall_mem_cons.2 ⟨h _ _ head, ih⟩

end

end HostSheet
