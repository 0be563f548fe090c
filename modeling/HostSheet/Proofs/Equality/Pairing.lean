import Mathlib.Data.Multiset.ZeroCons
import HostSheet.Proofs.Result
import HostSheet.Value.Equality

/-!
# Pairing off

The entries of two maps are paired by first fit: each entry in turn takes the first one that equals
it and is still free. A choice made too early would be regretted if equality were any relation. It
never is, because equality is symmetric and transitive: whatever equals the entry that was taken
equals the one that was left as well. So first fit finds a pairing of all entries whenever there is
one.

Symmetry and transitivity are asked for only at the elements of one list, so that the results can be
used while these laws are still being proved for larger values.
-/

namespace HostSheet

variable {α : Type}

-- ---------------------------------------------------------------------------
-- Taking the first
-- ---------------------------------------------------------------------------

theorem takeFirst?_some {p : α → Bool} {as rest : List α} (h : takeFirst? p as = some rest) :
    ∃ a, p a = true ∧ (as : Multiset α) = a ::ₘ ↑rest := by
  induction as generalizing rest with
  | nil => cases h
  | cons a as ih =>
    rw [takeFirst?] at h
    split at h
    · cases h
      exact ⟨a, ‹_›, (Multiset.cons_coe a as).symm⟩
    · obtain ⟨rest, hrest, rfl⟩ := Option.map_eq_some_iff.1 h
      obtain ⟨b, hb, has⟩ := ih hrest
      refine ⟨b, hb, ?_⟩
      rw [← Multiset.cons_coe, ← Multiset.cons_coe, has, Multiset.cons_swap]

theorem takeFirst?_none {p : α → Bool} {as : List α} (h : takeFirst? p as = none) :
    ∀ a ∈ as, p a = false := by
  induction as with
  | nil => simp
  | cons a as ih =>
    rw [takeFirst?] at h
    split at h
    · cases h
    · exact List.forall_mem_cons.2 ⟨Bool.eq_false_iff.2 ‹_›, ih (Option.map_eq_none_iff.1 h)⟩

-- ---------------------------------------------------------------------------
-- First fit
-- ---------------------------------------------------------------------------

def pairOff (p : α → α → Bool) : List α → List α → Bool
  | [], others => others.isEmpty
  | a :: as, others =>
    match takeFirst? (p a) others with
    | some others => pairOff p as others
    | none => false

variable {p : α → α → Bool} {as bs cs : List α}

theorem rel_of_pairOff (h : pairOff p as bs = true) :
    Multiset.Rel (fun a b => p a b = true) as bs := by
  induction as generalizing bs with
  | nil =>
    obtain rfl := List.isEmpty_iff.1 h
    exact .zero
  | cons a as ih =>
    rw [pairOff] at h
    split at h
    · rename_i rest hrest
      obtain ⟨b, hb, hbs⟩ := takeFirst?_some hrest
      rw [hbs, ← Multiset.cons_coe]
      exact .cons hb (ih h)
    · cases h

/-- First fit finds a pairing if what fits two elements fits all that one of them fits. -/
theorem pairOff_of_rel
    (exchange : ∀ a ∈ as, ∀ a' ∈ as, ∀ b ∈ bs, ∀ b' ∈ bs,
      p a b = true → p a b' = true → p a' b = true → p a' b' = true)
    (h : Multiset.Rel (fun a b => p a b = true) as bs) : pairOff p as bs = true := by
  induction as generalizing bs with
  | nil =>
    rw [Multiset.coe_nil, Multiset.rel_zero_left, Multiset.coe_eq_zero] at h
    exact List.isEmpty_iff.2 h
  | cons a as ih =>
    rw [← Multiset.cons_coe, Multiset.rel_cons_left] at h
    obtain ⟨b, others, hb, hothers, hbs⟩ := h
    have mem : b ∈ bs := by
      rw [← Multiset.mem_coe, hbs]
      exact Multiset.mem_cons_self b others
    cases htake : takeFirst? (p a) bs with
    | none => simp [takeFirst?_none htake b mem] at hb
    | some rest =>
      obtain ⟨taken, htaken, hbs'⟩ := takeFirst?_some htake
      have sub : ∀ c ∈ rest, c ∈ bs := fun c hc => by
        rw [← Multiset.mem_coe, hbs']
        exact Multiset.mem_cons_of_mem hc
      have taken_mem : taken ∈ bs := by
        rw [← Multiset.mem_coe, hbs']
        exact Multiset.mem_cons_self taken _
      rw [pairOff, htake]
      refine ih (fun x hx y hy c hc d hd => exchange x (.tail a hx) y (.tail a hy) c (sub c hc) d
        (sub d hd)) ?_
      -- Either the partner itself was taken, or its taker gets what the partner was left for.
      obtain ⟨rfl, rfl⟩ | ⟨-, left, rfl, hrest⟩ := Multiset.cons_eq_cons.1 (hbs.symm.trans hbs')
      · exact hothers
      · obtain ⟨x, xs, hx, hxs, has⟩ := Multiset.rel_cons_right.1 hothers
        have x_mem : x ∈ as := by
          rw [← Multiset.mem_coe, has]
          exact Multiset.mem_cons_self x xs
        rw [hrest, has]
        refine .cons ?_ hxs
        exact exchange a (.head _) x (.tail a x_mem) taken taken_mem b mem htaken hb hx

theorem rel_of_forall₂ {β : Type} {R : α → β → Prop} {bs : List β} (h : List.Forall₂ R as bs) :
    Multiset.Rel R (as : Multiset α) bs := by
  induction h with
  | nil => exact .zero
  | cons hab _ ih => exact .cons hab ih

theorem rel_trans_of_forall_mem {β γ : Type} {R : α → β → Prop} {S : β → γ → Prop}
    {T : α → γ → Prop} {s : Multiset α} {t : Multiset β} {u : Multiset γ}
    (hR : Multiset.Rel R s t) (hS : Multiset.Rel S t u)
    (h : ∀ a ∈ s, ∀ b c, R a b → S b c → T a c) : Multiset.Rel T s u := by
  induction hR generalizing u with
  | zero =>
    rw [Multiset.rel_zero_left.1 hS]
    exact .zero
  | @cons a b s t hab _ ih =>
    obtain ⟨c, rest, hbc, hrest, rfl⟩ := Multiset.rel_cons_left.1 hS
    refine .cons (h a (Multiset.mem_cons_self a s) b c hab hbc) (ih hrest fun x hx => ?_)
    exact h x (Multiset.mem_cons_of_mem hx)

-- ---------------------------------------------------------------------------
-- Symmetry and transitivity at an element
-- ---------------------------------------------------------------------------

/-- The test is symmetric and transitive wherever `a` is compared first. -/
structure PartialEquivAt (p : α → α → Bool) (a : α) : Prop where
  comm : ∀ b, p a b = p b a
  trans : ∀ b c, p a b = true → p b c = true → p a c = true

def entryFits (p : α → α → Bool) (entry other : α × α) : Bool :=
  p entry.1 other.1 && p entry.2 other.2

theorem PartialEquivAt.entry {entry : α × α} (hkey : PartialEquivAt p entry.1)
    (hvalue : PartialEquivAt p entry.2) : PartialEquivAt (entryFits p) entry where
  comm other := by rw [entryFits, entryFits, hkey.comm, hvalue.comm]
  trans b c hb hc := by
    simp only [entryFits, Bool.and_eq_true] at hb hc ⊢
    exact ⟨hkey.trans _ _ hb.1 hc.1, hvalue.trans _ _ hb.2 hc.2⟩

section
variable (h : ∀ a ∈ as, PartialEquivAt p a)
include h

theorem forall₂_comm :
    List.Forall₂ (fun a b => p a b = true) as bs ↔
      List.Forall₂ (fun a b => p a b = true) bs as := by
  have flipped : ∀ a ∈ as, ∀ b, p a b = true ↔ p b a = true := fun a ha b => by
    rw [(h a ha).comm]
  constructor
  · intro hab
    exact List.Forall₂.flip (forall₂_of_forall_mem (fun a ha b => (flipped a ha b).1) hab)
  · intro hba
    exact forall₂_of_forall_mem (fun a ha b => (flipped a ha b).2) (List.Forall₂.flip hba)

theorem forall₂_trans (hab : List.Forall₂ (fun a b => p a b = true) as bs)
    (hbc : List.Forall₂ (fun b c => p b c = true) bs cs) :
    List.Forall₂ (fun a c => p a c = true) as cs :=
  forall₂_trans_of_forall_mem hab hbc fun a ha b c => (h a ha).trans b c

theorem pairOff_iff :
    pairOff p as bs = true ↔ Multiset.Rel (fun a b => p a b = true) as bs := by
  refine ⟨rel_of_pairOff, pairOff_of_rel fun a ha a' ha' b _ b' _ hb hb' hx => ?_⟩
  have back : p a' a = true := (h a' ha').trans b a hx ((h a ha).comm b ▸ hb)
  exact (h a' ha').trans a b' back hb'

theorem pairOff_comm : pairOff p as bs = pairOff p bs as := by
  have flipped : Multiset.Rel (fun a b => p a b = true) (as : Multiset α) bs ↔
      Multiset.Rel (fun a b => p a b = true) (bs : Multiset α) as := by
    rw [← Multiset.rel_flip]
    exact ⟨fun hr => hr.mono fun b _ a ha hab => ((h a ha).comm b).symm.trans hab,
      fun hr => hr.mono fun b _ a ha hba => ((h a ha).comm b).trans hba⟩
  rw [Bool.eq_iff_iff, pairOff_iff h, flipped]
  refine ⟨pairOff_of_rel fun b _ b' _ a ha a' ha' hb hb' hx => ?_, rel_of_pairOff⟩
  -- The other list comes first here, so each comparison is turned round before it is chained.
  have hab : p a b = true := (h a ha).comm b ▸ hb
  have hab' : p a b' = true := (h a ha).comm b' ▸ hx
  have back : p a' a = true := (h a' ha').trans b a ((h a' ha').comm b ▸ hb') hb
  exact (h a' ha').comm b' ▸ (h a' ha').trans a b' back hab'

theorem pairOff_trans (hab : pairOff p as bs = true) (hbc : pairOff p bs cs = true) :
    pairOff p as cs = true :=
  (pairOff_iff h).2 (rel_trans_of_forall_mem (rel_of_pairOff hab) (rel_of_pairOff hbc)
    fun a ha b c => (h a (Multiset.mem_coe.1 ha)).trans b c)

theorem pairOff_self_iff : pairOff p as as = true ↔ ∀ a ∈ as, p a a = true := by
  rw [pairOff_iff h]
  constructor
  · intro hr a ha
    obtain ⟨b, -, hab⟩ := Multiset.exists_mem_of_rel_of_mem hr (Multiset.mem_coe.2 ha)
    exact (h a ha).trans b a hab ((h a ha).comm b ▸ hab)
  · exact fun hself => Multiset.rel_refl_of_refl_on hself

end

end HostSheet
