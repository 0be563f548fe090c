import HostSheet.Session.Evaluation
import Mathlib.Algebra.BigOperators.Group.List.Basic
import Mathlib.Data.List.Induction

/-!
# Selectors down a chain of rules

The selectors of a nested rule are found by resolving the selectors of the rules around it, from the
outermost to its own. They are as many as there are ways to choose one selector from each rule, and
an ampersand is left in them only if there is one at the top.
-/

namespace HostSheet

section
variable {parents own : List String}

theorem resolveSelectors_of_ne_nil (h : parents ≠ []) :
    resolveSelectors parents own =
      parents.flatMap fun parent => own.map (resolveSelector parent) := by
  rw [resolveSelectors, if_neg (by simpa using h)]

theorem resolveSelectors_ne_nil (h : own ≠ []) : resolveSelectors parents own ≠ [] := by
  cases parents with
  | nil => exact h
  | cons parent parents =>
    rw [resolveSelectors_of_ne_nil (List.cons_ne_nil _ _)]
    simp [h]

theorem length_resolveSelectors (h : parents ≠ []) :
    (resolveSelectors parents own).length = parents.length * own.length := by
  rw [resolveSelectors_of_ne_nil h, List.length_flatMap]
  simp

theorem getElem?_resolveSelectors {i j : Nat} {parent selector : String}
    (hparent : parents[i]? = some parent) (hselector : own[j]? = some selector) :
    (resolveSelectors parents own)[i * own.length + j]? =
      some (resolveSelector parent selector) := by
  have hne : parents ≠ [] := by
    rintro rfl
    cases hparent
  have hj : j < own.length := (List.getElem?_eq_some_iff.1 hselector).1
  rw [resolveSelectors_of_ne_nil hne]
  clear hne
  induction parents generalizing i with
  | nil => cases hparent
  | cons first parents ih =>
    rw [List.flatMap_cons]
    cases i with
    | zero =>
      cases hparent
      rw [Nat.zero_mul, Nat.zero_add, List.getElem?_append_left (by simpa using hj),
        List.getElem?_map, hselector]
      rfl
    | succ i =>
      have hskip : (i + 1) * own.length + j =
          (own.map (resolveSelector first)).length + (i * own.length + j) := by
        rw [List.length_map, Nat.succ_mul]
        omega
      rw [hskip, List.getElem?_append_right (Nat.le_add_right _ _), Nat.add_sub_cancel_left]
      exact ih hparent

end

-- ---------------------------------------------------------------------------
-- Ampersands
-- ---------------------------------------------------------------------------

theorem ampersand_not_mem_replaceAmpersands {parent text : List Char} (h : '&' ∉ parent) :
    '&' ∉ replaceAmpersands parent text := by
  induction text with
  | nil => simp [replaceAmpersands]
  | cons c cs ih =>
    rw [replaceAmpersands]
    split
    · simp [h, ih]
    · rename_i hc
      simp [Ne.symm hc, ih]

theorem ampersand_not_mem_resolveSelector {parent : String} (h : '&' ∉ parent.toList)
    (selector : String) : '&' ∉ (resolveSelector parent selector).toList := by
  rw [resolveSelector]
  split
  · rw [String.toList_ofList]
    exact ampersand_not_mem_replaceAmpersands h
  · rename_i hselector
    simp [h, hselector]

theorem ampersand_not_mem_resolveSelectors {parents own : List String} (hne : parents ≠ [])
    (h : ∀ parent ∈ parents, '&' ∉ parent.toList) :
    ∀ selector ∈ resolveSelectors parents own, '&' ∉ selector.toList := by
  intro selector hselector
  rw [resolveSelectors_of_ne_nil hne, List.mem_flatMap] at hselector
  obtain ⟨parent, hparent, hselector⟩ := hselector
  obtain ⟨_, _, rfl⟩ := List.mem_map.1 hselector
  exact ampersand_not_mem_resolveSelector (h parent hparent) _

-- ---------------------------------------------------------------------------
-- Chains
-- ---------------------------------------------------------------------------

/-- The selectors of a rule, from the selectors of the rules around it, the outermost first, and its
own behind them. -/
def chainSelectors (chain : List (List String)) : List String :=
  chain.foldl resolveSelectors []

theorem chainSelectors_concat (chain : List (List String)) (own : List String) :
    chainSelectors (chain ++ [own]) = resolveSelectors (chainSelectors chain) own := by
  rw [chainSelectors, List.foldl_append, List.foldl_cons, List.foldl_nil, ← chainSelectors]

section
variable {chain : List (List String)}

theorem chainSelectors_ne_nil (hne : chain ≠ []) (h : ∀ own ∈ chain, own ≠ []) :
    chainSelectors chain ≠ [] := by
  rcases List.eq_nil_or_concat chain with rfl | ⟨above, own, rfl⟩
  · exact absurd rfl hne
  · rw [List.concat_eq_append, chainSelectors_concat]
    exact resolveSelectors_ne_nil (h own (by simp))

theorem length_chainSelectors (hne : chain ≠ []) (h : ∀ own ∈ chain, own ≠ []) :
    (chainSelectors chain).length = (chain.map List.length).prod := by
  induction chain using List.reverseRecOn with
  | nil => exact absurd rfl hne
  | append_singleton above own ih =>
    rw [chainSelectors_concat, List.map_append, List.prod_append]
    have habove : ∀ own ∈ above, own ≠ [] := fun other hother => h other (by simp [hother])
    by_cases htop : above = []
    · subst htop
      simp [chainSelectors, resolveSelectors]
    · rw [length_resolveSelectors (chainSelectors_ne_nil htop habove), ih htop habove]
      simp

theorem ampersand_not_mem_chainSelectors {top : List String}
    (h : ∀ own ∈ top :: chain, own ≠ []) (htop : ∀ selector ∈ top, '&' ∉ selector.toList) :
    ∀ selector ∈ chainSelectors (top :: chain), '&' ∉ selector.toList := by
  induction chain using List.reverseRecOn with
  | nil => exact htop
  | append_singleton above own ih =>
    have habove : ∀ own ∈ top :: above, own ≠ [] := fun other hother => h other (by
      rw [← List.cons_append, List.mem_append]
      exact .inl hother)
    rw [← List.cons_append, chainSelectors_concat]
    exact ampersand_not_mem_resolveSelectors
      (chainSelectors_ne_nil (List.cons_ne_nil _ _) habove) (ih habove)

end

end HostSheet
