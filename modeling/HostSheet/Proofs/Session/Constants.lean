import HostSheet.Proofs.Conversion.Conformance
import HostSheet.Proofs.Conversion.Encoding
import HostSheet.Proofs.Sheet.Levels
import HostSheet.Session.Evaluation

/-!
# Expressions without calls

An expression that calls nothing has one value, whatever is registered. The value has the levels of
the expression and the leaves of its literals, so that it always decodes; whether it can be handed
back is a question of its levels alone.
-/

namespace HostSheet

-- ---------------------------------------------------------------------------
-- Constants
-- ---------------------------------------------------------------------------

namespace Expr

variable {p : Type}

mutual

def constant : Expr p → Value
  | .literal value => value
  | .list items separator => .list (constantItems items) separator
  | .map entries => .map (constantEntries entries)
  | .call .. => .null

def constantItems : List (Expr p) → List Value
  | [] => []
  | item :: items => item.constant :: constantItems items

def constantEntries : List (Expr p × Expr p) → List (Value × Value)
  | [] => []
  | (key, value) :: entries => (key.constant, value.constant) :: constantEntries entries

end

theorem constantItems_eq (items : List (Expr p)) : constantItems items = items.map constant := by
  induction items with
  | nil => rfl
  | cons item items ih => rw [constantItems, ih, List.map_cons]

theorem constantEntries_eq (entries : List (Expr p × Expr p)) :
    constantEntries entries = entries.map fun entry => (entry.1.constant, entry.2.constant) := by
  induction entries with
  | nil => rfl
  | cons entry entries ih => rw [constantEntries, ih, List.map_cons]

theorem leaves_constant {e : Expr p} (h : e.CallFree) :
    e.constant.leaves = e.literals.flatMap Value.leaves := by
  induction e using treeInduction with
  | literal value => rw [constant, literals, List.flatMap_singleton]
  | list items separator ih =>
    rw [callFree_list] at h
    rw [constant, literals, Value.leaves_list, constantItems_eq, itemsLiterals_eq,
      List.flatMap_map, List.flatMap_assoc]
    exact List.flatMap_congr fun item hi => ih item hi (h item hi)
  | map entries ih =>
    rw [callFree_map] at h
    rw [constant, literals, Value.leaves_map, constantEntries_eq, entriesLiterals_eq,
      List.flatMap_map, List.flatMap_assoc]
    refine List.flatMap_congr fun entry he => ?_
    rw [(ih entry he).1 (h entry he).1, (ih entry he).2 (h entry he).2, List.flatMap_append]
  | call name args place => exact absurd h not_callFree_call

theorem depth_constant {e : Expr p} (h : e.CallFree)
    (hlit : ∀ value ∈ e.literals, value.depth = 0) : e.constant.depth = e.height := by
  induction e using treeInduction with
  | literal value => exact hlit value (List.mem_singleton_self value)
  | list items separator ih =>
    rw [callFree_list] at h
    rw [literals] at hlit
    rw [constant, height, Value.depth]
    induction items with
    | nil => rfl
    | cons item items rest =>
      rw [itemsLiterals, List.forall_mem_append] at hlit
      rw [List.forall_mem_cons] at ih h
      rw [constantItems, Value.itemsDepth, itemsHeight, ih.1 h.1 hlit.1, rest ih.2 h.2 hlit.2]
  | map entries ih =>
    rw [callFree_map] at h
    rw [literals] at hlit
    rw [constant, height, Value.depth]
    induction entries with
    | nil => rfl
    | cons entry entries rest =>
      rw [entriesLiterals, List.forall_mem_append, List.forall_mem_append] at hlit
      rw [List.forall_mem_cons] at ih h
      rw [constantEntries, Value.entriesDepth, entriesHeight, ih.1.1 h.1.1 hlit.1.1,
        ih.1.2 h.1.2 hlit.1.2, rest ih.2 h.2 hlit.2]
  | call name args place => exact absurd h not_callFree_call

end Expr

-- ---------------------------------------------------------------------------
-- Evaluation
-- ---------------------------------------------------------------------------

namespace Setting

variable {σ : Type} {setting : Setting}

theorem evalItems_of_pure {items : List (Expr Location)}
    (h : ∀ item ∈ items, (setting.evalExpr item : EvalM σ Value) = pure item.constant) :
    (setting.evalItems items : EvalM σ (List Value)) = pure (Expr.constantItems items) := by
  induction items with
  | nil => rfl
  | cons item items ih =>
    rw [List.forall_mem_cons] at h
    rw [evalItems, h.1, pure_bind, ih h.2, pure_bind, Expr.constantItems]

theorem evalEntries_of_pure {entries : List (Expr Location × Expr Location)}
    (h : ∀ entry ∈ entries, (setting.evalExpr entry.1 : EvalM σ Value) = pure entry.1.constant ∧
      (setting.evalExpr entry.2 : EvalM σ Value) = pure entry.2.constant) :
    (setting.evalEntries entries : EvalM σ (List (Value × Value))) =
      pure (Expr.constantEntries entries) := by
  induction entries with
  | nil => rfl
  | cons entry entries ih =>
    rw [List.forall_mem_cons] at h
    rw [evalEntries, h.1.1, pure_bind, h.1.2, pure_bind, ih h.2, pure_bind, Expr.constantEntries]

/-- Without calls there is one value, whatever is registered, and nothing is changed. -/
theorem evalExpr_of_callFree {e : Expr Location} (h : e.CallFree) :
    (setting.evalExpr e : EvalM σ Value) = pure e.constant := by
  induction e using Expr.treeInduction with
  | literal value => rfl
  | list items separator ih =>
    rw [Expr.callFree_list] at h
    rw [evalExpr, evalItems_of_pure fun item hi => ih item hi (h item hi), pure_bind,
      Expr.constant]
  | map entries ih =>
    rw [Expr.callFree_map] at h
    rw [evalExpr, evalEntries_of_pure fun entry he =>
      ⟨(ih entry he).1 (h entry he).1, (ih entry he).2 (h entry he).2⟩, pure_bind, Expr.constant]
  | call name args place => exact absurd h Expr.not_callFree_call

end Setting

end HostSheet
