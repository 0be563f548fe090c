import HostSheet.Proofs.Css.Blanks

/-!
# What decides about printing

Whether a value can be printed, and whether it is blank, depends on its lists and on what sort of
thing is reached in them. Neither the texts of its strings nor the formatter has a say.
-/

namespace HostSheet

-- ---------------------------------------------------------------------------
-- Values
-- ---------------------------------------------------------------------------

namespace Value

mutual

/-- The value without the texts of its strings and the entries of its maps. -/
def skeleton : Value → Value
  | .string _ quoted => .string "" quoted
  | .list items separator => .list (itemsSkeleton items) separator
  | .map _ => .map []
  | value => value

def itemsSkeleton : List Value → List Value
  | [] => []
  | item :: items => item.skeleton :: itemsSkeleton items

end

variable {v : Value}

theorem itemsSkeleton_eq (items : List Value) : itemsSkeleton items = items.map skeleton := by
  induction items with
  | nil => rfl
  | cons item items ih => rw [itemsSkeleton, ih, List.map_cons]

theorem isVoid_skeleton (v : Value) : v.skeleton.isVoid = v.isVoid := by
  cases v with
  | list items separator => cases items <;> rfl
  | _ => rfl

theorem isUnprintable_skeleton (v : Value) : v.skeleton.isUnprintable = v.isUnprintable := by
  cases v <;> rfl

theorem skeleton_eq_empty :
    (∃ separator, v.skeleton = list [] separator) ↔ ∃ separator, v = list [] separator := by
  cases v with
  | list items separator => cases items <;> simp [skeleton, itemsSkeleton]
  | _ => simp [skeleton]

theorem reached_skeleton (v : Value) : v.skeleton.reached = v.reached.map skeleton := by
  induction v using treeInduction with
  | list items separator ih =>
    cases items with
    | nil => rfl
    | cons item items =>
      rw [skeleton, itemsSkeleton_eq, reached_list (by simp), reached_list (by simp),
        List.flatMap_map, List.map_flatMap]
      exact List.flatMap_congr ih
  | map entries => rfl
  | leaf value hvalue => cases value <;> first | rfl | cases hvalue

end Value

-- ---------------------------------------------------------------------------
-- Printing
-- ---------------------------------------------------------------------------

/-- The outcome of a printing with its text emptied, and no matter why it failed. -/
def wordless {α : Type} (emptied : α → α) (text : Except EmitError α) : Except EmitError α :=
  (text.map emptied).mapError fun _ => .errorValue ""

theorem wordless_eq_of_fails {x y : Except EmitError String} (h : Fails x ↔ Fails y) :
    wordless (fun _ => "") x = wordless (fun _ => "") y := by
  cases x <;> cases y <;> simp_all [Fails, wordless, Except.map, Except.mapError]

theorem wordless_eq {x y : Except EmitError (Option String)} (hfails : Fails x ↔ Fails y)
    (hnone : x = .ok none ↔ y = .ok none) :
    wordless (Option.map fun _ => "") x = wordless (Option.map fun _ => "") y := by
  rcases x with e | _ | text <;> rcases y with e' | _ | text' <;>
    simp_all [Fails, wordless, Except.map, Except.mapError]

namespace Formatter

variable {f g : Formatter} {v w : Value}

theorem fails_value_skeleton : Fails (f.value v.skeleton) ↔ Fails (g.value v) := by
  simp only [fails_value, Value.skeleton_eq_empty, Value.reached_skeleton, List.mem_map,
    exists_exists_and_eq_and, Value.isUnprintable_skeleton]

theorem value_skeleton_none : f.value v.skeleton = .ok none ↔ g.value v = .ok none := by
  simp only [value_none, Value.skeleton_eq_empty, Value.reached_skeleton, List.forall_mem_map,
    Value.isVoid_skeleton]

theorem fails_value_congr (h : v.skeleton = w.skeleton) :
    Fails (f.value v) ↔ Fails (g.value w) := by
  rw [← fails_value_skeleton (f := f), h, fails_value_skeleton]

/-- Values with the same skeleton are printed alike, each by any formatter: both fail, both are left
out, or both have a text. -/
theorem wordless_value (f g : Formatter) (h : v.skeleton = w.skeleton) :
    wordless (Option.map fun _ => "") (f.value v) =
      wordless (Option.map fun _ => "") (g.value w) := by
  refine wordless_eq (fails_value_congr h) ?_
  rw [← value_skeleton_none (f := f), h, value_skeleton_none]

end Formatter

end HostSheet
