import HostSheet.Proofs.Sheet.Nodes
import HostSheet.Session.Evaluation
import Mathlib.Control.Monad.Basic

/-!
# Blocks written into slots

A rule can be evaluated by writing into one growing array: its own block is put into the next free
slot, nested rules go behind it, and the declarations that follow still go into the slot that was
kept. No other slot than a written one is ever asked for, and what is in the array at the end are
the blocks of the rule.
-/

namespace HostSheet

variable {σ : Type}

def Block.writeTo (blocks : Array Block) (slot : Nat) (declaration : String × String) :
    Option (Array Block) :=
  if h : slot < blocks.size then
    some (blocks.set slot
      { blocks[slot] with declarations := blocks[slot].declarations ++ [declaration] })
  else none

namespace Setting

mutual

/-- Writes the blocks of a rule behind the blocks so far. There is no result if a slot is out of
range. -/
def writeRule (setting : Setting) (parents : List String) :
    Rule Location → Array Block → EvalM σ (Option (Array Block))
  | .mk selectors items _, blocks =>
    let selectors := resolveSelectors parents selectors
    setting.writeItems selectors blocks.size items (blocks.push ⟨selectors, []⟩)

def writeItems (setting : Setting) (selectors : List String) (slot : Nat) :
    List (Item Location) → Array Block → EvalM σ (Option (Array Block))
  | [], blocks => return some blocks
  | .declaration d :: items, blocks => do
    match ← setting.evalDeclaration d with
    | none => setting.writeItems selectors slot items blocks
    | some declaration =>
      match Block.writeTo blocks slot declaration with
      | some blocks => setting.writeItems selectors slot items blocks
      | none => return none
  | .rule r :: items, blocks => do
    match ← setting.writeRule selectors r blocks with
    | some blocks => setting.writeItems selectors slot items blocks
    | none => return none

end

def writeSheet (setting : Setting) :
    Sheet Location → Array Block → EvalM σ (Option (Array Block))
  | [], blocks => return some blocks
  | rule :: rules, blocks => do
    match ← setting.writeRule [] rule blocks with
    | some blocks => setting.writeSheet rules blocks
    | none => return none

end Setting

-- ---------------------------------------------------------------------------
-- One slot
-- ---------------------------------------------------------------------------

def Block.extended (blocks : Array Block) (slot : Nat) (declarations : List (String × String))
    (more : List Block) : Array Block :=
  blocks.modify slot (fun b => { b with declarations := b.declarations ++ declarations }) ++
    more.toArray

namespace Block

variable {blocks : Array Block} {slot : Nat}

theorem writeTo_eq (h : slot < blocks.size) (declaration : String × String) :
    writeTo blocks slot declaration = some (extended blocks slot [declaration] []) := by
  rw [writeTo, dif_pos h, extended, Option.some.injEq]
  refine Array.ext (by simp) fun i hi hi' => ?_
  by_cases hslot : slot = i <;> simp [Array.getElem_set, Array.getElem_modify, hslot]

theorem extended_nil (blocks : Array Block) (slot : Nat) (more : List Block) :
    extended blocks slot [] more = blocks ++ more.toArray := by
  have hsame : blocks.modify slot (fun b => { b with declarations := b.declarations ++ [] }) =
      blocks := by
    refine Array.ext (by simp) fun i hi hi' => ?_
    simp [Array.getElem_modify]
  rw [extended, hsame]

theorem extended_extended (h : slot < blocks.size) (first second : List (String × String))
    (more others : List Block) :
    extended (extended blocks slot first more) slot second others =
      extended blocks slot (first ++ second) (more ++ others) := by
  refine Array.ext_getElem? fun i => ?_
  simp only [extended, Array.getElem?_append, Array.getElem?_modify, Array.size_modify,
    Array.size_append]
  by_cases hi : i < blocks.size
  · have hi' : i < blocks.size + more.length := by omega
    by_cases hslot : slot = i <;> simp [hi, hi', hslot]
  · have hslot : slot ≠ i := by omega
    have hmore : i < blocks.size + more.length ↔ i - blocks.size < more.length := by omega
    simp [hi, hslot, List.getElem?_append, hmore, Nat.sub_sub]

theorem extended_push (selectors : List String) (declarations : List (String × String))
    (more : List Block) :
    extended (blocks.push ⟨selectors, []⟩) blocks.size declarations more =
      blocks ++ (⟨selectors, declarations⟩ :: more : List Block).toArray := by
  refine Array.ext_getElem? fun i => ?_
  simp only [extended, Array.getElem?_append, Array.getElem?_modify, Array.size_modify,
    Array.size_push, Array.getElem?_push, List.getElem?_toArray]
  rcases Nat.lt_trichotomy i blocks.size with hi | rfl | hi
  · have hne : blocks.size ≠ i := by omega
    simp [hi, hne, Ne.symm hne, Nat.lt_succ_of_lt hi]
  · simp
  · obtain ⟨k, rfl⟩ := Nat.exists_eq_add_of_lt hi
    have hbehind : blocks.size + k + 1 - blocks.size = k + 1 := by omega
    have hrest : blocks.size + k + 1 - (blocks.size + 1) = k := by omega
    have hout : ¬ blocks.size + k < blocks.size := by omega
    have hout' : ¬ blocks.size + k + 1 < blocks.size := by omega
    simp [hbehind, hrest, hout, hout']

theorem size_extended (declarations : List (String × String)) (more : List Block) :
    (extended blocks slot declarations more).size = blocks.size + more.length := by
  simp [extended]

end Block

namespace Setting

variable {setting : Setting}

theorem writeItems_eq {selectors : List String} {items : List (Item Location)}
    (h : ∀ r, Item.rule r ∈ items → ∀ parents (blocks : Array Block),
      setting.writeRule (σ := σ) parents r blocks =
        (fun more => some (blocks ++ more.toArray)) <$> setting.evalRule parents r)
    {slot : Nat} {blocks : Array Block} (hslot : slot < blocks.size) :
    setting.writeItems (σ := σ) selectors slot items blocks =
      (fun (declarations, more) => some (Block.extended blocks slot declarations more)) <$>
        setting.evalBlock selectors items := by
  induction items generalizing blocks with
  | nil => simp [writeItems, evalBlock, Block.extended_nil]
  | cons item items ih =>
    have hitems {blocks : Array Block} (hslot : slot < blocks.size) :=
      ih (fun r hr => h r (List.mem_cons_of_mem _ hr)) hslot
    cases item with
    | declaration d =>
      rw [writeItems, evalBlock, map_bind]
      refine congrArg (_ >>= ·) (funext fun declaration => ?_)
      rw [map_bind]
      cases declaration with
      | none =>
        rw [hitems hslot]
        simp
      | some declaration =>
        simp only [Block.writeTo_eq hslot]
        rw [hitems (by simpa [Block.size_extended] using hslot)]
        simp [Block.extended_extended hslot]
    | rule r =>
      rw [writeItems, evalBlock, h r List.mem_cons_self, map_bind, bind_map_left]
      refine congrArg (_ >>= ·) (funext fun more => ?_)
      simp only [← Block.extended_nil blocks slot]
      rw [hitems (by simp [Block.size_extended]; omega)]
      simp [Block.extended_extended hslot]

theorem writeRule_eq (parents : List String) (rule : Rule Location) (blocks : Array Block) :
    setting.writeRule (σ := σ) parents rule blocks =
      (fun more => some (blocks ++ more.toArray)) <$> setting.evalRule parents rule := by
  induction rule using Rule.treeInduction generalizing parents blocks with
  | mk selectors items place ih =>
    rw [writeRule, evalRule, writeItems_eq ih (by simp), map_bind, ← bind_pure_comp]
    refine congrArg (_ >>= ·) (funext fun (declarations, more) => ?_)
    simp only [Block.extended_push, map_pure]

/-- Writing a sheet into an array ends as evaluating it does; whatever fails, no slot is ever out of
range. -/
theorem writeSheet_eq (sheet : Sheet Location) (blocks : Array Block) :
    setting.writeSheet (σ := σ) sheet blocks =
      (fun more => some (blocks ++ more.toArray)) <$> setting.evalSheet sheet := by
  induction sheet generalizing blocks with
  | nil => simp [writeSheet, evalSheet]
  | cons rule rules ih =>
    rw [writeSheet, evalSheet, writeRule_eq, map_bind, bind_map_left]
    refine congrArg (_ >>= ·) (funext fun more => ?_)
    simp only [ih]
    simp

end Setting

end HostSheet
