import HostSheet.Proofs.Css.Blanks
import HostSheet.Proofs.Css.Inspecting
import HostSheet.Proofs.Sheet.Nesting
import HostSheet.Session.Evaluation

/-!
# How often calls lie in each other

The evaluator and the printer call themselves for the parts of what they are given. Each is here
taken apart into single steps, which leave open what happens at the parts. As many steps inside one
another as there are levels do the same as the whole, so no call is made any further inside.
-/

namespace HostSheet

-- ---------------------------------------------------------------------------
-- Steps
-- ---------------------------------------------------------------------------

/-- So many steps inside one another come to what `f` does with `a`, whatever a further step would
do. -/
def Unrolled {α β : Type} (step : (α → β) → α → β) (n : Nat) (f : α → β) (a : α) : Prop :=
  ∀ deeper, step^[n] deeper a = f a

/-- It is enough that a step with what fits in the steps that are left does as `f` does. -/
theorem Unrolled.of_step {α β : Type} {step : (α → β) → α → β} {f : α → β} (Fits : Nat → α → Prop)
    (hzero : ∀ a, ¬ Fits 0 a)
    (hstep : ∀ n a g, Fits (n + 1) a → (∀ b, Fits n b → g b = f b) → step g a = f a)
    {n : Nat} {a : α} (h : Fits n a) : Unrolled step n f a := by
  intro deeper
  induction n generalizing a with
  | zero => exact absurd h (hzero a)
  | succ n ih =>
    rw [Function.iterate_succ_apply']
    exact hstep n a _ h fun b => ih

theorem mapM_congr {m : Type → Type} [Monad m] [LawfulMonad m] {α β : Type} {f g : α → m β}
    {as : List α} (h : ∀ a ∈ as, f a = g a) : as.mapM f = as.mapM g := by
  induction as with
  | nil => simp
  | cons a as ih =>
    rw [List.forall_mem_cons] at h
    rw [List.mapM_cons, List.mapM_cons, h.1, ih h.2]

-- ---------------------------------------------------------------------------
-- Printing
-- ---------------------------------------------------------------------------

namespace Formatter

variable (f : Formatter)

def inspectStep (inspect : Value → String) : Value → String
  | .null => "null"
  | .list [] _ => "()"
  | .list (item :: items) separator =>
    String.intercalate separator.text ((item :: items).map fun item =>
      if needsParens item then "(" ++ inspect item ++ ")" else inspect item)
  | .map entries =>
    "(" ++ String.intercalate ", " (entries.map fun entry =>
      inspect entry.1 ++ ": " ++ inspect entry.2) ++ ")"
  | .error message => message
  | .warning message => message
  | value => (f.scalar? value).getD ""

def cssStep (css : Value → Except EmitError (Option String)) (inspect : Value → String) :
    Value → Except EmitError (Option String)
  | .null => .ok none
  | .warning _ => .ok none
  | .list items separator => do
    match (← items.mapM css).filterMap id with
    | [] => return none
    | parts => return some (String.intercalate (f.separator separator) parts)
  | .map entries => .error (.invalidValue (f.inspectStep inspect (.map entries)))
  | .error message => .error (.errorValue message)
  | value => .ok (f.scalar? value)

def printStep (print : Value → Except EmitError (Option String) × String) (v : Value) :
    Except EmitError (Option String) × String :=
  (f.cssStep (fun v => (print v).1) (fun v => (print v).2) v,
    f.inspectStep (fun v => (print v).2) v)

/-- Printing a value has at most so many calls inside one another. -/
def PrintsWithin (n : Nat) (v : Value) : Prop :=
  Unrolled f.printStep n (fun v => (f.css v, f.inspect v)) v

theorem inspectStep_eq {inspect : Value → String} {v : Value}
    (h : ∀ part, part.depth < v.depth → inspect part = f.inspect part) :
    f.inspectStep inspect v = f.inspect v := by
  cases v with
  | list items separator =>
    have hitems : ∀ item ∈ items, inspect item = f.inspect item := fun item hitem =>
      h item (Value.itemsDepth_le.1 (Nat.le_refl _) item hitem)
    cases items with
    | nil => rfl
    | cons item items =>
      rw [inspectStep, Formatter.inspect, inspectItems_eq]
      refine congrArg _ (List.map_congr_left fun part hpart => ?_)
      rw [itemText, hitems part hpart]
  | map entries =>
    have hentries : ∀ entry ∈ entries,
        inspect entry.1 = f.inspect entry.1 ∧ inspect entry.2 = f.inspect entry.2 := by
      intro entry hentry
      obtain ⟨hkey, hvalue⟩ := Value.entriesDepth_le.1 (Nat.le_refl _) entry hentry
      exact ⟨h _ hkey, h _ hvalue⟩
    rw [inspectStep, Formatter.inspect, inspectEntries_eq]
    refine congrArg (fun texts => "(" ++ String.intercalate ", " texts ++ ")")
      (List.map_congr_left fun entry hentry => ?_)
    rw [(hentries entry hentry).1, (hentries entry hentry).2]
  | _ => rfl

theorem cssStep_eq {css : Value → Except EmitError (Option String)} {inspect : Value → String}
    {v : Value}
    (h : ∀ part, part.depth < v.depth → css part = f.css part ∧ inspect part = f.inspect part) :
    f.cssStep css inspect v = f.css v := by
  cases v with
  | list items separator =>
    have hitems : ∀ item ∈ items, css item = f.css item := fun item hitem =>
      (h item (Value.itemsDepth_le.1 (Nat.le_refl _) item hitem)).1
    rw [cssStep, mapM_congr hitems, Formatter.css, cssItems_eq]
    cases items.mapM f.css <;> rfl
  | map entries =>
    rw [cssStep, f.inspectStep_eq fun part hpart => (h part hpart).2, Formatter.css]
  | _ => rfl

theorem printsWithin {n : Nat} {v : Value} (h : v.depth < n) : f.PrintsWithin n v := by
  refine Unrolled.of_step (fun n v => v.depth < n) (fun v => Nat.not_lt_zero _) ?_ h
  intro n v print hv hparts
  have hlt : ∀ part : Value, part.depth < v.depth →
      (print part).1 = f.css part ∧ (print part).2 = f.inspect part := fun part hpart =>
    Prod.ext_iff.1 (hparts part (Nat.lt_of_lt_of_le hpart (Nat.le_of_lt_succ hv)))
  rw [printStep, f.cssStep_eq hlt, f.inspectStep_eq fun part hpart => (hlt part hpart).2]

end Formatter

-- ---------------------------------------------------------------------------
-- Expressions
-- ---------------------------------------------------------------------------

namespace Setting

variable {σ : Type} (setting : Setting)

def exprStep (eval : Expr Location → EvalM σ Value) : Expr Location → EvalM σ Value
  | .literal value => return value
  | .list items separator => do return .list (← items.mapM eval) separator
  | .map entries => do
    return .map (← entries.mapM fun entry => do return (← eval entry.1, ← eval entry.2))
  | .call name args place => do
    let args ← args.mapM eval
    if (← get).registry.contains name then setting.boundCall name args place
    else setting.plainCall name args place

theorem evalItems_eq (items : List (Expr Location)) :
    (setting.evalItems items : EvalM σ (List Value)) = items.mapM setting.evalExpr := by
  induction items with
  | nil => rfl
  | cons item items ih => rw [evalItems, ih, List.mapM_cons]

theorem evalEntries_eq (entries : List (Expr Location × Expr Location)) :
    (setting.evalEntries entries : EvalM σ (List (Value × Value))) =
      entries.mapM fun entry => do
        return (← setting.evalExpr entry.1, ← setting.evalExpr entry.2) := by
  induction entries with
  | nil => rfl
  | cons entry entries ih =>
    rw [evalEntries, ih, List.mapM_cons]
    simp only [bind_assoc, pure_bind]

/-- Evaluating an expression takes a step for each level of it, and one for the literals. -/
theorem unrolled_evalExpr {n : Nat} {e : Expr Location} (h : e.nesting < n) :
    Unrolled (setting.exprStep (σ := σ)) n setting.evalExpr e := by
  refine Unrolled.of_step (fun n e => e.nesting < n) (fun e => Nat.not_lt_zero _) ?_ h
  intro n e eval he hparts
  cases e with
  | literal value => rfl
  | list items separator =>
    have hitems : ∀ item ∈ items, eval item = setting.evalExpr item := fun item hitem =>
      hparts item (Nat.lt_of_lt_of_le (Expr.nesting_lt_list item hitem) (Nat.le_of_lt_succ he))
    rw [exprStep, mapM_congr hitems, evalExpr, evalItems_eq]
  | map entries =>
    have hentries : ∀ entry ∈ entries,
        eval entry.1 = setting.evalExpr entry.1 ∧ eval entry.2 = setting.evalExpr entry.2 := by
      intro entry hentry
      obtain ⟨hkey, hvalue⟩ := Expr.nesting_lt_map entry hentry
      exact ⟨hparts _ (Nat.lt_of_lt_of_le hkey (Nat.le_of_lt_succ he)),
        hparts _ (Nat.lt_of_lt_of_le hvalue (Nat.le_of_lt_succ he))⟩
    rw [exprStep, evalExpr, evalEntries_eq]
    refine congrArg (· >>= _) (mapM_congr fun entry hentry => ?_)
    rw [(hentries entry hentry).1, (hentries entry hentry).2]
  | call name args place =>
    have hargs : ∀ arg ∈ args, eval arg = setting.evalExpr arg := fun arg harg =>
      hparts arg (Nat.lt_of_lt_of_le (Expr.nesting_lt_call arg harg) (Nat.le_of_lt_succ he))
    rw [exprStep, mapM_congr hargs, evalExpr, evalItems_eq]

-- ---------------------------------------------------------------------------
-- Rules
-- ---------------------------------------------------------------------------

def declarationStep (eval : Expr Location → EvalM σ Value) (d : Declaration Location) :
    EvalM σ (Option (String × String)) := do
  let value ← eval d.value
  let text ← setting.printed d.place value
  return text.map fun text => (d.property, text)

section
variable (eval : Expr Location → EvalM σ Value)
  (rule : Rule Location → List String → EvalM σ (List Block))

def blockStep (selectors : List String) :
    List (Item Location) → EvalM σ (List (String × String) × List Block)
  | [] => return ([], [])
  | .declaration d :: items => do
    let declaration ← setting.declarationStep eval d
    let (declarations, nested) ← blockStep selectors items
    return (declaration.toList ++ declarations, nested)
  | .rule r :: items => do
    let blocks ← rule r selectors
    let (declarations, nested) ← blockStep selectors items
    return (declarations, blocks ++ nested)

def ruleStep : Rule Location → List String → EvalM σ (List Block)
  | .mk selectors items _, parents => do
    let selectors := resolveSelectors parents selectors
    let (declarations, nested) ← setting.blockStep eval rule selectors items
    return ⟨selectors, declarations⟩ :: nested

def sheetStep : Sheet Location → EvalM σ (List Block)
  | [] => return []
  | r :: rules => do
    let blocks ← rule r []
    let more ← sheetStep rules
    return blocks ++ more

end

section
variable {setting} {eval : Expr Location → EvalM σ Value}
  {rule : Rule Location → List String → EvalM σ (List Block)}

theorem blockStep_eq (selectors : List String) {items : List (Item Location)}
    (hdeclared : ∀ d, Item.declaration d ∈ items → eval d.value = setting.evalExpr d.value)
    (hnested : ∀ r, Item.rule r ∈ items → rule r = (setting.evalRule · r)) :
    setting.blockStep eval rule selectors items = setting.evalBlock selectors items := by
  induction items with
  | nil => rfl
  | cons item items ih =>
    have hmore := ih (fun d hd => hdeclared d (List.mem_cons_of_mem _ hd))
      fun r hr => hnested r (List.mem_cons_of_mem _ hr)
    cases item with
    | declaration d =>
      rw [blockStep, declarationStep, hdeclared d List.mem_cons_self, hmore, evalBlock,
        evalDeclaration]
    | rule r => rw [blockStep, hnested r List.mem_cons_self, hmore, evalBlock]

theorem unrolled_evalRule {n : Nat} {r : Rule Location}
    (h : ∀ k inner, r.Encloses k inner →
      k < n ∧ ∀ d, Item.declaration d ∈ inner.items → eval d.value = setting.evalExpr d.value) :
    Unrolled (setting.ruleStep eval) n (fun r parents => setting.evalRule parents r) r := by
  refine Unrolled.of_step (fun n r => ∀ k inner, r.Encloses k inner → k < n ∧
    ∀ d, Item.declaration d ∈ inner.items → eval d.value = setting.evalExpr d.value)
    (fun r hr => Nat.not_lt_zero 0 (hr 0 r (.self r)).1) ?_ h
  intro n r rule hr hnested
  have hblock : ∀ selectors, setting.blockStep eval rule selectors r.items =
      setting.evalBlock selectors r.items := by
    refine fun selectors => blockStep_eq selectors (hr 0 r (.self r)).2 fun inner hinner => ?_
    refine hnested inner fun k innermost hk => ?_
    obtain ⟨hlt, hdeclared⟩ := hr (k + 1) innermost (.nested hinner hk)
    exact ⟨Nat.lt_of_succ_lt_succ hlt, hdeclared⟩
  obtain ⟨selectors, items, place⟩ := r
  funext parents
  have hitems := hblock (resolveSelectors parents selectors)
  rw [Rule.items] at hitems
  simp only [ruleStep, hitems, evalRule]

theorem sheetStep_eq {sheet : Sheet Location}
    (h : ∀ r ∈ sheet, rule r = (setting.evalRule · r)) :
    sheetStep rule sheet = setting.evalSheet sheet := by
  induction sheet with
  | nil => rfl
  | cons r rules ih =>
    rw [List.forall_mem_cons] at h
    rw [sheetStep, h.1, ih h.2, evalSheet]

end

/-- The evaluation of the sheet has at most so many calls for rules inside one another, and at most
so many calls for expressions. -/
def EvaluatesWithin (σ : Type) (setting : Setting) (rules exprs : Nat)
    (sheet : Sheet Location) : Prop :=
  ∀ (deeperExpr : Expr Location → EvalM σ Value)
    (deeperRule : Rule Location → List String → EvalM σ (List Block)),
    sheetStep ((setting.ruleStep (setting.exprStep^[exprs] deeperExpr))^[rules] deeperRule) sheet =
      setting.evalSheet sheet

theorem evaluatesWithin {rules exprs : Nat} {sheet : Sheet Location}
    (h : ∀ r ∈ sheet, ∀ k inner, r.Encloses k inner →
      k < rules ∧ ∀ d, Item.declaration d ∈ inner.items → d.value.nesting < exprs) :
    setting.EvaluatesWithin σ rules exprs sheet := by
  intro deeperExpr deeperRule
  refine sheetStep_eq fun r hr => unrolled_evalRule (fun k inner hk => ?_) deeperRule
  obtain ⟨hlt, hdeclared⟩ := h r hr k inner hk
  exact ⟨hlt, fun d hd => setting.unrolled_evalExpr (hdeclared d hd) deeperExpr⟩

end Setting

end HostSheet
