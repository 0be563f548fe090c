import HostSheet.Proofs.Call.History
import HostSheet.Proofs.Sheet.Nodes
import HostSheet.Session.Evaluation

/-!
# The course of an evaluation

The nodes of a sheet are met in their order, and something comes of each: a call to a bound name is
dispatched, any other call is printed, and so is the value of a declaration. The first failure ends
the course. The arguments of a call and the value of a declaration are known from the events that
came right before.
-/

namespace HostSheet

-- ---------------------------------------------------------------------------
-- Events
-- ---------------------------------------------------------------------------

inductive Event where
  /-- A call to a bound function. -/
  | dispatch (name : String) (args : List Value) (place : Location)
      (outcome : Except CallError Value)
  /-- A call to any other name, and its own text. -/
  | plain (name : String) (args : List Value) (place : Location) (text : Except EmitError String)
  /-- A declaration, and the text of its value. -/
  | declare (property : String) (value : Value) (place : Location)
      (text : Except EmitError (Option String))

namespace Event

def failure? : Event → Option CompileError
  | .dispatch _ _ place (.error e) => some ⟨.call e, place⟩
  | .plain _ _ place (.error e) => some ⟨.unprintable e, place⟩
  | .declare _ _ place (.error e) => some ⟨.unprintable e, place⟩
  | _ => none

def warning? : Event → Option RaisedWarning
  | .dispatch _ _ place (.ok (.warning message)) => some ⟨message, place⟩
  | _ => none

/-- The value of a call that did not fail: a warning counts as null, and the text of a plain call is
an unquoted string. -/
def answer : Event → Value
  | .dispatch _ _ _ (.ok (.warning _)) => .null
  | .dispatch _ _ _ (.ok value) => value
  | .plain _ _ _ (.ok text) => .string text false
  | _ => .null

def printed? : Event → Option (String × String)
  | .declare property _ _ (.ok (some text)) => some (property, text)
  | _ => none

end Event

namespace Expr

variable {p : Type}

mutual

/-- The value of an expression whose calls had these events. -/
def fill : Expr p → List Event → Value
  | .literal value, _ => value
  | .list items separator, events => .list (fillItems items events) separator
  | .map entries, events => .map (fillEntries entries events)
  | .call .., events => (events.getLast?.map Event.answer).getD .null

def fillItems : List (Expr p) → List Event → List Value
  | [], _ => []
  | item :: items, events =>
    item.fill (events.take item.nodes.length) :: fillItems items (events.drop item.nodes.length)

def fillEntries : List (Expr p × Expr p) → List Event → List (Value × Value)
  | [], _ => []
  | (key, value) :: entries, events =>
    let others := events.drop key.nodes.length
    (key.fill (events.take key.nodes.length), value.fill (others.take value.nodes.length)) ::
      fillEntries entries (others.drop value.nodes.length)

end

@[simp] theorem length_fillItems (items : List (Expr p)) (events : List Event) :
    (fillItems items events).length = items.length := by
  induction items generalizing events with
  | nil => rfl
  | cons item items ih => simp [fillItems, ih]

end Expr

-- ---------------------------------------------------------------------------
-- Courses
-- ---------------------------------------------------------------------------

/-- The text of a call that no function answers. Blank arguments are left out. -/
def Formatter.plainCall (f : Formatter) (name : String) (args : List Value) :
    Except EmitError String := do
  let texts ← args.mapM f.value
  return name ++ "(" ++ String.intercalate (f.separator .comma) (texts.filterMap id) ++ ")"

namespace Setting

variable {σ : Type}

def meet (setting : Setting) (r : Registry σ) (past : List Event) :
    Node Location → Event × Registry σ
  | .call name args place =>
    let values := Expr.fillItems args (past.rtake (Expr.itemsNodes args).length)
    if r.contains name then
      let (outcome, r) := r.dispatch setting.session name ⟨values⟩
      (.dispatch name values place outcome, r)
    else (.plain name values place (setting.formatter.plainCall name values), r)
  | .declaration d =>
    let value := d.value.fill (past.rtake d.value.nodes.length)
    (.declare d.property value d.place (setting.formatter.value value), r)

/-- What comes of nodes behind these events, up to the first failure, and what it leaves of the
registry. -/
def course (setting : Setting) (r : Registry σ) (past : List Event) :
    List (Node Location) → List Event × Registry σ
  | [] => ([], r)
  | node :: nodes =>
    let (event, r) := setting.meet r past node
    if event.failure?.isSome then ([event], r)
    else
      let (events, r) := setting.course r (past ++ [event]) nodes
      (event :: events, r)

section
variable {setting : Setting} {r : Registry σ} {past : List Event} {node : Node Location}
  {nodes others : List (Node Location)}

theorem course_cons_of_failure {e : CompileError}
    (h : (setting.meet r past node).1.failure? = some e) :
    setting.course r past (node :: nodes) =
      ([(setting.meet r past node).1], (setting.meet r past node).2) := by
  simp [course, h]

theorem course_cons_of_success (h : (setting.meet r past node).1.failure? = none) :
    setting.course r past (node :: nodes) =
      ((setting.meet r past node).1 ::
        (setting.course (setting.meet r past node).2 (past ++ [(setting.meet r past node).1])
          nodes).1,
      (setting.course (setting.meet r past node).2 (past ++ [(setting.meet r past node).1])
        nodes).2) := by
  simp [course, h]

def firstFailure (events : List Event) : Option CompileError :=
  events.findSome? Event.failure?

theorem length_course (h : firstFailure (setting.course r past nodes).1 = none) :
    (setting.course r past nodes).1.length = nodes.length := by
  induction nodes generalizing r past with
  | nil => rfl
  | cons node nodes ih =>
    cases hmeet : (setting.meet r past node).1.failure? with
    | some e' =>
      rw [course_cons_of_failure hmeet] at h
      simp [firstFailure, hmeet] at h
    | none =>
      rw [course_cons_of_success hmeet] at h ⊢
      simp only [firstFailure, List.findSome?_cons, hmeet] at h
      rw [List.length_cons, List.length_cons, ih h]

/-- The course of more nodes ends with the first failure, or goes on behind the events so far. -/
theorem course_append (setting : Setting) (r : Registry σ) (past : List Event)
    (nodes others : List (Node Location)) :
    setting.course r past (nodes ++ others) =
      let first := setting.course r past nodes
      let more := setting.course first.2 (past ++ first.1) others
      if (firstFailure first.1).isSome then first else (first.1 ++ more.1, more.2) := by
  induction nodes generalizing r past with
  | nil => simp [course, firstFailure]
  | cons node nodes ih =>
    rw [List.cons_append]
    cases hmeet : (setting.meet r past node).1.failure? with
    | some e =>
      rw [course_cons_of_failure hmeet, course_cons_of_failure hmeet]
      simp [firstFailure, hmeet]
    | none =>
      rw [course_cons_of_success hmeet, course_cons_of_success hmeet, ih]
      simp only [firstFailure, List.findSome?_cons, hmeet, List.append_assoc, List.cons_append,
        List.nil_append]
      split <;> rfl

theorem course_cut : ∀ event ∈ (setting.course r past nodes).1.dropLast, event.failure? = none := by
  induction nodes generalizing r past with
  | nil => simp [course]
  | cons node nodes ih =>
    cases hmeet : (setting.meet r past node).1.failure? with
    | some e => simp [course_cons_of_failure hmeet]
    | none =>
      rw [course_cons_of_success hmeet]
      intro event h
      cases hmore : (setting.course (setting.meet r past node).2
          (past ++ [(setting.meet r past node).1]) nodes).1 with
      | nil => simp [hmore] at h
      | cons next more =>
        rw [hmore, List.dropLast_cons_cons, List.mem_cons] at h
        obtain rfl | h := h
        · exact hmeet
        · exact ih event (hmore ▸ h)

/-- What holds of no events, and of one event more whenever it holds of the others, holds of a
course. -/
theorem course_elim {motive : Registry σ → List Event → List (Node Location) → List Event →
      Registry σ → Prop}
    (nil : ∀ r past nodes, motive r past nodes [] r)
    (cons : ∀ r past node nodes events r',
      motive (setting.meet r past node).2 (past ++ [(setting.meet r past node).1]) nodes events r' →
      motive r past (node :: nodes) ((setting.meet r past node).1 :: events) r') :
    motive r past nodes (setting.course r past nodes).1 (setting.course r past nodes).2 := by
  induction nodes generalizing r past with
  | nil => exact nil r past []
  | cons node nodes ih =>
    cases hmeet : (setting.meet r past node).1.failure? with
    | some e =>
      -- The nodes behind a failure are not met.
      rw [course_cons_of_failure hmeet]
      exact cons r past node nodes [] _ (nil _ _ _)
    | none =>
      rw [course_cons_of_success hmeet]
      exact cons r past node nodes _ _ ih

end

/-- Two courses of the same nodes have events that correspond, if what is met next corresponds as
long as the registries, the events so far and the nodes to come are related by `I`. -/
theorem course_simulates {τ : Type} {setting setting' : Setting}
    {I : Registry σ → Registry τ → List Event → List Event → List (Node Location) → Prop}
    {E : Event → Event → Prop}
    (hmeet : ∀ r r' past past' node nodes, I r r' past past' (node :: nodes) →
      let met := setting.meet r past node
      let met' := setting'.meet r' past' node
      E met.1 met'.1 ∧ I met.2 met'.2 (past ++ [met.1]) (past' ++ [met'.1]) nodes)
    (hfails : ∀ event event', E event event' → event.failure?.isSome = event'.failure?.isSome)
    {r : Registry σ} {r' : Registry τ} {past past' : List Event} {nodes : List (Node Location)}
    (h : I r r' past past' nodes) :
    List.Forall₂ E (setting.course r past nodes).1 (setting'.course r' past' nodes).1 := by
  induction nodes generalizing r r' past past' with
  | nil => exact .nil
  | cons node nodes ih =>
    obtain ⟨hevent, hnext⟩ := hmeet r r' past past' node nodes h
    have hsome := hfails _ _ hevent
    cases hfailure : (setting.meet r past node).1.failure? with
    | some e =>
      rw [hfailure] at hsome
      obtain ⟨e', hfailure'⟩ := Option.isSome_iff_exists.1 hsome.symm
      rw [course_cons_of_failure hfailure, course_cons_of_failure hfailure']
      exact .cons hevent .nil
    | none =>
      rw [hfailure] at hsome
      have hfailure' : (setting'.meet r' past' node).1.failure? = none :=
        Option.not_isSome_iff_eq_none.1 (hsome ▸ Bool.false_ne_true)
      rw [course_cons_of_success hfailure, course_cons_of_success hfailure']
      exact .cons hevent (ih hnext)

end Setting

end HostSheet
