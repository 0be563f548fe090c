import HostSheet.Proofs.Session.Course
import HostSheet.Session.Basic

/-!
# Evaluation runs the course of the nodes

Evaluating an expression, a declaration or a rule does what the course of its nodes does, neither
more nor less, ends in the first failure of that course, and has a value that its events tell.
-/

namespace HostSheet

-- ---------------------------------------------------------------------------
-- Blocks
-- ---------------------------------------------------------------------------

abbrev Printed := Option (String × String)

mutual

/-- A rule with its declarations as they were printed, by the events of its nodes. The places of the
declarations make room for that; other places are dropped. -/
def Rule.printed {p : Type} : Rule p → List Event → Rule Printed
  | .mk selectors items _, events => .mk selectors (Item.printed items events) none

def Item.printed {p : Type} : List (Item p) → List Event → List (Item Printed)
  | [], _ => []
  | .declaration d :: items, events =>
    let text := (events.take d.nodes.length).getLast?.bind Event.printed?
    .declaration ⟨d.property, d.value.mapPlaces fun _ => none, text⟩ ::
      Item.printed items (events.drop d.nodes.length)
  | .rule r :: items, events =>
    .rule (r.printed (events.take r.nodes.length)) ::
      Item.printed items (events.drop r.nodes.length)

end

def Item.own? : Item Printed → Printed
  | .declaration d => d.place
  | .rule _ => none

theorem filterMap_own?_declaration (d : Declaration Printed) (items : List (Item Printed)) :
    (Item.declaration d :: items).filterMap Item.own? =
      d.place.toList ++ items.filterMap Item.own? := by
  cases h : d.place <;> simp [Item.own?, h]

mutual

def Rule.blocks (parents : List String) : Rule Printed → List Block
  | .mk selectors items _ =>
    ⟨resolveSelectors parents selectors, items.filterMap Item.own?⟩ ::
      Item.blocks (resolveSelectors parents selectors) items

def Item.blocks (selectors : List String) : List (Item Printed) → List Block
  | [] => []
  | .declaration _ :: items => Item.blocks selectors items
  | .rule r :: items => r.blocks selectors ++ Item.blocks selectors items

end

def Sheet.printed {p : Type} : Sheet p → List Event → Sheet Printed
  | [], _ => []
  | rule :: rules, events =>
    rule.printed (events.take rule.nodes.length) ::
      Sheet.printed rules (events.drop rule.nodes.length)

def Sheet.blocks (sheet : Sheet Printed) : List Block :=
  sheet.flatMap (Rule.blocks [])

variable {σ : Type}

section
variable {α β : Type}

theorem EvalM.run_bind (m : EvalM σ α) (k : α → EvalM σ β) (state : EvalState σ) :
    (m >>= k).run.run state =
      match m.run.run state with
      | (.ok a, state) => (k a).run.run state
      | (.error e, state) => (.error e, state) := by
  rw [ExceptT.run_bind, StateT.run_bind]
  rcases m.run.run state with ⟨_ | _, _⟩ <;> rfl

theorem EvalM.run_get_bind (k : EvalState σ → EvalM σ α) (state : EvalState σ) :
    (get >>= k).run.run state = (k state).run.run state := rfl

/-- How an evaluation with these events ends that would have a value. -/
def settle (events : List Event) (a : α) : Except CompileError α :=
  match Setting.firstFailure events with
  | some e => .error e
  | none => .ok a

namespace Setting

/-- Behind these events, `m` runs the course of `nodes`: it ends and changes the registry as the
course does, raises the warnings of its events, and its value is told by them. -/
def Follows (setting : Setting) (m : EvalM σ α) (past : List Event)
    (nodes : List (Node Location)) (value : List Event → α) : Prop :=
  ∀ (r : Registry σ) (warnings : List RaisedWarning) (before : List Event),
    let course := setting.course r (before ++ past) nodes
    m.run.run ⟨r, warnings⟩ =
      (settle course.1 (value course.1),
        ⟨course.2, warnings ++ course.1.filterMap Event.warning?⟩)

variable {setting : Setting} {past : List Event} {nodes others : List (Node Location)}

theorem Follows.pure (a : α) :
    setting.Follows (Pure.pure a : EvalM σ α) past [] fun _ => a := by
  intro r warnings before
  simp only [course, List.filterMap_nil, List.append_nil]
  rfl

/-- What runs its course behind nothing in particular runs it behind everything. -/
theorem Follows.behind {m : EvalM σ α} {value : List Event → α}
    (h : setting.Follows m [] nodes value) (past : List Event) :
    setting.Follows m past nodes value := by
  intro r warnings before
  simpa using h r warnings (before ++ past)

/-- One part of an evaluation behind another. The events of the first part are as many as its
nodes. -/
theorem Follows.bind {m : EvalM σ α} {k : α → EvalM σ β} {value : List Event → α}
    (more : List Event → List Event → β) (hm : setting.Follows m past nodes value)
    (hk : ∀ events, events.length = nodes.length →
      setting.Follows (k (value events)) (past ++ events) others (more events)) :
    setting.Follows (m >>= k) past (nodes ++ others)
      fun events => more (events.take nodes.length) (events.drop nodes.length) := by
  intro r warnings before
  simp only [EvalM.run_bind, hm r warnings before, course_append]
  cases hfailure : firstFailure (setting.course r (before ++ past) nodes).1 with
  | some e =>
    -- A failure of the first part ends both courses.
    simp only [settle, hfailure, Option.isSome_some, if_true]
  | none =>
    -- The second part goes on behind the events of the first.
    have hlength := length_course hfailure
    have hmore := hk _ hlength (setting.course r (before ++ past) nodes).2
      (warnings ++ (setting.course r (before ++ past) nodes).1.filterMap Event.warning?) before
    simp only [settle, hfailure, Option.isSome_none, Bool.false_eq_true, if_false, hmore,
      ← List.append_assoc, ← hlength, List.take_left', List.drop_left', List.filterMap_append]
    rw [firstFailure] at hfailure
    simp [firstFailure, List.findSome?_append, hfailure]

theorem Follows.congr {m : EvalM σ α} {f g : List Event → α}
    (h : setting.Follows m past nodes f)
    (hfg : ∀ events, events.length = nodes.length → f events = g events) :
    setting.Follows m past nodes g := by
  intro r warnings before
  simp only [h r warnings before, settle]
  cases hfailure : firstFailure (setting.course r (before ++ past) nodes).1 with
  | some e => rfl
  | none => rw [hfg _ (length_course hfailure)]

theorem Follows.map {m : EvalM σ α} {value : List Event → α} (f : α → β)
    (h : setting.Follows m past nodes value) :
    setting.Follows (m >>= fun a => Pure.pure (f a)) past nodes fun events => f (value events) := by
  have hk : ∀ events, events.length = nodes.length →
      setting.Follows (Pure.pure (f (value events)) : EvalM σ β) (past ++ events) []
        fun _ => f (value events) := fun events _ => .pure _
  have both := Follows.bind (k := fun a => Pure.pure (f a)) (fun events _ => f (value events)) h hk
  rw [List.append_nil] at both
  exact both.congr fun events hlength => by rw [List.take_of_length_le (Nat.le_of_eq hlength)]

theorem Follows.of_meet {m : EvalM σ α} {node : Node Location} {value : List Event → α}
    (h : ∀ (r : Registry σ) (warnings : List RaisedWarning) (before : List Event),
      let met := setting.meet r (before ++ past) node
      m.run.run ⟨r, warnings⟩ =
        (settle [met.1] (value [met.1]), ⟨met.2, warnings ++ met.1.warning?.toList⟩)) :
    setting.Follows m past [node] value := by
  intro r warnings before
  have hcourse : setting.course r (before ++ past) [node] =
      ([(setting.meet r (before ++ past) node).1], (setting.meet r (before ++ past) node).2) := by
    cases hmeet : (setting.meet r (before ++ past) node).1.failure? with
    | some e => exact course_cons_of_failure hmeet
    | none => exact course_cons_of_success hmeet
  simp only [h r warnings before, hcourse]
  cases hwarning : (setting.meet r (before ++ past) node).1.warning? with
  | none => rw [List.filterMap_cons_none hwarning]; rfl
  | some w => rw [List.filterMap_cons_some hwarning]; rfl

-- ---------------------------------------------------------------------------
-- Printing
-- ---------------------------------------------------------------------------

theorem run_printed (place : Location) (value : Value) (state : EvalState σ) :
    (setting.printed place value).run.run state =
      ((setting.formatter.value value).mapError fun e => ⟨.unprintable e, place⟩, state) := by
  rw [printed]
  cases setting.formatter.value value <;> rfl

theorem run_printedArgs (place : Location) (args : List Value) (state : EvalState σ) :
    (setting.printedArgs place args).run.run state =
      (((args.mapM setting.formatter.value).map (·.filterMap id)).mapError
        fun e => ⟨.unprintable e, place⟩, state) := by
  induction args with
  | nil => rfl
  | cons arg args ih =>
    rw [printedArgs, EvalM.run_bind, run_printed, List.mapM_cons]
    cases setting.formatter.value arg with
    | error e => rfl
    | ok text =>
      simp only [Except.mapError, EvalM.run_bind, ih]
      cases args.mapM setting.formatter.value with
      | error e => rfl
      | ok texts => cases text <;> rfl

theorem run_plainCall (name : String) (args : List Value) (place : Location)
    (state : EvalState σ) :
    (setting.plainCall name args place).run.run state =
      (((setting.formatter.plainCall name args).map (Value.string · false)).mapError
        fun e => ⟨.unprintable e, place⟩, state) := by
  rw [plainCall, EvalM.run_bind, run_printedArgs, Formatter.plainCall]
  cases args.mapM setting.formatter.value <;> rfl

theorem run_boundCall (name : String) (args : List Value) (place : Location)
    (state : EvalState σ) :
    (setting.boundCall name args place).run.run state =
      let called := state.registry.dispatch setting.session name ⟨args⟩
      let event := Event.dispatch name args place called.1
      (settle [event] event.answer, ⟨called.2, state.warnings ++ event.warning?.toList⟩) := by
  rw [boundCall, EvalM.run_get_bind]
  rcases state.registry.dispatch setting.session name ⟨args⟩ with ⟨outcome, r⟩
  rcases outcome with e | value
  · simp [Event.warning?]
    rfl
  · cases value <;> simp [Event.warning?] <;> rfl

-- ---------------------------------------------------------------------------
-- Expressions
-- ---------------------------------------------------------------------------

theorem follows_call (name : String) (args : List (Expr Location)) (place : Location)
    {events : List Event} (h : events.length = (Expr.itemsNodes args).length) :
    setting.Follows (σ := σ)
      (do
        if (← get).registry.contains name then
          setting.boundCall name (Expr.fillItems args events) place
        else setting.plainCall name (Expr.fillItems args events) place)
      events [.call name args place]
      fun events => (events.getLast?.map Event.answer).getD .null := by
  refine .of_meet fun r warnings before => ?_
  have hargs : (before ++ events).rtake (Expr.itemsNodes args).length = events := by
    rw [← h, List.rtake, List.length_append, Nat.add_sub_cancel, List.drop_left]
  simp only [EvalM.run_get_bind, meet, hargs]
  cases hname : r.contains name with
  | false =>
    simp only [Bool.false_eq_true, if_false, run_plainCall]
    cases setting.formatter.plainCall name (Expr.fillItems args events) <;>
      simp [Event.warning?] <;> rfl
  | true =>
    simp only [if_true, run_boundCall]
    rfl

theorem follows_items {items : List (Expr Location)}
    (h : ∀ item ∈ items, setting.Follows (σ := σ) (setting.evalExpr item) [] item.nodes item.fill) :
    setting.Follows (σ := σ) (setting.evalItems items) [] (Expr.itemsNodes items)
      (Expr.fillItems items) := by
  induction items with
  | nil => exact .pure []
  | cons item items ih =>
    rw [List.forall_mem_cons] at h
    refine Follows.bind (fun first more => item.fill first :: Expr.fillItems items more) h.1 ?_
    exact fun events _ => ((ih h.2).behind _).map (item.fill events :: ·)

theorem follows_entries {entries : List (Expr Location × Expr Location)}
    (h : ∀ entry ∈ entries,
      setting.Follows (σ := σ) (setting.evalExpr entry.1) [] entry.1.nodes entry.1.fill ∧
        setting.Follows (σ := σ) (setting.evalExpr entry.2) [] entry.2.nodes entry.2.fill) :
    setting.Follows (σ := σ) (setting.evalEntries entries) [] (Expr.entriesNodes entries)
      (Expr.fillEntries entries) := by
  induction entries with
  | nil => exact .pure []
  | cons entry entries ih =>
    obtain ⟨key, value⟩ := entry
    rw [List.forall_mem_cons] at h
    let entry (forKey forValue more : List Event) :=
      (key.fill forKey, value.fill forValue) :: Expr.fillEntries entries more
    refine Follows.bind (fun forKey others => entry forKey (others.take value.nodes.length)
      (others.drop value.nodes.length)) h.1.1 fun forKey _ => ?_
    refine Follows.bind (entry forKey) (h.1.2.behind _) fun forValue _ => ?_
    exact ((ih h.2).behind _).map ((key.fill forKey, value.fill forValue) :: ·)

theorem follows_evalExpr (e : Expr Location) :
    setting.Follows (σ := σ) (setting.evalExpr e) [] e.nodes e.fill := by
  induction e using Expr.treeInduction with
  | literal value => exact .pure value
  | list items separator ih => exact (follows_items ih).map (Value.list · separator)
  | map entries ih => exact (follows_entries ih).map Value.map
  | call name args place ih =>
    -- The events of the arguments come right before that of the call, which alone has its value.
    refine Follows.congr (Follows.bind (fun _ last => (last.getLast?.map Event.answer).getD .null)
      (follows_items ih) fun events h => follows_call name args place h) fun events h => ?_
    rw [Expr.fill, List.getLast?_drop, if_neg (by simp [h, Expr.nodes])]

-- ---------------------------------------------------------------------------
-- Rules
-- ---------------------------------------------------------------------------

theorem follows_printed (d : Declaration Location) {events : List Event}
    (h : events.length = d.value.nodes.length) :
    setting.Follows (σ := σ)
      (do
        let text ← setting.printed d.place (d.value.fill events)
        return text.map fun text => (d.property, text))
      events [.declaration d] fun events => events.getLast?.bind Event.printed? := by
  refine .of_meet fun r warnings before => ?_
  have hvalue : (before ++ events).rtake d.value.nodes.length = events := by
    rw [← h, List.rtake, List.length_append, Nat.add_sub_cancel, List.drop_left]
  simp only [EvalM.run_bind, run_printed, meet, hvalue]
  rcases setting.formatter.value (d.value.fill events) with e | _ | text <;>
    simp [Event.warning?, Except.mapError] <;> rfl

theorem follows_evalDeclaration (d : Declaration Location) :
    setting.Follows (σ := σ) (setting.evalDeclaration d) [] d.nodes
      fun events => events.getLast?.bind Event.printed? := by
  refine Follows.congr (Follows.bind (fun _ last => last.getLast?.bind Event.printed?)
    (follows_evalExpr d.value) fun events h => follows_printed d h) fun events h => ?_
  rw [List.getLast?_drop, if_neg (by simp [h, Declaration.nodes])]

theorem follows_evalBlock (selectors : List String) {items : List (Item Location)}
    (h : ∀ r, Item.rule r ∈ items → ∀ parents,
      setting.Follows (σ := σ) (setting.evalRule parents r) [] r.nodes
        fun events => (r.printed events).blocks parents) :
    setting.Follows (σ := σ) (setting.evalBlock selectors items) [] (Item.nodes items)
      fun events => ((Item.printed items events).filterMap Item.own?,
        Item.blocks selectors (Item.printed items events)) := by
  induction items with
  | nil => exact .pure ([], [])
  | cons item items ih =>
    have hitems := ih fun r hr => h r (List.mem_cons_of_mem _ hr)
    cases item with
    | declaration d =>
      simp only [Item.printed, filterMap_own?_declaration]
      refine Follows.bind (fun first more =>
        ((first.getLast?.bind Event.printed?).toList ++
          (Item.printed items more).filterMap Item.own?,
          Item.blocks selectors (Item.printed items more)))
        (follows_evalDeclaration d) fun events _ => ?_
      exact (hitems.behind _).map fun block =>
        ((events.getLast?.bind Event.printed?).toList ++ block.1, block.2)
    | rule r =>
      refine Follows.bind (fun first more =>
        ((Item.printed items more).filterMap Item.own?,
          (r.printed first).blocks selectors ++ Item.blocks selectors (Item.printed items more)))
        (h r List.mem_cons_self selectors) fun events _ => ?_
      exact (hitems.behind _).map fun block =>
        (block.1, (r.printed events).blocks selectors ++ block.2)

theorem follows_evalRule (parents : List String) (rule : Rule Location) :
    setting.Follows (σ := σ) (setting.evalRule parents rule) [] rule.nodes
      fun events => (rule.printed events).blocks parents := by
  induction rule using Rule.treeInduction generalizing parents with
  | mk selectors items place ih =>
    exact (follows_evalBlock (resolveSelectors parents selectors) fun r hr parents =>
      ih r hr parents).map fun block => ⟨resolveSelectors parents selectors, block.1⟩ :: block.2

theorem follows_evalSheet (sheet : Sheet Location) :
    setting.Follows (σ := σ) (setting.evalSheet sheet) [] (Sheet.nodes sheet)
      fun events => (Sheet.printed sheet events).blocks := by
  induction sheet with
  | nil => exact .pure []
  | cons rule rules ih =>
    refine Follows.bind (fun first more =>
      (rule.printed first).blocks [] ++ (Sheet.printed rules more).blocks)
      (follows_evalRule [] rule) fun events _ => ?_
    exact (ih.behind _).map ((rule.printed events).blocks [] ++ ·)

end Setting

end

-- ---------------------------------------------------------------------------
-- Sessions
-- ---------------------------------------------------------------------------

namespace Session

variable {s : Session σ} {source : String} {sheet : Sheet Location}

def course (s : Session σ) (sheet : Sheet Location) : List Event × Registry σ :=
  s.setting.course s.registry [] (Sheet.nodes sheet)

def report (s : Session σ) (source : String) (severity : Severity) (message : String)
    (place : Location) : Diagnostic :=
  .ofLocation severity message place (.ofString s.info.sourceName source)
    s.config.compile.contextLines

/-- The diagnostic says this about this place of a source, and shows as many lines around the place
as the session is set to. -/
structure Reports (s : Session σ) (source : String) (severity : Severity) (message : String)
    (place : Location) (d : Diagnostic) : Prop where
  severity : d.severity = severity
  message : d.message = message
  line : d.line = place.line
  column : d.column = place.column
  sourceName : d.sourceName = s.info.sourceName
  snippet : d.snippet = String.join (((SourceText.ofString s.info.sourceName source).context
    place.line s.config.compile.contextLines).map (· ++ "\n"))

theorem reports_iff {severity : Severity} {message : String} {place : Location} {d : Diagnostic} :
    s.Reports source severity message place d ↔ d = s.report source severity message place := by
  rw [report, Diagnostic.eq_ofLocation_iff]
  constructor
  · rintro ⟨hseverity, hmessage, hline, hcolumn, hname, hsnippet⟩
    exact ⟨hseverity, hmessage, hline, hcolumn, hname, hsnippet⟩
  · rintro ⟨hseverity, hmessage, hline, hcolumn, hname, hsnippet⟩
    exact ⟨hseverity, hmessage, hline, hcolumn, hname, hsnippet⟩

theorem compile_result (s : Session σ) (source : String) :
    (s.compile source).1 =
      ((s.evaluate source).1.map (Block.render · s.config.compile.outputStyle)).mapError fun e =>
        s.report source .error e.cause.message e.place := by
  rw [compile]
  rcases s.evaluate source with ⟨_ | _, _⟩ <;> rfl

theorem compile_session (s : Session σ) (source : String) :
    ∃ warnings, (s.compile source).2 =
      { s with registry := (s.evaluate source).2.registry, warnings } := by
  rw [compile]
  rcases s.evaluate source with ⟨_ | _, _⟩ <;> exact ⟨_, rfl⟩

theorem evaluate_of_unreadable {e : SyntaxError} (h : Sheet.parse source = .error e) :
    s.evaluate source =
      (.error ⟨.unreadable e.cause, Source.locate source.toList e.offset⟩,
        { registry := s.registry }) := by
  rw [evaluate, h]

theorem evaluate_eq (h : Sheet.parse source = .ok sheet) :
    s.evaluate source =
      (settle (s.course sheet).1 (Sheet.printed sheet (s.course sheet).1).blocks,
        ⟨(s.course sheet).2, (s.course sheet).1.filterMap Event.warning?⟩) := by
  have follows : s.setting.Follows (σ := σ) (s.setting.evalSheet sheet) [] (Sheet.nodes sheet)
      fun events => (Sheet.printed sheet events).blocks := Setting.follows_evalSheet sheet
  have run := follows s.registry [] []
  simp only [List.nil_append] at run
  rw [evaluate, h]
  exact run

end Session

end HostSheet
