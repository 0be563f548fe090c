import HostSheet.Proofs.Session.Course

/-!
# The calls of a course

What a course did can be told from its events: each comes of the node in its place, and the last is
the only one that can have failed. The registry carried out the calls among them and nothing else,
so that every function ran once for every call that was let in, in the order of the calls.
-/

namespace HostSheet

variable {σ : Type}

-- ---------------------------------------------------------------------------
-- Calls among events
-- ---------------------------------------------------------------------------

def CallError.isWrongCount : CallError → Bool
  | .wrongCount .. => true
  | _ => false

namespace Event

def called? : Event → Option (String × List Value)
  | .dispatch name args _ _ => some (name, args)
  | _ => none

def record? (session : SessionInfo) : Event → Option (Registry.Record σ)
  | .dispatch name args _ outcome => some (.dispatch session name ⟨args⟩ outcome)
  | _ => none

def refused : Event → Bool
  | .dispatch _ _ _ (.error e) => e.isWrongCount
  | _ => false

/-- What the function was told, if the call was let in. -/
def invocation? (session : SessionInfo) (event : Event) : Option Invocation :=
  if event.refused then none
  else event.called?.map fun (name, args) => .ofArguments name session ⟨args⟩

section
variable {session : SessionInfo}

theorem invocation?_of_refused {event : Event} (h : event.refused = true) :
    event.invocation? session = none := by
  rw [invocation?, if_pos h]

theorem invocation?_dispatch {name : String} {args : List Value} {place : Location}
    {outcome : Except CallError Value}
    (h : (Event.dispatch name args place outcome).refused = false) :
    (Event.dispatch name args place outcome).invocation? session =
      some (.ofArguments name session ⟨args⟩) := by
  rw [invocation?, if_neg (by simp [h])]
  rfl

end

end Event

def Node.boundCall? {p : Type} (bound : String → Bool) : Node p → Option (String × Nat)
  | .call name args _ => if bound name then some (name, args.length) else none
  | .declaration _ => none

/-- The event is of this node and has the values that the events before it tell. A call to a bound
name is dispatched, any other call and the value of a declaration are printed. -/
def Event.ComesOf (setting : Setting) (bound : String → Bool) (past : List Event) :
    Node Location → Event → Prop
  | .call name args place, event =>
    let values := Expr.fillItems args (past.rtake (Expr.itemsNodes args).length)
    if bound name then ∃ outcome, event = .dispatch name values place outcome
    else event = .plain name values place (setting.formatter.plainCall name values)
  | .declaration d, event =>
    let value := d.value.fill (past.rtake d.value.nodes.length)
    event = .declare d.property value d.place (setting.formatter.value value)

/-- Every function of the registry enters every run of it in a log of the host, once. -/
def Registry.LoggedBy (r : Registry σ) (log : σ → List Invocation) : Prop :=
  ∀ name entry, r.find? name = some entry → ∀ call host,
    log ((entry.callback call).run.run ({}, host)).2.2 = log host ++ [call]

namespace Setting

/-- These events come of the nodes, one of each in their order, up to the first failure. The calls
among them, and nothing else, lead from one registry to the other. -/
structure IsCourse (setting : Setting) (r : Registry σ) (nodes : List (Node Location))
    (events : List Event) (r' : Registry σ) : Prop where
  comes : ∀ (i : Nat) (event : Event), events[i]? = some event →
    ∃ node, nodes[i]? = some node ∧ event.ComesOf setting r.contains (events.take i) node
  cut : ∀ event ∈ events.dropLast, event.failure? = none
  complete : firstFailure events = none → events.length = nodes.length
  run : r.run ((events.filterMap (Event.record? setting.session)).map Registry.Record.operation) =
    (events.filterMap (Event.record? setting.session), r')

end Setting

-- ---------------------------------------------------------------------------
-- One call
-- ---------------------------------------------------------------------------

section
variable {r : Registry σ} {name : String}

theorem Reply.outcome_error {reply : Reply} {result : Except String Unit} {e : CallError}
    (h : reply.outcome name result = .error e) :
    (∃ cause, e = .failed name cause) ∨ ∃ cause, e = .unsupported name cause := by
  simp only [Reply.outcome] at h
  split at h <;> cases h <;> simp

theorem Reply.outcome_admitted (reply : Reply) (result : Except String Unit) (values : List Value)
    (place : Location) :
    (Event.dispatch name values place (reply.outcome name result)).refused = false := by
  cases h : reply.outcome name result with
  | ok value => rfl
  | error e => obtain ⟨cause, rfl⟩ | ⟨cause, rfl⟩ := Reply.outcome_error h <;> rfl

/-- A call to a bound function is refused for the number of its arguments, or the function runs and
decides. -/
theorem Registry.dispatch_bound (h : r.contains name = true) (session : SessionInfo)
    (values : List Value) (place : Location) :
    let called := r.dispatch session name ⟨values⟩
    let event := Event.dispatch name values place called.1
    ∃ entry, r.find? name = some entry ∧
      ((values.length ≠ entry.signature.arity ∧ event.refused = true ∧
        called = (.error (.wrongCount name entry.signature.arity values.length), r.refused)) ∨
      (values.length = entry.signature.arity ∧ event.refused = false ∧
        ∃ result reply host,
          (entry.callback (.ofArguments name session ⟨values⟩)).run.run ({}, r.host) =
            (result, reply, host) ∧
          called = (reply.outcome name result,
            r.answered name host (reply.outcome name result)))) := by
  obtain ⟨hentry, -⟩ | ⟨entry, hentry, harity, hrun⟩ |
    ⟨entry, result, reply, host, hentry, harity, hcall, hrun⟩ :=
      r.dispatch_cases session name ⟨values⟩
  · simp [contains, hentry] at h
  · rw [hrun]
    exact ⟨entry, hentry, .inl ⟨harity.symm, rfl, rfl⟩⟩
  · rw [hrun]
    exact ⟨entry, hentry, .inr ⟨harity.symm, reply.outcome_admitted result values place, result,
      reply, host, hcall, rfl⟩⟩

theorem Registry.dispatch_ne_unregistered (h : r.contains name = true) (session : SessionInfo)
    (args : Arguments) (other : String) :
    (r.dispatch session name args).1 ≠ .error (.unregistered other) := by
  obtain ⟨hentry, -⟩ | ⟨entry, -, -, hrun⟩ | ⟨entry, result, reply, host, -, -, -, hrun⟩ :=
    r.dispatch_cases session name args
  · simp [contains, hentry] at h
  · simp [hrun]
  · intro hcause
    rw [hrun] at hcause
    obtain ⟨cause, hcause⟩ | ⟨cause, hcause⟩ := Reply.outcome_error hcause <;> cases hcause

end

namespace Setting

variable {setting : Setting} {r : Registry σ} {past : List Event} {nodes : List (Node Location)}

-- ---------------------------------------------------------------------------
-- One node
-- ---------------------------------------------------------------------------

/-- A node is a call to a bound function or leaves the registry as it is. -/
theorem meet_cases (setting : Setting) (r : Registry σ) (past : List Event)
    (node : Node Location) :
    (∃ name values place, r.contains name = true ∧
      node.boundCall? r.contains = some (name, values.length) ∧
      let called := r.dispatch setting.session name ⟨values⟩
      setting.meet r past node = (.dispatch name values place called.1, called.2)) ∨
    (node.boundCall? r.contains = none ∧ (setting.meet r past node).1.called? = none ∧
      (setting.meet r past node).2 = r) := by
  cases node with
  | declaration d => exact .inr ⟨rfl, rfl, rfl⟩
  | call name args place =>
    cases hname : r.contains name with
    | true =>
      refine .inl ⟨name, Expr.fillItems args (past.rtake (Expr.itemsNodes args).length), place,
        hname, ?_, ?_⟩
      · simp [Node.boundCall?, hname]
      · simp [meet, hname]
    | false => exact .inr (by simp [Node.boundCall?, meet, hname, Event.called?])

theorem meet_comesOf (setting : Setting) (r : Registry σ) (past : List Event)
    (node : Node Location) :
    (setting.meet r past node).1.ComesOf setting r.contains past node := by
  cases node with
  | declaration d => rfl
  | call name args place =>
    cases hname : r.contains name <;> simp [Event.ComesOf, meet, hname]

theorem bindings_meet (setting : Setting) (r : Registry σ) (past : List Event)
    (node : Node Location) : (setting.meet r past node).2.bindings = r.bindings := by
  obtain ⟨name, values, place, -, -, hmeet⟩ | ⟨-, -, hr⟩ := setting.meet_cases r past node
  · rw [hmeet]
    exact r.bindings_dispatch _ _ _
  · rw [hr]

theorem contains_meet (setting : Setting) (r : Registry σ) (past : List Event)
    (node : Node Location) : (setting.meet r past node).2.contains = r.contains :=
  Registry.contains_of_bindings (setting.bindings_meet r past node)

-- ---------------------------------------------------------------------------
-- Whole courses
-- ---------------------------------------------------------------------------

theorem course_comes (i : Nat) (event : Event)
    (h : (setting.course r past nodes).1[i]? = some event) :
    ∃ node, nodes[i]? = some node ∧ event.ComesOf setting r.contains
      (past ++ (setting.course r past nodes).1.take i) node := by
  revert i event
  refine course_elim (motive := fun r past nodes events _ =>
    ∀ (i : Nat) (event : Event), events[i]? = some event → ∃ node, nodes[i]? = some node ∧
      event.ComesOf setting r.contains (past ++ events.take i) node) (by simp) ?_
  intro r past node nodes events r' ih i event h
  cases i with
  | zero =>
    cases h
    exact ⟨node, rfl, by simpa using setting.meet_comesOf r past node⟩
  | succ i =>
    rw [contains_meet] at ih
    simpa using ih i event h

theorem course_run :
    let calls := (setting.course r past nodes).1.filterMap (Event.record? setting.session)
    r.run (calls.map Registry.Record.operation) = (calls, (setting.course r past nodes).2) := by
  refine course_elim (motive := fun r _ _ events r' =>
    let calls := events.filterMap (Event.record? setting.session)
    r.run (calls.map Registry.Record.operation) = (calls, r')) (fun _ _ _ => rfl) ?_
  intro r past node nodes events r' ih
  obtain ⟨name, values, place, -, -, hmeet⟩ | ⟨-, hcalled, hr⟩ := setting.meet_cases r past node
  · rw [hmeet] at ih ⊢
    simp only [Event.record?, List.filterMap_cons, List.map_cons, Registry.Record.operation,
      Registry.run, Registry.perform, ih]
  · have hrecord : Event.record? (σ := σ) setting.session (setting.meet r past node).1 = none := by
      cases hevent : (setting.meet r past node).1 <;> simp_all [Event.called?, Event.record?]
    rw [hr] at ih
    simpa only [List.filterMap_cons_none hrecord] using ih

theorem course_called (setting : Setting) (r : Registry σ) (past : List Event)
    (nodes : List (Node Location)) :
    ((setting.course r past nodes).1.filterMap Event.called?).map
        (fun (name, values) => (name, values.length)) =
      (nodes.take (setting.course r past nodes).1.length).filterMap
        (Node.boundCall? r.contains) := by
  refine course_elim (motive := fun r _ nodes events _ =>
    (events.filterMap Event.called?).map (fun (name, values) => (name, values.length)) =
      (nodes.take events.length).filterMap (Node.boundCall? r.contains)) (by simp) ?_
  intro r past node nodes events r' ih
  rw [contains_meet] at ih
  obtain ⟨name, values, place, -, hnode, hmeet⟩ | ⟨hnode, hcalled, -⟩ :=
    setting.meet_cases r past node
  · simp [hmeet, Event.called?, hnode, ih]
  · simp [List.filterMap_cons_none hcalled, hnode, ih]

theorem isCourse_course (setting : Setting) (r : Registry σ) (nodes : List (Node Location)) :
    setting.IsCourse r nodes (setting.course r [] nodes).1 (setting.course r [] nodes).2 where
  comes i event h := by simpa using course_comes i event h
  cut := course_cut
  complete := length_course
  run := course_run

/-- A property of registries that every call keeps is kept by a course. -/
theorem course_keeps {P : Registry σ → Prop} (h : P r)
    (step : ∀ r name args, P r → P (r.dispatch setting.session name args).2) :
    P (setting.course r past nodes).2 := by
  revert h
  refine course_elim (motive := fun r _ _ _ r' => P r → P r') (fun _ _ _ h => h) ?_
  intro r past node nodes events r' ih h
  obtain ⟨name, values, place, -, -, hmeet⟩ | ⟨-, -, hr⟩ := setting.meet_cases r past node
  · rw [hmeet] at ih
    exact ih (step r name _ h)
  · rw [hr] at ih
    exact ih h

end Setting

end HostSheet
