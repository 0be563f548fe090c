import HostSheet.Proofs.Result
import HostSheet.Proofs.Session.Calls
import HostSheet.Proofs.Session.Evaluating

/-!
# The calls of a compilation

Compiling a source calls the functions of the session in the order of evaluation, each call once,
with the values of its arguments, until the first failure.
-/

namespace HostSheet

variable {σ : Type}

-- ---------------------------------------------------------------------------
-- What bound functions do
-- ---------------------------------------------------------------------------

namespace Registry

def hostAfter (r : Registry σ) (host : σ) (call : Invocation) : σ :=
  match r.find? call.function with
  | none => host
  | some entry => ((entry.callback call).run.run ({}, host)).2.2

/-- The host behind these events: for each call among them that was let in, the function of its name
has run, one after the other. -/
def hostBehind (r : Registry σ) (session : SessionInfo) (events : List Event) : σ :=
  (events.filterMap (Event.invocation? session)).foldl r.hostAfter r.host

end Registry

/-- The function that is bound under the name of the call decides: another number of values than it
takes is refused, and else it runs on this host and gives the outcome. -/
def Event.DecidedBy (r : Registry σ) (session : SessionInfo) (host : σ) : Event → Prop
  | .dispatch name values _ outcome =>
    ∃ entry, r.find? name = some entry ∧
      if values.length = entry.signature.arity then
        let ran := (entry.callback (.ofArguments name session ⟨values⟩)).run.run ({}, host)
        outcome = ran.2.1.outcome name ran.1
      else outcome = .error (.wrongCount name entry.signature.arity values.length)
  | _ => True

theorem Event.DecidedBy.refused_iff {r : Registry σ} {session : SessionInfo} {host : σ}
    {event : Event} (h : event.DecidedBy r session host) {name : String} {values : List Value}
    (hcalled : event.called? = some (name, values)) :
    ∃ entry, r.find? name = some entry ∧
      (event.refused = true ↔ values.length ≠ entry.signature.arity) := by
  cases event with
  | dispatch name values place outcome =>
    cases hcalled
    obtain ⟨entry, hentry, houtcome⟩ := h
    refine ⟨entry, hentry, ?_⟩
    split at houtcome
    next harity =>
      have hadmitted : (Event.dispatch name values place outcome).refused = false :=
        houtcome ▸ Reply.outcome_admitted ..
      simp [hadmitted, harity]
    next harity => simp [houtcome, harity, refused, CallError.isWrongCount]
  | _ => cases hcalled

theorem Event.DecidedBy.contains {r : Registry σ} {session : SessionInfo} {host : σ} {event : Event}
    (h : event.DecidedBy r session host) {call : Invocation}
    (hcall : event.invocation? session = some call) : r.contains call.function = true := by
  rw [invocation?] at hcall
  split at hcall
  · cases hcall
  · cases event with
    | dispatch name values place outcome =>
      cases hcall
      obtain ⟨entry, hentry, -⟩ := h
      exact Option.isSome_iff_exists.2 ⟨entry, hentry⟩
    | _ => cases hcall

theorem Registry.LoggedBy.log_foldl {r : Registry σ} {log : σ → List Invocation}
    (h : r.LoggedBy log) {calls : List Invocation}
    (hbound : ∀ call ∈ calls, r.contains call.function = true) (host : σ) :
    log (calls.foldl r.hostAfter host) = log host ++ calls := by
  induction calls generalizing host with
  | nil => simp
  | cons call calls ih =>
    rw [List.forall_mem_cons] at hbound
    obtain ⟨entry, hentry⟩ := Option.isSome_iff_exists.1 hbound.1
    have hlog : log (r.hostAfter host call) = log host ++ [call] := by
      rw [hostAfter, hentry]
      exact h call.function entry hentry call host
    rw [List.foldl_cons, ih hbound.2, hlog, List.append_assoc, List.singleton_append]

-- ---------------------------------------------------------------------------
-- Registries that bind the same functions
-- ---------------------------------------------------------------------------

section
variable {r r' : Registry σ}

theorem Registry.hostAfter_of_bindings (h : r.bindings = r'.bindings) :
    r.hostAfter = r'.hostAfter := by
  funext host call
  cases hentry : r.find? call.function with
  | none =>
    rw [hostAfter, hostAfter, hentry, find?_eq_none_of_bindings h hentry]
  | some entry =>
    obtain ⟨entry', hentry', -, hcallback⟩ := find?_of_bindings h hentry
    simp only [hostAfter, hentry, hentry', hcallback]

theorem Event.DecidedBy.of_bindings (h : r.bindings = r'.bindings) {session : SessionInfo}
    {host : σ} {event : Event} (hevent : event.DecidedBy r session host) :
    event.DecidedBy r' session host := by
  cases event with
  | dispatch name values place outcome =>
    obtain ⟨entry, hentry, houtcome⟩ := hevent
    obtain ⟨entry', hentry', hsignature, hcallback⟩ := Registry.find?_of_bindings h hentry
    exact ⟨entry', hentry', by rwa [hsignature, hcallback]⟩
  | _ => trivial

end

-- ---------------------------------------------------------------------------
-- Courses
-- ---------------------------------------------------------------------------

namespace Setting

variable {setting : Setting} {r : Registry σ} {past : List Event} {nodes : List (Node Location)}

theorem decidedBy_meet (setting : Setting) (r : Registry σ) (past : List Event)
    (node : Node Location) :
    (setting.meet r past node).1.DecidedBy r setting.session r.host := by
  obtain ⟨name, values, place, hname, -, hmeet⟩ | ⟨-, hcalled, -⟩ := setting.meet_cases r past node
  · obtain ⟨entry, hentry, ⟨harity, -, hrun⟩ | ⟨harity, -, result, reply, host, hcall, hrun⟩⟩ :=
      Registry.dispatch_bound hname setting.session values place
    · simp only [hmeet, hrun]
      exact ⟨entry, hentry, by rw [if_neg harity]⟩
    · simp only [hmeet, hrun]
      exact ⟨entry, hentry, by simp only [if_pos harity, hcall]⟩
  · cases hevent : (setting.meet r past node).1 with
    | dispatch => simp [hevent, Event.called?] at hcalled
    | _ => trivial

theorem hostBehind_meet (setting : Setting) (r : Registry σ) (past : List Event)
    (node : Node Location) (events : List Event) :
    (setting.meet r past node).2.hostBehind setting.session events =
      r.hostBehind setting.session ((setting.meet r past node).1 :: events) := by
  rw [Registry.hostBehind, Registry.hostBehind,
    Registry.hostAfter_of_bindings (setting.bindings_meet r past node)]
  obtain ⟨name, values, place, hname, -, hmeet⟩ | ⟨-, hcalled, hr⟩ := setting.meet_cases r past node
  · rw [hmeet]
    obtain ⟨entry, hentry,
        ⟨-, hrefused, hrun⟩ | ⟨-, hadmitted, result, reply, host, hcall, hrun⟩⟩ :=
      Registry.dispatch_bound hname setting.session values place
    · rw [List.filterMap_cons_none (Event.invocation?_of_refused hrefused), hrun]
      rfl
    · have hhost : r.hostAfter r.host (.ofArguments name setting.session ⟨values⟩) = host := by
        rw [Registry.hostAfter]
        simp only [Invocation.ofArguments] at hcall ⊢
        simp only [hentry, hcall]
      rw [List.filterMap_cons_some (Event.invocation?_dispatch hadmitted), List.foldl_cons, hhost,
        hrun, Registry.answered_eq]
  · rw [hr, List.filterMap_cons_none (by simp [Event.invocation?, hcalled])]

theorem course_host :
    (setting.course r past nodes).2.host =
      r.hostBehind setting.session (setting.course r past nodes).1 := by
  refine course_elim (motive := fun r _ _ events r' =>
    r'.host = r.hostBehind setting.session events) (fun _ _ _ => rfl) ?_
  intro r past node nodes events r' ih
  rw [ih, hostBehind_meet]

/-- Each call of a course is decided by the function that was bound at its beginning, on the host
behind the calls before. -/
theorem course_decided (i : Nat) (event : Event)
    (h : (setting.course r past nodes).1[i]? = some event) :
    event.DecidedBy r setting.session
      (r.hostBehind setting.session ((setting.course r past nodes).1.take i)) := by
  revert i event
  refine course_elim (motive := fun r _ _ events _ => ∀ (i : Nat) (event : Event),
    events[i]? = some event → event.DecidedBy r setting.session
      (r.hostBehind setting.session (events.take i))) (by simp) ?_
  intro r past node nodes events r' ih i event h
  cases i with
  | zero =>
    cases h
    exact setting.decidedBy_meet r past node
  | succ i =>
    have hdecided := (ih i event h).of_bindings (setting.bindings_meet r past node)
    rwa [hostBehind_meet] at hdecided

theorem course_log {log : σ → List Invocation} (h : r.LoggedBy log) :
    log (setting.course r past nodes).2.host = log r.host ++
      (setting.course r past nodes).1.filterMap (Event.invocation? setting.session) := by
  rw [course_host]
  refine h.log_foldl (fun call hcall => ?_) r.host
  obtain ⟨event, hevent, hcall⟩ := List.mem_filterMap.1 hcall
  obtain ⟨i, hi⟩ := List.mem_iff_getElem?.1 hevent
  exact (course_decided i event hi).contains hcall

end Setting

namespace Session

/-- A source that does not parse calls nothing. Any other source is evaluated node after node, up to
the first failure. The calls among the events are to the bound names, as many as were met, and have
one value for each written argument. A call is refused if the function of its name takes another
number of values; otherwise the function has run once, on what the calls before it left of the host,
and the calls together have left the host as it is in the end. So where the functions keep a log,
the log goes on with one entry for each call that was let in. -/
theorem compile_calls (s : Session σ) (source : String) :
    (∀ e, Sheet.parse source = .error e → (s.compile source).2.registry = s.registry) ∧
    (∀ sheet, Sheet.parse source = .ok sheet → ∃ events,
      s.setting.IsCourse s.registry (Sheet.nodes sheet) events (s.compile source).2.registry ∧
      (events.filterMap Event.called?).map (fun (name, values) => (name, values.length)) =
        ((Sheet.nodes sheet).take events.length).filterMap
          (Node.boundCall? s.registry.contains) ∧
      (∀ event ∈ events, ∀ name values, event.called? = some (name, values) →
        ∃ entry, s.registry.find? name = some entry ∧
          (event.refused = true ↔ values.length ≠ entry.signature.arity)) ∧
      (∀ (i : Nat) (event : Event), events[i]? = some event →
        event.DecidedBy s.registry s.info (s.registry.hostBehind s.info (events.take i))) ∧
      (s.compile source).2.registry.host = s.registry.hostBehind s.info events ∧
      ∀ log, s.registry.LoggedBy log →
        log (s.compile source).2.registry.host =
          log s.registry.host ++ events.filterMap (Event.invocation? s.info)) := by
  obtain ⟨warnings, hsession⟩ := s.compile_session source
  rw [hsession]
  constructor
  · intro e h
    rw [evaluate_of_unreadable h]
  · intro sheet h
    rw [evaluate_eq h]
    refine ⟨(s.course sheet).1, s.setting.isCourse_course _ _, s.setting.course_called _ _ _, ?_,
      Setting.course_decided, Setting.course_host, fun log hlog => Setting.course_log hlog⟩
    intro event hevent name values hcalled
    obtain ⟨i, hi⟩ := List.mem_iff_getElem?.1 hevent
    exact (Setting.course_decided i event hi).refused_iff hcalled

/-- The inner call runs although the outer one is then refused. -/
theorem compile_calls_inner :
    let note : Callback (List Invocation) := fun call => CallM.modifyHost (· ++ [call])
    let bound := (((Registry.empty []).insert ⟨"f", ["x", "y"]⟩ note).2.insert ⟨"g", ["x"]⟩ note).2
    let s := { Session.ofConfig 0 {} ([] : List Invocation) with registry := bound }
    let left := (s.compile "a\x7bb:f(g(1))\x7d").2.registry
    left.counts = ⟨1, 0, 1⟩ ∧ ∃ sheet events, Sheet.parse "a\x7bb:f(g(1))\x7d" = .ok sheet ∧
      s.setting.IsCourse s.registry (Sheet.nodes sheet) events left ∧
      left.host = s.registry.hostBehind s.info events ∧
      left.host = events.filterMap (Event.invocation? s.info) ∧
      (events.filterMap (Event.invocation? s.info)).map (·.function) = ["g"] := by
  intro note bound s left
  obtain ⟨sheet, hparse⟩ : ∃ sheet, Sheet.parse "a\x7bb:f(g(1))\x7d" = .ok sheet :=
    isOk_iff.1 (by decide +kernel)
  have hnotes : bound.LoggedBy id := by
    intro name entry hentry call host
    simp only [bound, Registry.find?_insert] at hentry
    split at hentry
    · cases hentry
      rfl
    · split at hentry
      · cases hentry
        rfl
      · cases hentry
  obtain ⟨events, hcourse, -, -, -, hhost, hlog⟩ :=
    (compile_calls s "a\x7bb:f(g(1))\x7d").2 sheet hparse
  have hlog : left.host = events.filterMap (Event.invocation? s.info) := hlog id hnotes
  exact ⟨by decide +kernel, sheet, events, hparse, hcourse, hhost, hlog,
    hlog ▸ by decide +kernel⟩

end Session

end HostSheet
