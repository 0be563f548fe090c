import HostSheet.Proofs.Result
import HostSheet.Proofs.Session.Calls
import HostSheet.Proofs.Session.Evaluating

/-!
# Failing compilations

A compilation fails with its first failure. What ran before stays counted, one more fault or refusal
is counted if the failure was a call, and the functions of the session stay as they were bound.
-/

namespace HostSheet

variable {σ : Type}

-- ---------------------------------------------------------------------------
-- Failures among events
-- ---------------------------------------------------------------------------

namespace Event

theorem failure?_of_refused {event : Event} (h : event.refused = true) :
    event.failure?.isSome = true := by
  cases event with
  | dispatch name args place outcome => cases outcome <;> simp_all [refused, failure?]
  | _ => simp [refused] at h

theorem called?_of_refused {event : Event} (h : event.refused = true) :
    event.called?.isSome = true := by
  cases event with
  | dispatch => rfl
  | _ => simp [refused] at h

theorem failure?_dispatch (name : String) (args : List Value) (place : Location)
    (outcome : Except CallError Value) :
    (Event.dispatch name args place outcome).failure?.isSome = !outcome.isOk := by
  cases outcome <;> rfl

theorem unprintable_of_failure? {event : Event} {e : CompileError} (hcalled : event.called? = none)
    (h : event.failure? = some e) : ∃ cause, e.cause = .unprintable cause := by
  cases event with
  | dispatch => cases hcalled
  | plain name args place text => cases text <;> cases h; exact ⟨_, rfl⟩
  | declare property value place text => cases text <;> cases h; exact ⟨_, rfl⟩

def admitted (event : Event) : Bool :=
  event.called?.isSome && !event.refused

end Event

namespace Setting

variable {setting : Setting} {r : Registry σ} {past : List Event} {nodes : List (Node Location)}

theorem firstFailure_eq_none_iff {events : List Event} :
    firstFailure events = none ↔ ∀ event ∈ events, event.failure? = none :=
  List.findSome?_eq_none_iff

theorem countP_of_no_failure {events : List Event} (h : firstFailure events = none)
    {p : Event → Bool} (hp : ∀ event, p event = true → event.failure?.isSome = true) :
    events.countP p = 0 := by
  rw [List.countP_eq_zero]
  intro event hevent hcounted
  have hfails := hp event hcounted
  rw [firstFailure_eq_none_iff.1 h event hevent] at hfails
  cases hfails

theorem countP_admitted {events : List Event} (h : firstFailure events = none) :
    events.countP Event.admitted = events.countP fun event => event.called?.isSome := by
  have hrefused := countP_of_no_failure h fun event => Event.failure?_of_refused
  refine List.countP_congr fun event hevent => ?_
  have hadmitted : event.refused = false := by
    rw [← Bool.not_eq_true]
    exact List.countP_eq_zero.1 hrefused event hevent
  simp [Event.admitted, hadmitted]

/-- Where only the last event can fail, it is the one that has failed. -/
theorem exists_concat_of_failure {events : List Event}
    (hcut : ∀ event ∈ events.dropLast, event.failure? = none) {event : Event}
    (hevent : event ∈ events) (hfailure : event.failure?.isSome = true) :
    ∃ others, events = others ++ [event] ∧ ∀ other ∈ others, other.failure? = none := by
  rcases List.eq_nil_or_concat events with rfl | ⟨others, last, rfl⟩
  · cases hevent
  · rw [List.concat_eq_append] at hcut hevent ⊢
    rw [List.dropLast_concat] at hcut
    obtain hother | hlast := List.mem_append.1 hevent
    · rw [hcut event hother] at hfailure
      cases hfailure
    · cases List.mem_singleton.1 hlast
      exact ⟨others, rfl, hcut⟩

theorem countP_of_failure {events : List Event}
    (hcut : ∀ event ∈ events.dropLast, event.failure? = none) {event : Event}
    (hevent : event ∈ events) (hfailure : event.failure?.isSome = true) (p : Event → Bool) :
    events.countP (fun event => p event && event.failure?.isSome) =
      if p event then 1 else 0 := by
  obtain ⟨others, rfl, hothers⟩ := exists_concat_of_failure hcut hevent hfailure
  have hnone : others.countP (fun event => p event && event.failure?.isSome) = 0 := by
    rw [List.countP_eq_zero]
    intro other hother
    simp [hothers other hother]
  rw [List.countP_append, hnone, List.countP_singleton, hfailure, Bool.and_true, Nat.zero_add]

theorem firstFailure_of_mem {events : List Event}
    (hcut : ∀ event ∈ events.dropLast, event.failure? = none) {event : Event}
    (hevent : event ∈ events) {e : CompileError} (h : event.failure? = some e) :
    firstFailure events = some e := by
  obtain ⟨others, rfl, hothers⟩ := exists_concat_of_failure hcut hevent (by rw [h]; rfl)
  rw [firstFailure, List.findSome?_append, List.findSome?_eq_none_iff.2 hothers]
  simpa using h

theorem countP_failed (events : List Event) :
    events.countP (fun event => event.admitted && event.failure?.isSome) +
        events.countP Event.refused =
      events.countP fun event => event.called?.isSome && event.failure?.isSome := by
  induction events with
  | nil => rfl
  | cons event events ih =>
    rw [List.countP_cons, List.countP_cons, List.countP_cons, ← ih]
    cases hrefused : event.refused with
    | false =>
      simp only [Event.admitted, hrefused, Bool.not_false, Bool.and_true, Bool.false_eq_true,
        if_false]
      omega
    | true =>
      simp only [Event.admitted, hrefused, Event.called?_of_refused, Event.failure?_of_refused,
        Bool.not_true, Bool.and_false, Bool.and_true, Bool.false_eq_true, if_false, if_true]
      omega

-- ---------------------------------------------------------------------------
-- Counts
-- ---------------------------------------------------------------------------

theorem counts_meet (setting : Setting) (r : Registry σ) (past : List Event)
    (node : Node Location) :
    let event := (setting.meet r past node).1
    (setting.meet r past node).2.counts =
      { calls := r.counts.calls + if event.admitted then 1 else 0
        faults := r.counts.faults + if event.admitted && event.failure?.isSome then 1 else 0
        arityFailures := r.counts.arityFailures + if event.refused then 1 else 0 } := by
  intro event
  obtain ⟨name, values, place, hname, -, hmeet⟩ | ⟨-, hcalled, hr⟩ := setting.meet_cases r past node
  · have hevent : event = (setting.meet r past node).1 := rfl
    rw [hmeet] at hevent ⊢
    obtain ⟨entry, -, ⟨-, hrefused, hrun⟩ | ⟨-, hadmitted, result, reply, host, -, hrun⟩⟩ :=
      Registry.dispatch_bound hname setting.session values place
    · simp [hevent, hrun ▸ hrefused, hrun, Registry.refused, Event.admitted]
    · cases hok : (reply.outcome name result).isOk <;>
        simp [hevent, hrun, hrun ▸ hadmitted, Registry.answered_eq, Event.admitted, Event.called?,
          Event.failure?_dispatch, hok]
  · have hrefused : event.refused = false := by
      cases h : event.refused with
      | false => rfl
      | true => simpa [event, hcalled] using Event.called?_of_refused h
    simp [event, hr, Event.admitted, hcalled, hrefused]

/-- A course counts its calls: those let in, those of them that failed, and those refused. -/
theorem course_counts :
    let events := (setting.course r past nodes).1
    (setting.course r past nodes).2.counts =
      { calls := r.counts.calls + events.countP Event.admitted
        faults := r.counts.faults +
          events.countP fun event => event.admitted && event.failure?.isSome
        arityFailures := r.counts.arityFailures + events.countP Event.refused } := by
  refine course_elim (motive := fun r _ _ events r' => r'.counts =
    { calls := r.counts.calls + events.countP Event.admitted
      faults := r.counts.faults +
        events.countP fun event => event.admitted && event.failure?.isSome
      arityFailures := r.counts.arityFailures + events.countP Event.refused })
    (by simp) ?_
  intro r past node nodes events r' ih
  rw [ih, counts_meet]
  simp only [List.countP_cons]
  congr 1 <;> omega

theorem course_ne_unregistered (name : String) :
    ∀ event ∈ (setting.course r past nodes).1, ∀ e, event.failure? = some e →
      e.cause ≠ .call (.unregistered name) := by
  refine course_elim (motive := fun _ _ _ events _ => ∀ event ∈ events, ∀ e,
    event.failure? = some e → e.cause ≠ .call (.unregistered name)) (by simp) ?_
  intro r past node nodes events r' ih
  rw [List.forall_mem_cons]
  refine ⟨?_, ih⟩
  intro e hfailure hcause
  obtain ⟨called, values, place, hname, -, hmeet⟩ | ⟨-, hcalled, -⟩ :=
    setting.meet_cases r past node
  · rw [hmeet] at hfailure
    have hbound := Registry.dispatch_ne_unregistered hname setting.session ⟨values⟩ name
    cases houtcome : (r.dispatch setting.session called ⟨values⟩).1 with
    | ok value => simp [houtcome, Event.failure?] at hfailure
    | error cause =>
      rw [houtcome] at hfailure
      cases hfailure
      cases hcause
      exact hbound houtcome
  · obtain ⟨cause, hunprintable⟩ := Event.unprintable_of_failure? hcalled hfailure
    rw [hunprintable] at hcause
    cases hcause

theorem course_counts_of_success
    (h : firstFailure (setting.course r past nodes).1 = none) :
    (setting.course r past nodes).2.counts =
      { r.counts with
        calls := r.counts.calls + (nodes.filterMap (Node.boundCall? r.contains)).length } := by
  have hfaults := countP_of_no_failure h (p := fun event => event.admitted && event.failure?.isSome)
    fun event hcounted => (Bool.and_eq_true_iff.1 hcounted).2
  have hrefused := countP_of_no_failure h fun event => Event.failure?_of_refused
  have hcalled := congrArg List.length (setting.course_called r past nodes)
  rw [List.length_map, length_course h, List.take_length, List.length_filterMap_eq_countP,
    ← countP_admitted h] at hcalled
  simp only [course_counts, hfaults, hrefused, hcalled, Nat.add_zero]

theorem course_counts_of_failure {event : Event} (hevent : event ∈ (setting.course r past nodes).1)
    (hfailure : event.failure?.isSome = true) :
    let counts := (setting.course r past nodes).2.counts
    counts.faults + counts.arityFailures =
      r.counts.faults + r.counts.arityFailures + if event.called?.isSome then 1 else 0 := by
  have hone := countP_of_failure course_cut hevent hfailure fun event => event.called?.isSome
  simp only [course_counts, ← hone, ← countP_failed]
  omega

end Setting

-- ---------------------------------------------------------------------------
-- Compilations
-- ---------------------------------------------------------------------------

namespace Session

variable {s : Session σ} {source : String}

theorem compile_of_unreadable {e : SyntaxError} (h : Sheet.parse source = .error e) :
    (s.compile source).1 =
      .error (s.report source .error e.message (Source.locate source.toList e.offset)) := by
  rw [compile_result, evaluate_of_unreadable h]
  rfl

theorem compile_error_iff {sheet : Sheet Location} (h : Sheet.parse source = .ok sheet)
    {d : Diagnostic} :
    (s.compile source).1 = .error d ↔
      ∃ e, Setting.firstFailure (s.course sheet).1 = some e ∧
        d = s.report source .error e.cause.message e.place := by
  rw [compile_result, evaluate_eq h]
  cases hfailure : Setting.firstFailure (s.course sheet).1 <;>
    simp [settle, hfailure, Except.map, Except.mapError, eq_comm]

theorem compile_of_failure {sheet : Sheet Location} (hparse : Sheet.parse source = .ok sheet)
    {event : Event} (hevent : event ∈ (s.course sheet).1) {e : CompileError}
    (h : event.failure? = some e) :
    ∃ d, (s.compile source).1 = .error d ∧
      s.Reports source .error e.cause.message e.place d := by
  have hfirst := Setting.firstFailure_of_mem Setting.course_cut hevent h
  exact ⟨_, (compile_error_iff hparse).2 ⟨e, hfirst, rfl⟩, reports_iff.2 rfl⟩

theorem compile_of_success {sheet : Sheet Location} (hparse : Sheet.parse source = .ok sheet)
    (h : Setting.firstFailure (s.course sheet).1 = none) :
    let printed := Sheet.printed sheet (s.course sheet).1
    (s.evaluate source).1 = .ok (Sheet.blocks printed) ∧
      (s.compile source).1 =
        .ok (Block.render (Sheet.blocks printed) s.config.compile.outputStyle) := by
  intro printed
  have hevaluate : (s.evaluate source).1 = .ok (Sheet.blocks printed) := by
    rw [evaluate_eq hparse, settle, h]
  refine ⟨hevaluate, ?_⟩
  rw [compile_result, hevaluate]
  rfl

theorem evaluate_keeps {P : Registry σ → Prop} (h : P s.registry)
    (step : ∀ r name args, P r → P (r.dispatch s.setting.session name args).2) :
    P (s.evaluate source).2.registry := by
  cases hparse : Sheet.parse source with
  | error e => rwa [evaluate_of_unreadable hparse]
  | ok sheet =>
    rw [evaluate_eq hparse]
    exact Setting.course_keeps h step

theorem bindings_evaluate (s : Session σ) (source : String) :
    (s.evaluate source).2.registry.bindings = s.registry.bindings := by
  refine evaluate_keeps (P := fun r => r.bindings = s.registry.bindings) rfl ?_
  intro r name args h
  rw [r.bindings_dispatch, h]

theorem running_evaluate (s : Session σ) (source : String) :
    ∀ entry ∈ (s.evaluate source).2.registry.entries, entry.2.state = .invoked →
      entry ∈ s.registry.entries := by
  refine evaluate_keeps (P := fun r => ∀ entry ∈ r.entries, entry.2.state = .invoked →
    entry ∈ s.registry.entries) (fun _ hentry _ => hentry) ?_
  intro r name args h entry hentry hstate
  exact h entry (r.running_dispatch _ _ _ hentry hstate) hstate

/-- A compilation that fails reports its first failure: of a source that does not parse, where it
does not; else the first node that fails, a call or a plain call at the call and a declaration at
the declaration. It is never reported that a function is not bound. Without a failure every call to
a bound function is counted, and none as failed or refused; with one, a failed call is counted once.
In each case the session keeps its name, its configuration and its functions, and no function is
left running. -/
theorem compile_fails (s : Session σ) (source : String) :
    let result := (s.compile source).1
    let left := (s.compile source).2
    (∀ e, Sheet.parse source = .error e →
      (∃ d, result = .error d ∧
        s.Reports source .error e.message (Source.locate source.toList e.offset) d) ∧
      left.registry = s.registry) ∧
    (∀ sheet, Sheet.parse source = .ok sheet → ∃ events,
      s.setting.IsCourse s.registry (Sheet.nodes sheet) events left.registry ∧
      (∀ d, result = .error d ↔ ∃ e, Setting.firstFailure events = some e ∧
        s.Reports source .error e.cause.message e.place d) ∧
      (∀ name values place e, .dispatch name values place (.error e) ∈ events →
        ∃ d, result = .error d ∧ s.Reports source .error e.message place d) ∧
      (∀ name values place e, .plain name values place (.error e) ∈ events →
        ∃ d, result = .error d ∧ s.Reports source .error e.message place d) ∧
      (∀ property value place e, .declare property value place (.error e) ∈ events →
        ∃ d, result = .error d ∧ s.Reports source .error e.message place d) ∧
      (∀ e name, Setting.firstFailure events = some e → e.cause ≠ .call (.unregistered name)) ∧
      (Setting.firstFailure events = none → left.registry.counts =
        { s.registry.counts with
          calls := s.registry.counts.calls +
            ((Sheet.nodes sheet).filterMap (Node.boundCall? s.registry.contains)).length }) ∧
      (∀ event ∈ events, event.failure?.isSome →
        left.registry.counts.faults + left.registry.counts.arityFailures =
          s.registry.counts.faults + s.registry.counts.arityFailures +
            if event.called?.isSome then 1 else 0)) ∧
    left.info = s.info ∧ left.config = s.config ∧
    left.registry.bindings = s.registry.bindings ∧
    (∀ entry ∈ left.registry.entries, entry.2.state = .invoked → entry ∈ s.registry.entries) := by
  intro result left
  obtain ⟨warnings, hleft⟩ : ∃ warnings, left =
    { s with registry := (s.evaluate source).2.registry, warnings } := s.compile_session source
  rw [hleft]
  refine ⟨fun e h => ?_, fun sheet h => ?_, rfl, rfl, s.bindings_evaluate source,
    s.running_evaluate source⟩
  · rw [evaluate_of_unreadable h]
    exact ⟨⟨_, compile_of_unreadable h, reports_iff.2 rfl⟩, rfl⟩
  · rw [evaluate_eq h]
    refine ⟨(s.course sheet).1, s.setting.isCourse_course _ _, fun d => ?_,
      fun name values place e hevent => compile_of_failure h hevent rfl,
      fun name values place e hevent => compile_of_failure h hevent rfl,
      fun property value place e hevent => compile_of_failure h hevent rfl, ?_,
      Setting.course_counts_of_success, fun event => Setting.course_counts_of_failure⟩
    · simp only [reports_iff]
      exact compile_error_iff h
    · intro e name hfailure
      obtain ⟨event, hevent, hfails⟩ := List.exists_of_findSome?_eq_some hfailure
      exact Setting.course_ne_unregistered name event hevent e hfails

/-- A source that does not parse, a call that fails in front of another one, an argument of a plain
call without a text, and a value without a text behind a line feed. -/
theorem compile_fails_at :
    let fail : Callback Unit := fun _ => CallM.fail "no"
    let bound := ((Registry.empty ()).insert ⟨"f", ["x"]⟩ fail).2
    let s := { Session.ofConfig 0 {} () with registry := bound }
    let stops (source : String) (d : Diagnostic) := ∃ sheet events e,
      Sheet.parse source = .ok sheet ∧
      s.setting.IsCourse s.registry (Sheet.nodes sheet) events (s.compile source).2.registry ∧
      Setting.firstFailure events = some e ∧ (s.compile source).1 = .error d ∧
      s.Reports source .error e.cause.message e.place d
    (∃ e d, Sheet.parse "a\x7b" = .error e ∧ (s.compile "a\x7b").1 = .error d ∧
      s.Reports "a\x7b" .error e.message (Source.locate "a\x7b".toList e.offset) d ∧
      d = ⟨.error, "expected \"\x7d\".", 1, 3, "stdin", "a\x7b\n"⟩) ∧
    stops "a\x7bb:1;c:f(1) f(2)\x7d"
      ⟨.error, "error in function f: no", 1, 9, "stdin", "a\x7bb:1;c:f(1) f(2)\x7d\n"⟩ ∧
    stops "a\x7bb:g((k:1))\x7d"
      ⟨.error, "(k: 1) isn't a valid CSS value.", 1, 5, "stdin", "a\x7bb:g((k:1))\x7d\n"⟩ ∧
    stops "a\x7b\n  b:(k:1)\x7d"
      ⟨.error, "(k: 1) isn't a valid CSS value.", 2, 3, "stdin", "a\x7b\n  b:(k:1)\x7d\n"⟩ := by
  intro fail bound s stops
  have hstops : ∀ {source d}, (Sheet.parse source).isOk = true → (s.compile source).1 = .error d →
      stops source d := by
    intro source d hparse hresult
    obtain ⟨sheet, hparse⟩ := isOk_iff.1 hparse
    obtain ⟨events, hcourse, hfailed, -⟩ := (compile_fails s source).2.1 sheet hparse
    obtain ⟨e, hfirst, hreports⟩ := (hfailed d).1 hresult
    exact ⟨sheet, events, e, hparse, hcourse, hfirst, hresult, hreports⟩
  refine ⟨?_, hstops (by decide +kernel) (by decide +kernel),
    hstops (by decide +kernel) (by decide +kernel), hstops (by decide +kernel) (by decide +kernel)⟩
  have hparse : Sheet.parse "a\x7b" = .error ⟨.expected '\x7d', 2⟩ :=
    map_error.1 (show (Sheet.parse "a\x7b").map (fun _ => ()) = _ by decide +kernel)
  obtain ⟨⟨d, hresult, hreports⟩, -⟩ := (compile_fails s "a\x7b").1 _ hparse
  refine ⟨_, d, hparse, hresult, hreports, Except.error.inj (hresult.symm.trans ?_)⟩
  decide +kernel

end Session

end HostSheet
