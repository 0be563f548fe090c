import HostSheet.Registry

/-!
# What a call does to a registry

A call ends in one of three ways: its name is not bound, it gives the wrong number of arguments, or
its function runs. The last two change the counts, and only the last changes the state of the
function that was called and of the host. No call binds or unbinds a name.
-/

namespace HostSheet

def CallState.ended : Except CallError Value → CallState
  | .ok _ => .returned
  | .error _ => .faulted

theorem CallState.ended_ne_invoked (outcome : Except CallError Value) :
    CallState.ended outcome ≠ .invoked := by
  cases outcome <;> simp [CallState.ended]

namespace Registry

variable {σ : Type} {r : Registry σ} {name : String}

-- ---------------------------------------------------------------------------
-- Looking up
-- ---------------------------------------------------------------------------

theorem lookup_filter_ne {key : String} (h : key ≠ name)
    (entries : List (String × Registration σ)) :
    (entries.filter (·.1 != key)).lookup name = entries.lookup name := by
  induction entries with
  | nil => rfl
  | cons entry entries ih =>
    by_cases hkey : entry.1 = key
    · rw [List.filter_cons_of_neg (by simp [hkey]), ih, List.lookup_cons,
        beq_false_of_ne (hkey ▸ h.symm)]
    · rw [List.filter_cons_of_pos (by simp [hkey]), List.lookup_cons, List.lookup_cons, ih]

theorem find?_insert (r : Registry σ) (signature : Signature) (callback : Callback σ)
    (name : String) :
    (r.insert signature callback).2.find? name =
      if signature.name = name then some ⟨signature, callback, .registered⟩ else r.find? name := by
  rw [insert, find?, List.lookup_cons]
  by_cases h : signature.name = name
  · simp [h]
  · rw [if_neg h, beq_false_of_ne (Ne.symm h), find?]
    exact lookup_filter_ne h r.entries

theorem find?_setState (r : Registry σ) (called : String) (state : CallState) (name : String) :
    (r.setState called state).find? name =
      (r.find? name).map fun entry => if called = name then { entry with state } else entry := by
  simp only [setState, find?]
  induction r.entries with
  | nil => rfl
  | cons first entries ih =>
    obtain ⟨key, entry⟩ := first
    rw [List.map_cons, List.lookup_cons, List.lookup_cons]
    by_cases h : name = key
    · subst h
      by_cases hcalled : name = called
      · simp [hcalled]
      · simp [hcalled, Ne.symm hcalled]
    · rw [beq_false_of_ne h, ih]

theorem find?_of_mem (h : (r.entries.map (·.1)).Nodup) {entry : Registration σ}
    (hentry : (name, entry) ∈ r.entries) : r.find? name = some entry := by
  obtain ⟨before, behind, hentries⟩ := List.append_of_mem hentry
  rw [hentries, List.map_append, List.map_cons, List.nodup_append] at h
  refine List.lookup_eq_some_iff.2 ⟨before, behind, hentries, fun other hother => ?_⟩
  have hne := h.2.2 other.1 (List.mem_map_of_mem hother) name List.mem_cons_self
  simpa using hne.symm

-- ---------------------------------------------------------------------------
-- Calls
-- ---------------------------------------------------------------------------

/-- A call that was let in, from its beginning to its end. -/
def answered (r : Registry σ) (name : String) (host : σ) (outcome : Except CallError Value) :
    Registry σ :=
  (r.enter name).leave name host outcome

def refused (r : Registry σ) : Registry σ :=
  { r with counts := { r.counts with arityFailures := r.counts.arityFailures + 1 } }

section
variable {session : SessionInfo} {args : Arguments}

theorem dispatch_of_unbound (h : r.find? name = none) :
    r.dispatch session name args = (.error (.unregistered name), r) := by
  rw [dispatch, h]

theorem dispatch_of_wrongCount {entry : Registration σ} (h : r.find? name = some entry)
    (harity : entry.signature.arity ≠ args.arity) :
    r.dispatch session name args =
      (.error (.wrongCount name entry.signature.arity args.arity), r.refused) := by
  rw [dispatch, h]
  simp only [harity, ne_eq, not_false_eq_true, if_true, refused]

theorem dispatch_of_admitted {entry : Registration σ} (h : r.find? name = some entry)
    (harity : entry.signature.arity = args.arity) {result : Except String Unit} {reply : Reply}
    {host : σ} (hrun : (entry.callback (.ofArguments name session args)).run.run ({}, r.host) =
      (result, reply, host)) :
    r.dispatch session name args =
      (reply.outcome name result, r.answered name host (reply.outcome name result)) := by
  have hrun' : (entry.callback (.ofArguments name session args)).run.run ({}, (r.enter name).host) =
      (result, reply, host) := hrun
  rw [dispatch, h]
  simp only [ne_eq, harity, not_true_eq_false, if_false, hrun', answered]

/-- The three ways in which a call can end. -/
theorem dispatch_cases (r : Registry σ) (session : SessionInfo) (name : String)
    (args : Arguments) :
    (r.find? name = none ∧ r.dispatch session name args = (.error (.unregistered name), r)) ∨
    (∃ entry, r.find? name = some entry ∧ entry.signature.arity ≠ args.arity ∧
      r.dispatch session name args =
        (.error (.wrongCount name entry.signature.arity args.arity), r.refused)) ∨
    (∃ entry result reply host, r.find? name = some entry ∧
      entry.signature.arity = args.arity ∧
      (entry.callback (.ofArguments name session args)).run.run ({}, r.host) =
        (result, reply, host) ∧
      r.dispatch session name args =
        (reply.outcome name result, r.answered name host (reply.outcome name result))) := by
  cases hentry : r.find? name with
  | none => exact .inl ⟨rfl, dispatch_of_unbound hentry⟩
  | some entry =>
    by_cases harity : entry.signature.arity = args.arity
    · exact .inr (.inr ⟨entry, _, _, _, rfl, harity, rfl, dispatch_of_admitted hentry harity rfl⟩)
    · exact .inr (.inl ⟨entry, rfl, harity, dispatch_of_wrongCount hentry harity⟩)

end

-- ---------------------------------------------------------------------------
-- What a call changes
-- ---------------------------------------------------------------------------

theorem answered_eq (r : Registry σ) (name : String) (host : σ)
    (outcome : Except CallError Value) :
    r.answered name host outcome =
      { ((r.setState name .invoked).setState name (.ended outcome)) with
        counts := { r.counts with
          calls := r.counts.calls + 1
          faults := r.counts.faults + if outcome.isOk then 0 else 1 }
        host } := by
  cases outcome <;> rfl

theorem find?_answered (r : Registry σ) (called : String) (host : σ)
    (outcome : Except CallError Value) (name : String) :
    (r.answered called host outcome).find? name =
      (r.find? name).map fun entry =>
        if called = name then { entry with state := .ended outcome } else entry := by
  have same : (r.answered called host outcome).find? name =
      ((r.setState called .invoked).setState called (.ended outcome)).find? name := by
    rw [answered_eq]
    rfl
  rw [same, find?_setState, find?_setState]
  cases r.find? name with
  | none => rfl
  | some entry => by_cases h : called = name <;> simp [h]

/-- The bound functions without their states. -/
def bindings (r : Registry σ) : List (String × Signature × Callback σ) :=
  r.entries.map fun (name, entry) => (name, entry.signature, entry.callback)

theorem lookup_bindings (r : Registry σ) (name : String) :
    r.bindings.lookup name = (r.find? name).map fun entry => (entry.signature, entry.callback) := by
  rw [bindings, find?]
  induction r.entries with
  | nil => rfl
  | cons entry entries ih =>
    rw [List.map_cons, List.lookup_cons, List.lookup_cons, ih]
    cases name == entry.1 <;> rfl

theorem bindings_setState (r : Registry σ) (name : String) (state : CallState) :
    (r.setState name state).bindings = r.bindings := by
  rw [bindings, bindings, setState, List.map_map]
  refine congrArg (List.map · _) (funext fun entry => ?_)
  by_cases h : entry.1 = name <;> simp [h]

theorem bindings_dispatch (r : Registry σ) (session : SessionInfo) (name : String)
    (args : Arguments) : (r.dispatch session name args).2.bindings = r.bindings := by
  obtain ⟨-, hrun⟩ | ⟨entry, -, -, hrun⟩ | ⟨entry, result, reply, host, -, -, -, hrun⟩ :=
    r.dispatch_cases session name args
  · rw [hrun]
  · rw [hrun]
    rfl
  · have same : (r.answered name host (reply.outcome name result)).bindings =
        ((r.setState name .invoked).setState name
          (.ended (reply.outcome name result))).bindings := by
      rw [answered_eq]
      rfl
    rw [hrun, same, bindings_setState, bindings_setState]

section
variable {r' : Registry σ}

theorem contains_of_bindings (h : r.bindings = r'.bindings) : r.contains = r'.contains := by
  funext name
  have hlookup := congrArg Option.isSome (congrArg (List.lookup name) h)
  rwa [lookup_bindings, lookup_bindings, Option.isSome_map, Option.isSome_map] at hlookup

theorem find?_of_bindings (h : r.bindings = r'.bindings) {entry : Registration σ}
    (hentry : r.find? name = some entry) :
    ∃ entry', r'.find? name = some entry' ∧ entry'.signature = entry.signature ∧
      entry'.callback = entry.callback := by
  have hlookup := r.lookup_bindings name
  rw [h, r'.lookup_bindings, hentry, Option.map_some, Option.map_eq_some_iff] at hlookup
  obtain ⟨entry', hentry', hsame⟩ := hlookup
  exact ⟨entry', hentry', (Prod.ext_iff.1 hsame).1, (Prod.ext_iff.1 hsame).2⟩

theorem find?_eq_none_of_bindings (h : r.bindings = r'.bindings)
    (hentry : r.find? name = none) : r'.find? name = none := by
  have hlookup := r.lookup_bindings name
  rwa [h, r'.lookup_bindings, hentry, Option.map_none, Option.map_eq_none_iff] at hlookup

end

theorem running_dispatch (r : Registry σ) (session : SessionInfo) (name : String)
    (args : Arguments) {entry : String × Registration σ}
    (h : entry ∈ (r.dispatch session name args).2.entries) (hstate : entry.2.state = .invoked) :
    entry ∈ r.entries := by
  obtain ⟨-, hrun⟩ | ⟨_, -, -, hrun⟩ | ⟨_, result, reply, host, -, -, -, hrun⟩ :=
    r.dispatch_cases session name args
  · rwa [hrun] at h
  · rwa [hrun] at h
  · rw [hrun, answered_eq, setState, setState, List.map_map, List.mem_map] at h
    obtain ⟨old, hold, rfl⟩ := h
    by_cases hname : old.1 = name
    · simp [hname, CallState.ended_ne_invoked] at hstate
    · simpa [hname] using hold

end Registry

end HostSheet
