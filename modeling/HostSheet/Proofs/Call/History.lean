import HostSheet.Proofs.Call.Dispatch
import Mathlib.Data.List.DropRight
import Mathlib.Data.List.Induction
import Mathlib.Data.List.Nodup

/-!
# The history of a registry

A registry is as its history tells: which functions are bound, how far each has come, and what was
counted can be read off the operations so far and their answers alone.
-/

namespace HostSheet.Registry

variable {σ : Type}

-- ---------------------------------------------------------------------------
-- Operations
-- ---------------------------------------------------------------------------

inductive Operation (σ : Type) where
  | register (signature : String) (callback : Callback σ)
  | insert (signature : Signature) (callback : Callback σ)
  | dispatch (session : SessionInfo) (name : String) (args : Arguments)

inductive Record (σ : Type) where
  | register (signature : String) (callback : Callback σ)
      (answer : Except SignatureError (Option Signature))
  | insert (signature : Signature) (callback : Callback σ) (answer : Option Signature)
  | dispatch (session : SessionInfo) (name : String) (args : Arguments)
      (outcome : Except CallError Value)

def Record.operation : Record σ → Operation σ
  | .register signature callback _ => .register signature callback
  | .insert signature callback _ => .insert signature callback
  | .dispatch session name args _ => .dispatch session name args

def perform (r : Registry σ) : Operation σ → Record σ × Registry σ
  | .register signature callback =>
    let (answer, r) := r.register signature callback
    (.register signature callback answer, r)
  | .insert signature callback =>
    let (answer, r) := r.insert signature callback
    (.insert signature callback answer, r)
  | .dispatch session name args =>
    let (outcome, r) := r.dispatch session name args
    (.dispatch session name args outcome, r)

def run (r : Registry σ) : List (Operation σ) → List (Record σ) × Registry σ
  | [] => ([], r)
  | op :: ops =>
    let (record, r) := r.perform op
    let (records, r) := r.run ops
    (record :: records, r)

theorem run_append_singleton (r : Registry σ) (ops : List (Operation σ)) (op : Operation σ) :
    r.run (ops ++ [op]) =
      ((r.run ops).1 ++ [((r.run ops).2.perform op).1], ((r.run ops).2.perform op).2) := by
  induction ops generalizing r with
  | nil => rfl
  | cons first ops ih => simp only [List.cons_append, run, ih]

theorem operation_perform (r : Registry σ) (op : Operation σ) :
    (r.perform op).1.operation = op := by
  cases op <;> rfl

-- ---------------------------------------------------------------------------
-- What a history tells
-- ---------------------------------------------------------------------------

def Record.binding? : Record σ → Option (Signature × Callback σ)
  | .register signature callback _ => (Signature.parse signature).toOption.map (·, callback)
  | .insert signature callback _ => some (signature, callback)
  | .dispatch .. => none

def Record.binds (name : String) (record : Record σ) : Bool :=
  record.binding?.any (·.1.name == name)

def Record.outcome? (name : String) (arity : Nat) : Record σ → Option (Except CallError Value)
  | .dispatch _ called args outcome =>
    if called = name ∧ args.arity = arity then some outcome else none
  | _ => none

def lastBinding? (records : List (Record σ)) (name : String) : Option (Signature × Callback σ) :=
  (records.filterMap Record.binding?).reverse.find? (·.1.name == name)

def sinceBinding (records : List (Record σ)) (name : String) : List (Record σ) :=
  records.rtakeWhile (!·.binds name)

def stateAfter (outcomes : List (Except CallError Value)) : CallState :=
  match outcomes.getLast? with
  | none => .registered
  | some (.ok _) => .returned
  | some (.error _) => .faulted

/-- The operation called a name that was bound, and the number of arguments is as `ok` asks. -/
def Record.calledWith (ok : Nat → Nat → Bool) (past : List (Record σ)) : Record σ → Bool
  | .dispatch _ name args _ => (lastBinding? past name).any (ok ·.1.arity args.arity)
  | _ => false

def Record.admitted (past : List (Record σ)) (record : Record σ) : Bool :=
  record.calledWith (· == ·) past

def Record.refused (past : List (Record σ)) (record : Record σ) : Bool :=
  record.calledWith (· != ·) past

def Record.failed : Record σ → Bool
  | .dispatch _ _ _ (.error _) => true
  | _ => false

/-- Records that stand behind a past, each with all that came before it. -/
def withPast (past : List (Record σ)) : List (Record σ) → List (List (Record σ) × Record σ)
  | [] => []
  | record :: records => (past, record) :: withPast (past ++ [record]) records

def countsIn (records : List (Record σ)) : CallCounts where
  calls := (withPast [] records).countP fun (past, record) => record.admitted past
  faults := (withPast [] records).countP fun (past, record) =>
    record.admitted past && record.failed
  arityFailures := (withPast [] records).countP fun (past, record) => record.refused past

def registrationIn (records : List (Record σ)) (name : String) : Option (Registration σ) :=
  (lastBinding? records name).map fun (signature, callback) =>
    let outcomes := (sinceBinding records name).filterMap (·.outcome? name signature.arity)
    ⟨signature, callback, stateAfter outcomes⟩

/-- What an operation gives back after a past: binding a function gives back what was bound under
its name, and a call that is not let in says why. -/
def Record.Answers (past : List (Record σ)) : Record σ → Prop
  | .register text _ answer =>
    answer = (Signature.parse text).map fun signature =>
      (lastBinding? past signature.name).map (·.1)
  | .insert signature _ answer => answer = (lastBinding? past signature.name).map (·.1)
  | .dispatch _ name args outcome =>
    match lastBinding? past name with
    | none => outcome = .error (.unregistered name)
    | some (signature, _) =>
      signature.arity ≠ args.arity →
        outcome = .error (.wrongCount name signature.arity args.arity)

/-- The operation binds nothing and calls nothing: its signature does not read, or its name is not
bound. -/
def Operation.Idle (past : List (Record σ)) : Operation σ → Prop
  | .register text _ => ∃ cause, Signature.parse text = .error cause
  | .insert .. => False
  | .dispatch _ name _ => lastBinding? past name = none

/-- A registry is as its history tells. -/
structure Recounts (r : Registry σ) (records : List (Record σ)) : Prop where
  find : ∀ name, r.find? name = registrationIn records name
  names : (r.entries.map (·.1)).Nodup
  counts : r.counts = countsIn records

-- ---------------------------------------------------------------------------
-- One more record
-- ---------------------------------------------------------------------------

section
variable {records : List (Record σ)} {record : Record σ} {name : String}

theorem withPast_append_singleton (past records : List (Record σ)) (record : Record σ) :
    withPast past (records ++ [record]) = withPast past records ++ [(past ++ records, record)] := by
  induction records generalizing past with
  | nil => simp [withPast]
  | cons first records ih => simp [withPast, ih]

theorem countsIn_append_singleton (records : List (Record σ)) (record : Record σ) :
    countsIn (records ++ [record]) =
      { calls := (countsIn records).calls + if record.admitted records then 1 else 0
        faults := (countsIn records).faults +
          if record.admitted records && record.failed then 1 else 0
        arityFailures := (countsIn records).arityFailures +
          if record.refused records then 1 else 0 } := by
  simp only [countsIn, withPast_append_singleton, List.nil_append, List.countP_append,
    List.countP_singleton]

theorem lastBinding?_append_singleton (records : List (Record σ)) (record : Record σ)
    (name : String) :
    lastBinding? (records ++ [record]) name =
      if record.binds name then record.binding? else lastBinding? records name := by
  rw [lastBinding?, Record.binds, List.filterMap_append, List.reverse_append, List.find?_append]
  cases h : record.binding? with
  | none => simp [List.filterMap_cons_none h, lastBinding?]
  | some b => by_cases hb : b.1.name = name <;> simp [List.filterMap_cons_some h, lastBinding?, hb]

theorem sinceBinding_append_singleton (records : List (Record σ)) (record : Record σ)
    (name : String) :
    sinceBinding (records ++ [record]) name =
      if record.binds name then [] else sinceBinding records name ++ [record] := by
  rw [sinceBinding, List.rtakeWhile_concat]
  cases record.binds name <;> rfl

theorem stateAfter_append_singleton (outcomes : List (Except CallError Value))
    (outcome : Except CallError Value) :
    stateAfter (outcomes ++ [outcome]) = .ended outcome := by
  rw [stateAfter, List.getLast?_concat]
  cases outcome <;> rfl

theorem stateAfter_ne_invoked (outcomes : List (Except CallError Value)) :
    stateAfter outcomes ≠ .invoked := by
  rw [stateAfter]
  split <;> simp

theorem registrationIn_of_binds {signature : Signature} {callback : Callback σ}
    (h : record.binding? = some (signature, callback)) :
    registrationIn (records ++ [record]) signature.name =
      some ⟨signature, callback, .registered⟩ := by
  have binds : record.binds signature.name = true := by simp [Record.binds, h]
  simp [registrationIn, lastBinding?_append_singleton, sinceBinding_append_singleton, binds, h,
    stateAfter]

theorem registrationIn_of_not_binds (h : record.binds name = false) :
    registrationIn (records ++ [record]) name =
      (registrationIn records name).map fun entry =>
        match record.outcome? name entry.signature.arity with
        | none => entry
        | some outcome => { entry with state := .ended outcome } := by
  simp only [registrationIn, lastBinding?_append_singleton, sinceBinding_append_singleton, h,
    Bool.false_eq_true, if_false, Option.map_map, List.filterMap_append]
  refine congrArg (Option.map · _) (funext fun (signature, callback) => ?_)
  cases houtcome : record.outcome? name signature.arity with
  | none => simp [List.filterMap_cons_none houtcome, houtcome]
  | some outcome =>
    simp [List.filterMap_cons_some houtcome, houtcome, stateAfter_append_singleton]

end

-- ---------------------------------------------------------------------------
-- One more operation
-- ---------------------------------------------------------------------------

section
variable {r : Registry σ} {records : List (Record σ)}

theorem Recounts.lastBinding?_eq (h : r.Recounts records) (name : String) :
    lastBinding? records name =
      (r.find? name).map fun entry => (entry.signature, entry.callback) := by
  rw [h.find, registrationIn, Option.map_map]
  exact Option.map_id'.symm

theorem Recounts.empty (host : σ) : (Registry.empty host).Recounts [] where
  find _ := rfl
  names := .nil
  counts := rfl

theorem countsIn_of_not_called {record : Record σ}
    (h : ∀ ok, record.calledWith ok records = false) :
    countsIn (records ++ [record]) = countsIn records := by
  simp [countsIn_append_singleton, Record.admitted, Record.refused, h]

/-- Of a function that is still the same registration, nothing was told. -/
theorem registrationIn_of_untold {record : Record σ} {name : String}
    (hbinds : record.binds name = false)
    (houtcome : ∀ entry, r.find? name = some entry →
      record.outcome? name entry.signature.arity = none)
    (h : r.find? name = registrationIn records name) :
    r.find? name = registrationIn (records ++ [record]) name := by
  rw [registrationIn_of_not_binds hbinds, ← h]
  cases hentry : r.find? name with
  | none => rfl
  | some entry => rw [Option.map_some, houtcome entry hentry]

theorem Recounts.unread (h : r.Recounts records) {text : String} {callback : Callback σ}
    {cause : SignatureError} (hparse : Signature.parse text = .error cause) :
    r.Recounts (records ++ [.register text callback (.error cause)]) where
  find name :=
    registrationIn_of_untold (by simp [Record.binds, Record.binding?, hparse, Except.toOption])
      (fun _ _ => rfl) (h.find name)
  names := h.names
  counts := h.counts.trans (countsIn_of_not_called fun _ => rfl).symm

theorem Recounts.insert (h : r.Recounts records) {record : Record σ} {signature : Signature}
    {callback : Callback σ} (hbinding : record.binding? = some (signature, callback))
    (hcalled : ∀ ok, record.calledWith ok records = false)
    (houtcome : ∀ name arity, record.outcome? name arity = none) :
    (r.insert signature callback).2.Recounts (records ++ [record]) where
  find name := by
    rw [find?_insert]
    by_cases hname : signature.name = name
    · rw [if_pos hname, ← hname, registrationIn_of_binds hbinding]
    · rw [if_neg hname]
      exact registrationIn_of_untold (by simp [Record.binds, hbinding, hname])
        (fun _ _ => houtcome _ _) (h.find name)
  names := by
    simp only [Registry.insert, List.map_cons, List.nodup_cons]
    constructor
    · simp
    · exact h.names.sublist (List.filter_sublist.map _)
  counts := h.counts.trans (countsIn_of_not_called hcalled).symm

theorem Recounts.dispatch (h : r.Recounts records) (session : SessionInfo) (name : String)
    (args : Arguments) :
    (r.dispatch session name args).2.Recounts
      (records ++ [.dispatch session name args (r.dispatch session name args).1]) := by
  have hlast := h.lastBinding?_eq name
  have hnames : ((r.dispatch session name args).2.entries.map (·.1)).Nodup := by
    have hkeys := congrArg (List.map (·.1)) (r.bindings_dispatch session name args)
    rw [bindings, bindings, List.map_map, List.map_map] at hkeys
    exact hkeys ▸ h.names
  obtain ⟨hentry, hrun⟩ | ⟨entry, hentry, harity, hrun⟩ |
    ⟨entry, result, reply, host, hentry, harity, -, hrun⟩ := r.dispatch_cases session name args
  all_goals rw [hrun] at hnames ⊢
  · -- The name is not bound: nothing is changed, and nothing is told of any function.
    rw [hentry, Option.map_none] at hlast
    refine ⟨fun other => ?_, hnames, ?_⟩
    · refine registrationIn_of_untold rfl (fun entry hother => ?_) (h.find other)
      have : name ≠ other := by rintro rfl; simp [hentry] at hother
      simp [Record.outcome?, this]
    · exact h.counts.trans
        (countsIn_of_not_called fun _ => by simp [Record.calledWith, hlast]).symm
  · -- The call is refused: it is counted, and again nothing is told of any function.
    rw [hentry, Option.map_some] at hlast
    refine ⟨fun other => ?_, hnames, ?_⟩
    · refine registrationIn_of_untold rfl (fun entry' hother => ?_) (h.find other)
      by_cases hname : name = other
      · subst hname
        cases hentry.symm.trans hother
        simp [Record.outcome?, Ne.symm harity]
      · simp [Record.outcome?, hname]
    · rw [countsIn_append_singleton, ← h.counts]
      simp [refused, Record.admitted, Record.refused, Record.calledWith, hlast, harity]
  · -- The call is let in: only the function that was called has a new state.
    rw [hentry, Option.map_some] at hlast
    refine ⟨fun other => ?_, hnames, ?_⟩
    · rw [find?_answered, registrationIn_of_not_binds rfl, ← h.find]
      by_cases hname : name = other
      · subst hname
        simp [hentry, Record.outcome?, harity]
      · cases r.find? other <;> simp [Record.outcome?, hname]
    · rw [countsIn_append_singleton, ← h.counts, answered_eq]
      cases reply.outcome name result <;>
        simp [Record.admitted, Record.refused, Record.failed, Record.calledWith, hlast, harity,
          Except.isOk, Except.toBool]

theorem Recounts.perform (h : r.Recounts records) (op : Operation σ) :
    (r.perform op).2.Recounts (records ++ [(r.perform op).1]) := by
  cases op with
  | register text callback =>
    cases hparse : Signature.parse text with
    | error cause => simpa [Registry.perform, Registry.register, hparse] using h.unread hparse
    | ok signature =>
      have hbinding : (Record.register text callback
          (.ok (r.insert signature callback).1)).binding? = some (signature, callback) := by
        simp [Record.binding?, hparse, Except.toOption]
      simpa [Registry.perform, Registry.register, hparse] using
        h.insert hbinding (fun _ => rfl) (fun _ _ => rfl)
  | insert signature callback => exact h.insert rfl (fun _ => rfl) (fun _ _ => rfl)
  | dispatch session name args => exact h.dispatch session name args

theorem Recounts.answers (h : r.Recounts records) (op : Operation σ) :
    (r.perform op).1.Answers records := by
  cases op with
  | register text callback =>
    cases hparse : Signature.parse text with
    | error cause => simp [Registry.perform, Registry.register, hparse, Record.Answers, Except.map]
    | ok signature =>
      simp [Registry.perform, Registry.register, hparse, Record.Answers, Except.map,
        h.lastBinding?_eq, Registry.insert, Function.comp_def]
  | insert signature callback =>
    simp [Registry.perform, Record.Answers, h.lastBinding?_eq, Registry.insert, Function.comp_def]
  | dispatch session name args =>
    have hlast := h.lastBinding?_eq name
    simp only [Registry.perform, Record.Answers]
    obtain ⟨hentry, hrun⟩ | ⟨entry, hentry, harity, hrun⟩ |
      ⟨entry, result, reply, host, hentry, harity, -, hrun⟩ := r.dispatch_cases session name args
    all_goals rw [hlast, hentry, hrun]
    · rfl
    · exact fun _ => rfl
    · exact fun hne => absurd harity hne

theorem Recounts.perform_idle (h : r.Recounts records) {op : Operation σ} (hop : op.Idle records) :
    (r.perform op).2 = r := by
  cases op with
  | register text callback =>
    obtain ⟨cause, hparse⟩ := hop
    simp [Registry.perform, Registry.register, hparse]
  | insert signature callback => exact hop.elim
  | dispatch session name args =>
    have hentry : r.find? name = none := by
      rw [← Option.map_eq_none_iff, ← h.lastBinding?_eq]
      exact hop
    rw [Registry.perform, dispatch_of_unbound hentry]

end

-- ---------------------------------------------------------------------------
-- Whole histories
-- ---------------------------------------------------------------------------

theorem recounts_run (host : σ) (ops : List (Operation σ)) :
    ((Registry.empty host).run ops).2.Recounts ((Registry.empty host).run ops).1 := by
  induction ops using List.reverseRecOn with
  | nil => exact .empty host
  | append_singleton ops op ih =>
    rw [run_append_singleton]
    exact ih.perform op

theorem operation_run (r : Registry σ) (ops : List (Operation σ)) :
    (r.run ops).1.map Record.operation = ops := by
  induction ops generalizing r with
  | nil => rfl
  | cons op ops ih => simp only [run, List.map_cons, operation_perform, ih]

theorem answers_run (host : σ) (ops : List (Operation σ)) :
    ∀ past ∈ withPast [] ((Registry.empty host).run ops).1, past.2.Answers past.1 := by
  induction ops using List.reverseRecOn with
  | nil => simp [run, withPast]
  | append_singleton ops op ih =>
    rw [run_append_singleton, withPast_append_singleton, List.nil_append, List.forall_mem_append,
      List.forall_mem_singleton]
    exact ⟨ih, (recounts_run host ops).answers op⟩

theorem lastBinding?_isSome_iff {records : List (Record σ)} {name : String} :
    (lastBinding? records name).isSome ↔ ∃ record ∈ records, record.binds name = true := by
  simp only [lastBinding?, List.find?_isSome, List.mem_reverse, List.mem_filterMap, Record.binds,
    Option.any_eq_true]
  constructor
  · rintro ⟨b, ⟨record, hmem, hb⟩, hname⟩
    exact ⟨record, hmem, b, hb, hname⟩
  · rintro ⟨record, hmem, b, hb, hname⟩
    exact ⟨b, ⟨record, hmem, hb⟩, hname⟩

theorem Recounts.contains_iff {r : Registry σ} {records : List (Record σ)}
    (h : r.Recounts records) {name : String} :
    r.contains name = true ↔ ∃ record ∈ records, record.binds name = true := by
  rw [← lastBinding?_isSome_iff, h.lastBinding?_eq, Option.isSome_map, contains]

/-- What a registry finds under a name was bound under the name of its own signature. -/
theorem Recounts.name_of_find? {r : Registry σ} {records : List (Record σ)} (h : r.Recounts records)
    {name : String} {entry : Registration σ} (hentry : r.find? name = some entry) :
    entry.signature.name = name := by
  have hlast := h.lastBinding?_eq name
  rw [hentry, Option.map_some, lastBinding?] at hlast
  simpa using List.find?_some hlast

/-- After every sequence of operations on an empty registry, the registry is as the operations and
their answers tell. A name is bound if it was ever bound, to the function that was bound last, and
its entry stands under the name of its own signature. Its state tells how the last call ended that
was let in since, if there was one; no function is left running. The counts are the numbers of calls
that were let in, of those that failed, and of those refused. Each operation gave back what its past
determines. What neither binds nor calls a function changes nothing. -/
theorem run_tells (host : σ) (ops : List (Operation σ)) :
    let records := ((Registry.empty host).run ops).1
    let r := ((Registry.empty host).run ops).2
    records.map Record.operation = ops ∧
    (∀ name, r.contains name = true ↔ ∃ record ∈ records, record.binds name = true) ∧
    (∀ name, (r.find? name).map (fun entry => (entry.signature, entry.callback)) =
      lastBinding? records name) ∧
    (∀ name entry, (name, entry) ∈ r.entries →
      entry.signature.name = name ∧ r.find? name = some entry) ∧
    (∀ name entry, r.find? name = some entry → entry.signature.name = name ∧
      entry.state = stateAfter ((sinceBinding records name).filterMap
        (·.outcome? name entry.signature.arity)) ∧ entry.state ≠ .invoked) ∧
    r.counts = countsIn records ∧
    (∀ past record, (past, record) ∈ withPast [] records → record.Answers past) ∧
    (∀ op : Operation σ, op.Idle records → (r.perform op).2 = r) := by
  intro records r
  have recounts : r.Recounts records := recounts_run host ops
  refine ⟨operation_run _ ops, fun name => recounts.contains_iff,
    fun name => (recounts.lastBinding?_eq name).symm, fun name entry hentry => ?_,
    fun name entry hentry => ?_, recounts.counts, fun past record h => answers_run host ops _ h,
    fun op hop => recounts.perform_idle hop⟩
  · have hfound := find?_of_mem recounts.names hentry
    exact ⟨recounts.name_of_find? hfound, hfound⟩
  have hname : entry.signature.name = name := recounts.name_of_find? hentry
  have hstate : entry.state = stateAfter ((sinceBinding records name).filterMap
      (·.outcome? name entry.signature.arity)) := by
    rw [recounts.find, registrationIn, Option.map_eq_some_iff] at hentry
    obtain ⟨b, -, rfl⟩ := hentry
    rfl
  exact ⟨hname, hstate, hstate ▸ stateAfter_ne_invoked _⟩

end HostSheet.Registry
