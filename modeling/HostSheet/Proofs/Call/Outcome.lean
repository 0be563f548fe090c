import HostSheet.Call.Script
import Mathlib.Data.List.Induction

/-!
# How a call ends

What a function does to its reply is a finite run of placements, whatever else it does and however
it decides on them. The run and the function's own result decide the outcome of the call: a failed
encoding with nothing placed behind it comes first, then a failure of the function, then the value
that was placed last.
-/

namespace HostSheet

-- ---------------------------------------------------------------------------
-- Placements
-- ---------------------------------------------------------------------------

inductive Placement where
  | put (value : Value)
  | send (value : HostValue)
  | fail (message : String)
  | warn (message : String)

namespace Placement

def value : Placement → Except EncodeError Value
  | .put value => .ok value
  | .send value => encode value
  | .fail message => .ok (.error message)
  | .warn message => .ok (.warning message)

def placed (ops : List Placement) : List Value :=
  ops.filterMap fun op => match op.value with
    | .ok value => some value
    | .error _ => none

def failures (ops : List Placement) : List EncodeError :=
  ops.filterMap fun op => match op.value with
    | .ok _ => none
    | .error cause => some cause

/-- Some encoding failed, and nothing was placed later. -/
def Unanswered (ops : List Placement) : Prop :=
  ∃ before op after, ops = before ++ op :: after ∧ (∃ cause, op.value = .error cause) ∧
    ∀ later ∈ after, ¬ ∃ value, later.value = .ok value

end Placement

open Placement

def Reply.place (reply : Reply) (op : Placement) : Reply :=
  match op.value with
  | .ok value => reply.put value
  | .error cause => { reply with failure := some cause }

-- ---------------------------------------------------------------------------
-- The reply after a run
-- ---------------------------------------------------------------------------

section
variable {ops : List Placement} {op : Placement} {value : Value} {cause : EncodeError}

theorem foldl_place_append (reply : Reply) :
    (ops ++ [op]).foldl Reply.place reply = (ops.foldl Reply.place reply).place op := by
  rw [List.foldl_append, List.foldl_cons, List.foldl_nil]

theorem placed_append_of_ok (h : op.value = .ok value) :
    placed (ops ++ [op]) = placed ops ++ [value] := by
  simp [placed, List.filterMap_append, h]

theorem placed_append_of_error (h : op.value = .error cause) :
    placed (ops ++ [op]) = placed ops := by
  simp [placed, List.filterMap_append, h]

theorem failures_append_of_error (h : op.value = .error cause) :
    failures (ops ++ [op]) = failures ops ++ [cause] := by
  simp [failures, List.filterMap_append, h]

theorem unanswered_append_singleton :
    Unanswered (ops ++ [op]) ↔ ∃ cause, op.value = .error cause := by
  constructor
  · rintro ⟨before, op', after, h, hfail, hlater⟩
    cases after using List.reverseRecOn with
    | nil =>
      obtain ⟨-, hlast⟩ := List.append_inj' h rfl
      cases hlast
      exact hfail
    | append_singleton after last =>
      rw [← List.cons_append, ← List.append_assoc] at h
      obtain ⟨-, hlast⟩ := List.append_inj' h rfl
      cases hlast
      -- The last placement is a later one, so it did not succeed either.
      cases hop : op.value with
      | ok value => exact absurd ⟨value, hop⟩ (hlater op (by simp))
      | error cause => exact ⟨cause, rfl⟩
  · intro h
    exact ⟨ops, op, [], rfl, h, by simp⟩

end

theorem output_foldl_place (ops : List Placement) :
    (ops.foldl Reply.place {}).output = (placed ops).getLast? := by
  induction ops using List.reverseRecOn with
  | nil => rfl
  | append_singleton ops op ih =>
    rw [foldl_place_append, Reply.place]
    cases hop : op.value with
    | ok value => rw [placed_append_of_ok hop, List.getLast?_concat]; rfl
    | error cause => rw [placed_append_of_error hop, ← ih]

theorem failure_of_unanswered {ops : List Placement} (h : Unanswered ops) :
    ∃ cause, (failures ops).getLast? = some cause ∧
      (ops.foldl Reply.place {}).failure = some cause := by
  cases ops using List.reverseRecOn with
  | nil =>
    obtain ⟨before, op, after, happ, -⟩ := h
    simp at happ
  | append_singleton ops op =>
    obtain ⟨cause, hop⟩ := unanswered_append_singleton.1 h
    refine ⟨cause, ?_, ?_⟩
    · rw [failures_append_of_error hop, List.getLast?_concat]
    · rw [foldl_place_append, Reply.place, hop]

theorem failure_of_answered {ops : List Placement} (h : ¬ Unanswered ops) :
    (ops.foldl Reply.place {}).failure = none := by
  cases ops using List.reverseRecOn with
  | nil => rfl
  | append_singleton ops op =>
    rw [unanswered_append_singleton] at h
    rw [foldl_place_append, Reply.place]
    cases hop : op.value with
    | ok value => rfl
    | error cause => exact absurd ⟨cause, hop⟩ h

-- ---------------------------------------------------------------------------
-- What a function performs
-- ---------------------------------------------------------------------------

/-- Work inside a call, started in a state of the host, makes these placements in this order, ends
with a result, and leaves the host in a state. What is done next may depend on everything that came
before, and a failure may be caught. -/
inductive Performs {σ : Type} : {α : Type} → CallM σ α → σ → List Placement →
    Except String α → σ → Prop
  | pure {α host} (a : α) : Performs (pure a) host [] (.ok a) host
  | throw {α host} (message : String) :
      Performs (throw message : CallM σ α) host [] (.error message) host
  | getHost {host} : Performs CallM.getHost host [] (.ok host) host
  | modifyHost {host} (f : σ → σ) : Performs (CallM.modifyHost f) host [] (.ok ()) (f host)
  | put {host} (value : Value) : Performs (CallM.put value) host [.put value] (.ok ()) host
  | send {host} (value : HostValue) :
      Performs (CallM.send value) host [.send value] (.ok ((encode value).map fun _ => ())) host
  | fail {host} (message : String) :
      Performs (CallM.fail message) host [.fail message] (.ok ()) host
  | warn {host} (message : String) :
      Performs (CallM.warn message) host [.warn message] (.ok ()) host
  | bind {α β x host ops a host' ops' result host''} {f : α → CallM σ β} :
      Performs x host ops (.ok a) host' → Performs (f a) host' ops' result host'' →
      Performs (x >>= f) host (ops ++ ops') result host''
  | stop {α β x host ops message host'} {f : α → CallM σ β} :
      Performs x host ops (.error message) host' →
      Performs (x >>= f) host ops (.error message) host'
  | uncaught {α host ops a host'} {x : CallM σ α} {handler : String → CallM σ α} :
      Performs x host ops (.ok a) host' → Performs (tryCatch x handler) host ops (.ok a) host'
  | caught {α host ops message host' ops' result host''} {x : CallM σ α}
      {handler : String → CallM σ α} :
      Performs x host ops (.error message) host' →
      Performs (handler message) host' ops' result host'' →
      Performs (tryCatch x handler) host (ops ++ ops') result host''

theorem Reply.send_eq (reply : Reply) (value : HostValue) :
    reply.send value = ((encode value).map fun _ => (), reply.place (.send value)) := by
  rw [Reply.send, Reply.place, Placement.value]
  cases encode value <;> rfl

theorem run_send {σ : Type} (value : HostValue) (reply : Reply) (host : σ) :
    (CallM.send value).run.run (reply, host) =
      (.ok (reply.send value).1, (reply.send value).2, host) :=
  rfl

/-- The placements account for the whole change of the reply. -/
theorem Performs.run_eq {σ α : Type} {m : CallM σ α} {host host' : σ} {ops : List Placement}
    {result : Except String α} (h : Performs m host ops result host') (reply : Reply) :
    m.run.run (reply, host) = (result, ops.foldl Reply.place reply, host') := by
  induction h generalizing reply with
  | pure => rfl
  | throw => rfl
  | getHost => rfl
  | modifyHost => rfl
  | put => rfl
  | @send host value => rw [run_send, Reply.send_eq, List.foldl_cons, List.foldl_nil]
  | fail => rfl
  | warn => rfl
  | bind _ _ ihx ihf =>
    rw [ExceptT.run_bind, StateT.run_bind, ihx, List.foldl_append]
    exact ihf _
  | stop _ ih =>
    rw [ExceptT.run_bind, StateT.run_bind, ih]
    rfl
  | uncaught _ ih =>
    rw [ExceptT.run_tryCatch, StateT.run_bind, ih]
    rfl
  | caught _ _ ihx ihf =>
    rw [ExceptT.run_tryCatch, StateT.run_bind, ihx, List.foldl_append]
    exact ihf _

def performAll {σ : Type} (result : Except String Unit) : List Placement → CallM σ Unit
  | [] => CallM.orFail id result
  | .put value :: ops => do CallM.put value; performAll result ops
  | .send value :: ops => do let _ ← CallM.send value; performAll result ops
  | .fail message :: ops => do CallM.fail message; performAll result ops
  | .warn message :: ops => do CallM.warn message; performAll result ops

/-- Every run of placements is made by some function, with every result. -/
theorem performs_performAll {σ : Type} (result : Except String Unit) (ops : List Placement)
    (host : σ) : Performs (performAll result ops) host ops result host := by
  induction ops with
  | nil =>
    cases result with
    | ok => exact .pure ()
    | error message => exact .throw message
  | cons op ops ih =>
    cases op with
    | put value => exact .bind (.put value) ih
    | send value => exact .bind (.send value) ih
    | fail message => exact .bind (.fail message) ih
    | warn message => exact .bind (.warn message) ih

/-- Whatever state the host is in, the work makes some run of placements. -/
def Traceable {σ α : Type} (m : CallM σ α) : Prop :=
  ∀ host, ∃ ops result host', Performs m host ops result host'

namespace Traceable

variable {σ α β : Type}

theorem pure (a : α) : Traceable (Pure.pure a : CallM σ α) :=
  fun host => ⟨[], .ok a, host, .pure a⟩

theorem throw (message : String) : Traceable (MonadExcept.throw message : CallM σ α) :=
  fun host => ⟨[], .error message, host, .throw message⟩

theorem bind {x : CallM σ α} {f : α → CallM σ β} (hx : Traceable x)
    (hf : ∀ a, Traceable (f a)) : Traceable (x >>= f) := by
  intro host
  obtain ⟨ops, result, host', h⟩ := hx host
  cases result with
  | error message => exact ⟨ops, .error message, host', .stop h⟩
  | ok a =>
    obtain ⟨ops', result, host'', h'⟩ := hf a host'
    exact ⟨ops ++ ops', result, host'', .bind h h'⟩

theorem getHost : Traceable (CallM.getHost : CallM σ σ) :=
  fun host => ⟨[], .ok host, host, .getHost⟩

theorem modifyHost (f : σ → σ) : Traceable (CallM.modifyHost f) :=
  fun host => ⟨[], .ok (), f host, .modifyHost f⟩

theorem put (value : Value) : Traceable (CallM.put value : CallM σ Unit) :=
  fun host => ⟨[.put value], .ok (), host, .put value⟩

theorem send (value : HostValue) : Traceable (CallM.send value : CallM σ _) :=
  fun host => ⟨[.send value], _, host, .send value⟩

theorem fail (message : String) : Traceable (CallM.fail message : CallM σ Unit) :=
  fun host => ⟨[.fail message], .ok (), host, .fail message⟩

theorem warn (message : String) : Traceable (CallM.warn message : CallM σ Unit) :=
  fun host => ⟨[.warn message], .ok (), host, .warn message⟩

theorem orFail {ε : Type} (message : ε → String) (result : Except ε α) :
    Traceable (CallM.orFail message result : CallM σ α) := by
  cases result with
  | ok a => exact pure a
  | error e => exact throw (message e)

theorem sendOrFail (value : HostValue) :
    Traceable (do CallM.orFail EncodeError.message (← CallM.send value) : CallM σ Unit) :=
  bind (send value) (orFail EncodeError.message)

theorem forIn {f : α → β → CallM σ (ForInStep β)} (hf : ∀ a b, Traceable (f a b))
    (items : List α) (b : β) : Traceable (ForIn.forIn items b f) := by
  induction items generalizing b with
  | nil =>
    rw [List.forIn_nil]
    exact pure b
  | cons item items ih =>
    rw [List.forIn_cons]
    refine bind (hf item b) fun step => ?_
    cases step with
    | done b => exact pure b
    | yield b => exact ih b

theorem noteResult {ε : Type} (required : Bool) (message : ε → String)
    (observe : Except ε α → Observation) (result : Except ε α) :
    Traceable (Action.noteResult required message observe result) := by
  refine bind (modifyHost _) fun _ => ?_
  cases required <;> cases result
  case true.error e => exact throw (message e)
  all_goals exact pure ()

theorem run (registration : Nat) (call : Invocation) (action : Action) :
    Traceable (action.run registration call) := by
  unfold Action.run
  cases action with
  | observe => exact modifyHost _
  | decode => exact noteResult _ _ _ _
  | decodeArgs => exact noteResult _ _ _ _
  | unmarshal => exact noteResult _ _ _ _
  | send value => exact bind (send value) fun _ => noteResult _ _ _ _
  | put value => exact put value
  | echo => exact put call.raw
  | argument => exact put _
  | reencode => exact bind (orFail _ _) sendOrFail
  | scale => exact bind (orFail _ _) fun _ => sendOrFail _
  | add => exact bind (orFail _ _) fun _ => sendOrFail _
  | count => exact bind getHost fun _ => sendOrFail _
  | fail message => exact fail message
  | warn message => exact warn message
  | raise message => exact throw message

/-- Every scripted function makes a run of placements, at every call. -/
theorem callback (registration : Nat) (script : List Action) (call : Invocation) :
    Traceable (Action.callback registration script call) := by
  refine bind (modifyHost _) fun _ => ?_
  exact bind (forIn (fun action _ => bind (run _ _ _) fun _ => pure _) script _) fun _ => pure _

end Traceable

-- ---------------------------------------------------------------------------
-- The outcome
-- ---------------------------------------------------------------------------

section
variable {σ : Type} {r : Registry σ} {session : SessionInfo} {name : String} {args : Arguments}
  {entry : Registration σ}

theorem dispatch_eq_outcome {ops : List Placement} {result : Except String Unit} {host : σ}
    (hentry : r.find? name = some entry) (harity : entry.signature.arity = args.arity)
    (hops : Performs (entry.callback (.ofArguments name session args)) r.host ops result host) :
    (r.dispatch session name args).1 = (ops.foldl Reply.place {}).outcome name result := by
  have hrun : (entry.callback (.ofArguments name session args)).run.run ({}, (r.enter name).host) =
      (result, ops.foldl Reply.place {}, host) := hops.run_eq {}
  rw [Registry.dispatch, hentry]
  simp only [ne_eq, harity, not_true_eq_false, if_false, hrun]

/-- How a call ends that is let in. A failed encoding that nothing was placed behind outweighs
everything, and it is the last such failure that is reported; else a failure of the function
outweighs what it placed; else the last placed value decides. -/
theorem dispatch_outcome {ops : List Placement} {result : Except String Unit} {host : σ}
    (hentry : r.find? name = some entry) (harity : entry.signature.arity = args.arity)
    (hops : Performs (entry.callback (.ofArguments name session args)) r.host ops result host) :
    (Unanswered ops → ∃ cause, (failures ops).getLast? = some cause ∧
      (r.dispatch session name args).1 = .error (.unsupported name cause)) ∧
    (¬ Unanswered ops → ∀ cause, result = .error cause →
      (r.dispatch session name args).1 = .error (.failed name cause)) ∧
    (¬ Unanswered ops → result = .ok () →
      (r.dispatch session name args).1 =
        match (placed ops).getLast? with
        | some (.error message) => .error (.failed name message)
        | some value => .ok value
        | none => .ok .null) := by
  rw [dispatch_eq_outcome hentry harity hops]
  refine ⟨?_, ?_, ?_⟩
  · intro h
    obtain ⟨cause, hlast, hfailure⟩ := failure_of_unanswered h
    refine ⟨cause, hlast, ?_⟩
    rw [Reply.outcome.eq_def, hfailure]
  · rintro h cause rfl
    rw [Reply.outcome.eq_def, failure_of_answered h]
  · rintro h rfl
    rw [Reply.outcome.eq_def, failure_of_answered h, output_foldl_place]
    cases (placed ops).getLast? with
    | none => rfl
    | some value => cases value <;> rfl

end

/-- A function that places a value, then fails twice to encode another, ignores that, and ends with
a failure of its own. -/
theorem dispatch_outcome_ignored :
    let ops : List Placement :=
      [.put .null, .send (.foreign "clock"), .warn "late", .send (.sequence [.foreign "clock"]),
        .send (.function 0)]
    let callback : Callback Unit := fun _ => performAll (.error "too late") ops
    let entry : Registration Unit := ⟨⟨"f", ["x"]⟩, callback, .registered⟩
    let r : Registry Unit := { entries := [("f", entry)], host := () }
    let args : Arguments := ⟨[.bool true]⟩
    r.find? "f" = some entry ∧ entry.signature.arity = args.arity ∧
      Performs (entry.callback (.ofArguments "f" ⟨0, "main"⟩ args)) r.host ops
        (.error "too late") () ∧
      (r.dispatch ⟨0, "main"⟩ "f" args).1 =
        .error (.unsupported "f" (.unsupported "function")) := by
  intro ops callback entry r args
  have performs : Performs (entry.callback (.ofArguments "f" ⟨0, "main"⟩ args)) r.host ops
      (.error "too late") () := performs_performAll _ ops ()
  have unanswered : Unanswered ops :=
    ⟨ops.take 4, .send (.function 0), [], rfl, ⟨_, rfl⟩, by simp⟩
  obtain ⟨cause, hlast, houtcome⟩ := (dispatch_outcome rfl rfl performs).1 unanswered
  cases hlast
  exact ⟨rfl, rfl, performs, houtcome⟩

end HostSheet
