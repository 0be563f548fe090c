import HostSheet.Call.Reply
import HostSheet.Signature

/-!
# Registries

A registry binds the functions of one session to their names, one function to a name, and counts
what was called. It also holds the state that the host's functions work on. A call is refused when
its name is not bound or the number of its arguments is wrong; otherwise the function runs once and
its reply decides.
-/

namespace HostSheet

/-- How far a function has come: newly bound, running, or how its last call ended. -/
inductive CallState where
  | registered
  | invoked
  | returned
  | faulted
  deriving Repr, DecidableEq

structure Registration (σ : Type) where
  signature : Signature
  callback : Callback σ
  state : CallState

/-- How many calls ran, how many of those failed, and how many were refused for their arguments. -/
structure CallCounts where
  calls : Nat := 0
  faults : Nat := 0
  arityFailures : Nat := 0
  deriving Repr, DecidableEq

structure Registry (σ : Type) where
  /-- The bound functions by name, the function that was bound last first. -/
  entries : List (String × Registration σ) := []
  counts : CallCounts := {}
  host : σ

namespace Registry

variable {σ : Type}

def empty (host : σ) : Registry σ :=
  { host }

def find? (r : Registry σ) (name : String) : Option (Registration σ) :=
  r.entries.lookup name

def contains (r : Registry σ) (name : String) : Bool :=
  (r.find? name).isSome

def size (r : Registry σ) : Nat :=
  r.entries.length

def names (r : Registry σ) : List String :=
  (r.entries.map (·.1)).mergeSort fun a b => !(b < a)

/-- Binds a function under the name of its signature, in place of what was bound there; the
signature of that is given back. -/
def insert (r : Registry σ) (signature : Signature) (callback : Callback σ) :
    Option Signature × Registry σ :=
  let others := r.entries.filter (·.1 != signature.name)
  ((r.find? signature.name).map (·.signature),
    { r with entries := (signature.name, ⟨signature, callback, .registered⟩) :: others })

/-- Reads a signature and binds a function under it. A signature that does not read changes
nothing. -/
def register (r : Registry σ) (signature : String) (callback : Callback σ) :
    Except SignatureError (Option Signature) × Registry σ :=
  match Signature.parse signature with
  | .error e => (.error e, r)
  | .ok signature =>
    let (replaced, r) := r.insert signature callback
    (.ok replaced, r)

def setState (r : Registry σ) (name : String) (state : CallState) : Registry σ :=
  { r with
    entries := r.entries.map fun (key, entry) =>
      (key, if key == name then { entry with state } else entry) }

def enter (r : Registry σ) (name : String) : Registry σ :=
  { r.setState name .invoked with counts := { r.counts with calls := r.counts.calls + 1 } }

/-- The call has ended with an outcome and left the host in a state. -/
def leave (r : Registry σ) (name : String) (host : σ) :
    Except CallError Value → Registry σ
  | .ok _ => { r.setState name .returned with host }
  | .error _ =>
    { r.setState name .faulted with
      counts := { r.counts with faults := r.counts.faults + 1 }
      host }

def dispatch (r : Registry σ) (session : SessionInfo) (name : String) (args : Arguments) :
    Except CallError Value × Registry σ :=
  match r.find? name with
  | none => (.error (.unregistered name), r)
  | some entry =>
    if entry.signature.arity ≠ args.arity then
      (.error (.wrongCount name entry.signature.arity args.arity),
        { r with counts := { r.counts with arityFailures := r.counts.arityFailures + 1 } })
    else
      let r := r.enter name
      let call := Invocation.ofArguments name session args
      let (result, reply, host) := (entry.callback call).run.run ({}, r.host)
      let outcome := reply.outcome name result
      (outcome, r.leave name host outcome)

end Registry

end HostSheet
