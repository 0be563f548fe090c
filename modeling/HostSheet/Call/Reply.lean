import HostSheet.Call.Invocation

/-!
# Replies

A function answers by placing a value. A later value replaces an earlier one, and a value that
cannot be encoded is remembered until a later one is placed: a function that ignores the failure and
places nothing else has not answered.
-/

namespace HostSheet

structure Reply where
  output : Option Value := none
  /-- The last encoding failure, if nothing was placed after it. -/
  failure : Option EncodeError := none
  deriving Repr

namespace Reply

def put (_ : Reply) (value : Value) : Reply :=
  ⟨some value, none⟩

/-- Places a host value, or remembers why it cannot be placed. -/
def send (reply : Reply) (value : HostValue) : Except EncodeError Unit × Reply :=
  match encode value with
  | .ok value => (.ok (), reply.put value)
  | .error e => (.error e, { reply with failure := some e })

end Reply

/-- Why a call has no value. -/
inductive CallError where
  | unregistered (function : String)
  | wrongCount (function : String) (expected given : Nat)
  /-- The function failed, or its answer is an error value. -/
  | failed (function cause : String)
  /-- The answer cannot be encoded. -/
  | unsupported (function : String) (cause : EncodeError)
  deriving Repr, DecidableEq

namespace CallError

def function : CallError → String
  | .unregistered function | .wrongCount function .. | .failed function _
  | .unsupported function _ => function

def message : CallError → String
  | .unregistered function => "function " ++ function ++ " is not registered"
  | .wrongCount function expected given =>
    "function " ++ function ++ " only takes " ++ toString expected ++ " arguments; given " ++
      toString given
  | .failed function cause => "error in function " ++ function ++ ": " ++ cause
  | .unsupported function cause =>
    "function " ++ function ++ " returned an unsupported value: " ++ cause.message

end CallError

/-- The value of a call whose function ended with `result`. An encoding failure outweighs
everything; a failure of the function outweighs what it placed; a function that placed nothing
answers null. -/
def Reply.outcome (reply : Reply) (function : String) (result : Except String Unit) :
    Except CallError Value :=
  match reply.failure, result, reply.output with
  | some cause, _, _ => .error (.unsupported function cause)
  | none, .error cause, _ => .error (.failed function cause)
  | none, .ok (), some (.error message) => .error (.failed function message)
  | none, .ok (), some value => .ok value
  | none, .ok (), none => .ok .null

/-- Work inside one call: it can fail with a text, place a reply, and use the host's own state,
which outlives a failure. -/
abbrev CallM (σ : Type) := ExceptT String (StateM (Reply × σ))

abbrev Callback (σ : Type) := Invocation → CallM σ Unit

namespace CallM

variable {σ : Type}

def put (value : Value) : CallM σ Unit :=
  modify fun (reply, host) => (reply.put value, host)

/-- Places a host value and says whether that worked. -/
def send (value : HostValue) : CallM σ (Except EncodeError Unit) :=
  modifyGet fun (reply, host) =>
    let (result, reply) := reply.send value
    (result, reply, host)

def fail (message : String) : CallM σ Unit :=
  put (.error message)

def warn (message : String) : CallM σ Unit :=
  put (.warning message)

def modifyHost (f : σ → σ) : CallM σ Unit :=
  modify fun (reply, host) => (reply, f host)

def getHost : CallM σ σ := do
  return (← get).2

def orFail {ε α : Type} (message : ε → String) : Except ε α → CallM σ α
  | .ok a => return a
  | .error e => throw (message e)

end CallM

end HostSheet
