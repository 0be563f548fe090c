import HostSheet.Registry

/-!
# Scripted functions

A host function can be written as a script: a list of actions that are carried out in order at every
call. Scripts make a host out of data. What the actions see is noted in a log, and each registration
counts the calls it has answered.
-/

namespace HostSheet

/-- One step of a scripted function. An action that is `required` ends the function when it fails;
otherwise its failure is only noted. -/
inductive Action where
  /-- Notes what the function was told. -/
  | observe
  | decode (shape : Shape) (required : Bool)
  | decodeArgs (shapes : List Shape) (required : Bool)
  | unmarshal (type : HostType) (required : Bool)
  | send (value : HostValue) (required : Bool)
  | put (value : Value)
  /-- Answers with the packed arguments. -/
  | echo
  /-- Answers with one argument, or with null where there is none. -/
  | argument (index : Nat)
  /-- Answers with the packed arguments, decoded and encoded again. -/
  | reencode (shape : Shape)
  /-- Answers with a number argument times a factor, in its own unit. -/
  | scale (factor : Float)
  /-- Answers with the sum of two number arguments, in the unit of the first. -/
  | add
  /-- Answers with the number of calls this registration has answered, this one included. -/
  | count
  | fail (message : String)
  | warn (message : String)
  /-- Ends the function with a failure. -/
  | raise (message : String)
  deriving Repr

inductive Observation where
  | invoked (call : Invocation)
  | decoded (result : Except DecodeError HostValue)
  | decodedArgs (result : Except DecodeError (List HostValue))
  | sent (result : Except EncodeError Unit)

/-- The state of a scripted host: the log, and for each registration the number of its calls. -/
structure ScriptHost where
  log : List Observation := []
  calls : List Nat := []

namespace ScriptHost

def note (host : ScriptHost) (observation : Observation) : ScriptHost :=
  { host with log := host.log ++ [observation] }

def callsOf (host : ScriptHost) (registration : Nat) : Nat :=
  host.calls.getD registration 0

def countCall (host : ScriptHost) (registration : Nat) : ScriptHost :=
  { host with calls := host.calls.modify registration (· + 1) }

/-- Makes room for one more registration, and says which one it is. -/
def newRegistration (host : ScriptHost) : Nat × ScriptHost :=
  (host.calls.length, { host with calls := host.calls ++ [0] })

def clearLog (host : ScriptHost) : ScriptHost :=
  { host with log := [] }

end ScriptHost

namespace Action

/-- Notes a result, and ends the function if it failed and was required. -/
def noteResult {ε α : Type} (required : Bool) (message : ε → String)
    (observe : Except ε α → Observation) (result : Except ε α) : CallM ScriptHost Unit := do
  CallM.modifyHost (·.note (observe result))
  match required, result with
  | true, .error e => throw (message e)
  | _, _ => return ()

def run (registration : Nat) (call : Invocation) : Action → CallM ScriptHost Unit
  | .observe => CallM.modifyHost (·.note (.invoked call))
  | .decode shape required =>
    noteResult required DecodeError.message .decoded (call.decode shape)
  | .decodeArgs shapes required =>
    noteResult required DecodeError.message .decodedArgs (call.decodeArgs shapes)
  | .unmarshal type required =>
    noteResult required DecodeError.message .decoded ((call.unmarshal type).map type.toHost)
  | .send value required => do
    noteResult required EncodeError.message .sent (← CallM.send value)
  | .put value => CallM.put value
  | .echo => CallM.put call.raw
  | .argument index => CallM.put (call.args.getD index .null)
  | .reencode shape => do
    let value ← CallM.orFail DecodeError.message (call.decode shape)
    CallM.orFail EncodeError.message (← CallM.send value)
  | .scale factor => do
    let (number : Number) ← CallM.orFail DecodeError.message (call.unmarshal .number)
    let scaled : Number := ⟨number.magnitude * factor, number.unit⟩
    CallM.orFail EncodeError.message (← CallM.send (toHost scaled))
  | .add => do
    let values ← CallM.orFail DecodeError.message (call.unmarshal (.tuple [.number, .number]))
    let (a, b, _) : Number × Number × Unit := values
    let sum : Number := ⟨a.magnitude + b.magnitude, a.unit⟩
    CallM.orFail EncodeError.message (← CallM.send (toHost sum))
  | .count => do
    let calls := (← CallM.getHost).callsOf registration
    CallM.orFail EncodeError.message (← CallM.send (toHost (Float.ofNat calls)))
  | .fail message => CallM.fail message
  | .warn message => CallM.warn message
  | .raise message => throw message

def callback (registration : Nat) (script : List Action) : Callback ScriptHost := fun call => do
  CallM.modifyHost (·.countCall registration)
  for action in script do
    action.run registration call

end Action

namespace Registry

def registerScript (r : Registry ScriptHost) (signature : String) (script : List Action) :
    Except SignatureError (Option Signature) × Registry ScriptHost :=
  let (registration, host) := r.host.newRegistration
  { r with host }.register signature (Action.callback registration script)

end Registry

end HostSheet
