import HostSheet.Conversion.Typed

/-!
# Invocations

A call supplies its arguments one by one; the function sees them packed into one value, together
with their number. The number is what keeps a single list argument apart from several arguments.
-/

namespace HostSheet

structure SessionInfo where
  id : Nat
  sourceName : String
  deriving Repr, DecidableEq

structure Arguments where
  values : List Value
  deriving Repr

namespace Arguments

def arity (args : Arguments) : Nat :=
  args.values.length

/-- A single argument packs as itself, any other number as a comma list. -/
def pack (args : Arguments) : Value :=
  match args.values with
  | [value] => value
  | values => .list values .comma

def ofPacked : Value → Arguments
  | .list items _ => ⟨items⟩
  | value => ⟨[value]⟩

end Arguments

/-- What a function is told about one call. -/
structure Invocation where
  function : String
  session : SessionInfo
  raw : Value
  arity : Nat
  deriving Repr

namespace Invocation

def ofArguments (function : String) (session : SessionInfo) (args : Arguments) : Invocation :=
  ⟨function, session, args.pack, args.arity⟩

def args (call : Invocation) : List Value :=
  if call.arity = 1 then [call.raw] else call.raw.items?.getD []

def decode (call : Invocation) (shape : Shape) : Except DecodeError HostValue :=
  HostSheet.decode shape call.raw

def decodeArgs (call : Invocation) (shapes : List Shape) : Except DecodeError (List HostValue) :=
  if shapes.length ≠ call.arity then .error (.wrongCount shapes.length call.arity)
  else (call.args.zip shapes).mapM fun (arg, shape) => HostSheet.decode shape arg

/-- The arguments as a typed value: a tuple takes one argument for each component, every other type
takes exactly one argument. -/
def unmarshal (call : Invocation) (t : HostType) : Except DecodeError t.Carrier :=
  match t.shape with
  | .sequence shapes => do t.ofHost (.sequence (← call.decodeArgs shapes))
  | shape => do
    if call.arity ≠ 1 then
      throw (.wrongCount 1 call.arity)
    t.ofHost (← HostSheet.decode shape call.raw)

end Invocation

end HostSheet
