import Mathlib

/-!
# Actors, envelopes and the calls an actor can make

An actor is an owned box that the runtime moves and never looks into: only its
identity is kept, and what its callbacks do is left open. An envelope is moved
as well. Its `stamp` is not a field of the source: it names the `send` or `delay`
call that handed the envelope to the runtime, so that two sends of equal contents
stay distinguishable in a history.
-/

namespace Uppercut

/-- An address as the scheduler uses it. -/
abbrev Tag := String

/-- The bits of an `f64`. -/
abbrev Value := UInt64

/-- A time stamped value of a metric. -/
abbrev Sample := Nat × Value

/-- A time stamped log line. -/
abbrev Line := Nat × String

/-- `Box<dyn AnyActor>`. -/
structure Actor where
  id : Nat
  deriving DecidableEq

/-- What `Box<dyn Any + Send>` can be downcast to. The variants before `other` are
the types that the crate itself downcasts to. -/
inductive Message where
  | bytes (payload : List UInt8)
  | clientLoop
  | serverLoop
  | work (isReadable isWritable : Bool)
  | other (value : Nat)
  deriving DecidableEq

structure Envelope where
  message : Message
  «from» : String
  «to» : String
  stamp : Nat
  deriving DecidableEq

namespace Envelope

def of (message : Message) : Envelope :=
  { message := message, «from» := "", «to» := "", stamp := 0 }

def withFrom (e : Envelope) («from» : String) : Envelope := { e with «from» := «from» }

def withTo (e : Envelope) («to» : String) : Envelope := { e with «to» := «to» }

end Envelope

/-- The callbacks of `AnyActor`. -/
inductive Callback where
  | receive (envelope : Envelope)
  | onFail
  | onStop
  deriving DecidableEq

/-- The calls of `AnySender`. `Run` offers the first four of them. The closure
given to `spawn` only builds the actor, so it is not an argument here. -/
inductive Call where
  | send (address : String) (envelope : Envelope)
  | spawn (address : String)
  | delay (address : String) (envelope : Envelope) (duration : Nat)
  | stop (address : String)
  | log (message : String)
  | metric (name : String) (value : Value)
  deriving DecidableEq

end Uppercut
