import GraphQL.Response

/-!
# Resolvers

A resolver produces the value of one field. It is given the call: the value of the parent object,
the arguments and the place of the field. What it does is an action: it may read and write a state
that resolvers share, wait, cancel the operation, and it ends with a value or a failure. Between
two waits an action is not interrupted.
-/

set_option autoImplicit false

namespace GraphQL

/-- The call of a resolver. Only declared arguments are present. -/
structure Call where
  parent : Json
  arguments : Json.Object
  path : Path
  typeName : String
  fieldName : String
  deriving DecidableEq, Repr

/-- A failure that a resolver reports. Only the message and the extensions reach the response. -/
structure FieldError where
  message : String
  extensions : Json.Object := []
  deriving DecidableEq, Repr

namespace FieldError

/-- The failure with one more extension. -/
def withExtension (error : FieldError) (key : String) (value : Json) : FieldError :=
  { error with extensions := Json.Object.insert key value error.extensions }

/-- The error that a response holds for a failure. -/
def report (path : Path) (error : FieldError) : ResponseError :=
  { message := error.message, path := some path, extensions := error.extensions }

end FieldError

namespace Call

/-- The value of an argument, unless it is null. -/
def argument? (call : Call) (name : String) : Option Json :=
  (Json.Object.get? call.arguments name).filter fun value => !value.isNull

/-- The text of an argument; a failure if it is no string. -/
def textArgument (call : Call) (name : String) : Except FieldError String :=
  match (call.argument? name).bind Json.string? with
  | some text => .ok text
  | none => .error { message := s!"missing argument '{name}'" }

/-- A property of the parent object. -/
def parentProperty? (call : Call) (name : String) : Option Json :=
  call.parent.object?.bind fun members => Json.Object.get? members name

end Call

/-- What a resolver does, over a shared state. Waiting is in milliseconds. -/
inductive Action (State : Type) where
  | done (result : Except FieldError Json)
  | read (next : State → Action State)
  | write (state : State) (next : Action State)
  | wait (milliseconds : Nat) (next : Action State)
  | cancel (next : Action State)

/-- The code that produces the value of a field. -/
abbrev Resolver (State : Type) := Call → Action State

namespace Resolver

variable {State : Type}

/-- The resolver that reads a key of the parent object; null if there is none. -/
def property (key : String) : Resolver State := fun call =>
  .done (.ok ((call.parentProperty? key).getD .null))

/-- The resolver that computes its result from the call alone. -/
def compute (result : Call → Except FieldError Json) : Resolver State := fun call =>
  .done (result call)

/-- The resolver that computes its result from the call and the shared state. -/
def reading (result : State → Call → Except FieldError Json) : Resolver State := fun call =>
  .read fun state => .done (result state call)

end Resolver

end GraphQL
