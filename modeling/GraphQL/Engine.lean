import GraphQL.Configuration.Basic
import GraphQL.Execution.Complete
import GraphQL.Execution.Run
import GraphQL.Operation.Executable
import GraphQL.Request

/-!
# Engines

An engine is a schema with the resolvers of its fields. `Engine.execute` answers a request: it
never fails, since every error ends up in the response. A cancellation at some instant gives up
the calls that are still waiting then and makes no further ones; data that is already there stays.
-/

set_option autoImplicit false

namespace GraphQL

/-- Why an engine cannot be loaded. -/
inductive LoadError where
  | schema (cause : SchemaError)
  | binding (cause : BindingError)
  deriving DecidableEq, Repr

namespace LoadError

/-- What the error says. -/
def message : LoadError → String
  | schema cause => s!"could not load schema: {cause.message}"
  | binding cause => s!"could not bind resolvers: {cause.message}"

end LoadError

/-- A schema bound to its resolvers, over a state that the resolvers share. -/
structure Engine (State : Type) where
  schema : Schema
  registry : Registry State
  configuration : Configuration := {}

/-- An answer to a request, and what the resolvers left: the response, and the world after it. -/
structure Execution (State : Type) where
  response : Response
  world : World State

namespace Engine

variable {State : Type}

/-- Binds resolvers to a schema. -/
def bind (schema : Schema) (registry : Registry State) (configuration : Configuration) :
    Except BindingError (Engine State) := do
  registry.validate schema
  return { schema, registry, configuration }

/-- Reads a schema within the limits of a configuration, and binds resolvers to it. -/
def load (text : String) (registry : Registry State) (configuration : Configuration) :
    Except LoadError (Engine State) :=
  match Schema.parseWithin configuration.recursionLimit text with
  | .error cause => .error (.schema cause)
  | .ok schema =>
    match bind schema registry configuration with
    | .error cause => .error (.binding cause)
    | .ok engine => .ok engine

/-- The operation that a request asks for, with its root type. -/
def select (engine : Engine State) (request : Request) :
    Except RequestError (Operation × ObjectType) := do
  let text ← request.query.elim (.error .missingQuery) .ok
  let document ← ExecutableDocument.parseWithin engine.configuration.recursionLimit text
  let operation ← document.operation request.requestedOperation
  if operation.kind == .subscription then .error .subscriptionNotSupported
  else
    match (engine.schema.root? operation.kind).bind engine.schema.object? with
    | some rootType => return (document.linkOperation operation, rootType)
    | none => .error .mutationNotSupported

/-- The response to an operation that was executed. The error of a cancellation that gave up a
call comes last. -/
def respond (completion : Completion) (aborted : Bool) : Response :=
  { data := completion.value
    errors := completion.errors
      ++ if aborted then [Reportable.report none ExecutionError.cancelled] else [] }

/-- Runs a plan from some state, with a cancellation at some instant. At instant zero the operation
is cancelled before it starts. -/
def run (engine : Engine State) (plan : Plan) (state : State) (cancelAt : Option Nat) :
    World State × Completion :=
  let perform := engine.registry.perform engine.configuration.resolverTimeout
  let world : World State := { state, cancelled := cancelAt == some 0 }
  (plan.start perform world).finish cancelAt

/-- Answers a request. -/
def execute (engine : Engine State) (request : Request) (state : State)
    (cancelAt : Option Nat) : Execution State :=
  match engine.select request with
  | .error cause =>
    { response := .rejected [Reportable.report none cause], world := { state } }
  | .ok (operation, rootType) =>
    let plan := operation.plan engine.schema engine.configuration.parallelSiblings
      request.variableValues rootType
    let (world, completion) := engine.run plan state cancelAt
    { response := respond completion world.aborted, world }

end Engine

end GraphQL
