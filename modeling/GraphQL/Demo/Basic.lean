import GraphQL.Demo.Greetings
import GraphQL.Demo.Notes

/-!
# Demonstration services

The two services that show what an engine does. Both run over a store of notes, which the
greetings leave alone.
-/

set_option autoImplicit false

namespace GraphQL

/-- The demonstration services. -/
inductive Demo where
  | greetings
  | notes
  deriving DecidableEq, Repr

namespace Demo

/-- The name of a service. -/
def name : Demo → String
  | greetings => "greetings"
  | notes => "notes"

/-- The service of a name. -/
def ofName? (name : String) : Option Demo :=
  [greetings, notes].find? fun demo => demo.name == name

/-- What is said about a name that no service has. -/
def unknownMessage (name : String) : String :=
  s!"unknown demo '{name}', expected 'greetings' or 'notes'"

/-- The text of the schema of a service. -/
def schemaText : Demo → String
  | greetings => Greetings.schemaText
  | notes => Notes.schemaText

/-- The resolvers of a service. -/
def registry : Demo → Except BindingError (Registry NoteStore)
  | greetings => Greetings.registry
  | notes => Notes.registry

/-- The requests that show a service, in the order in which they run. -/
def requests : Demo → List Request
  | greetings => Greetings.requests
  | notes => Notes.requests

/-- The engine of a service. -/
def engine (demo : Demo) (configuration : Configuration) : Except LoadError (Engine NoteStore) :=
  match demo.registry with
  | .error cause => .error (.binding cause)
  | .ok registry => Engine.load demo.schemaText registry configuration

end Demo

namespace Engine

variable {State : Type}

/-- Answers requests one after the other, each in the state that the one before left. -/
def executeAll (engine : Engine State) (state : State) : List Request → List Response
  | [] => []
  | request :: rest =>
    let execution := engine.execute request state none
    execution.response :: engine.executeAll execution.world.state rest

end Engine

end GraphQL
