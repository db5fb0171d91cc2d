import GraphQL.Json.Printer
import GraphQL.Path

/-!
# Responses and their errors

A response holds the data of an operation, the errors met on the way and extensions. Its wire form
always has `data`, null when there is none, and leaves out whatever else is empty.
-/

set_option autoImplicit false

namespace GraphQL

/-- An error as a response reports it: a message, the field it belongs to, and extensions. -/
structure ResponseError where
  message : String := ""
  path : Option Path := none
  extensions : Json.Object := []
  deriving DecidableEq, Repr

namespace ResponseError

/-- The error code among the extensions: a string, or a number in its written form. -/
def code? (error : ResponseError) : Option String :=
  match Json.Object.get? error.extensions "code" with
  | some (.string code) => some code
  | some (.number n) => some n.render
  | _ => none

/-- Adds an error code, unless the extensions have one. -/
def addCode (code : String) (error : ResponseError) : ResponseError :=
  if (Json.Object.get? error.extensions "code").isSome then error
  else { error with extensions := Json.Object.insert "code" (.string code) error.extensions }

/-- The wire form of an error. -/
def toJson (error : ResponseError) : Json :=
  .object ([("message", .string error.message)]
    ++ (match error.path with
      | some path => [("path", path.toJson)]
      | none => [])
    ++ if error.extensions.isEmpty then [] else [("extensions", .object error.extensions)])

/-- Reads a message, which may be absent. -/
def readMessage? : Option Json → Option String
  | none => some ""
  | some value => value.string?

/-- Reads a path, which may be absent or null. -/
def readPath? : Option Json → Option (Option Path)
  | none | some .null => some none
  | some value => (Path.ofJson? value).map some

/-- Reads extensions, which may be absent. -/
def readExtensions? : Option Json → Option Json.Object
  | none => some []
  | some value => value.object?

/-- Reads an error from its wire form; unknown members are ignored. Only objects are read, not
arrays that list the members in order. -/
def ofJson? : Json → Option ResponseError
  | .object members => do
    let message ← readMessage? (Json.Object.get? members "message")
    let path ← readPath? (Json.Object.get? members "path")
    let extensions ← readExtensions? (Json.Object.get? members "extensions")
    some { message, path, extensions }
  | _ => none

end ResponseError

/-- Causes of errors that responses report: what each says, its error code, and what else it adds
to the extensions. -/
class Reportable (α : Type) where
  message : α → String
  code : α → String
  details : α → Json.Object := fun _ => []

namespace Reportable

/-- The error that a response holds for a cause, at a field or for the whole request. -/
def report {α : Type} [Reportable α] (path : Option Path) (cause : α) : ResponseError :=
  { message := message cause
    path
    extensions := Json.Object.insert "code" (.string (code cause)) (details cause) }

end Reportable

/-- What a client gets. -/
structure Response where
  data : Option Json := none
  errors : List ResponseError := []
  extensions : Json.Object := []
  deriving DecidableEq, Repr

namespace Response

/-- The response to a request that was rejected before execution. -/
def rejected (errors : List ResponseError) : Response :=
  { errors }

/-- Whether the response has no errors. -/
def isOk (response : Response) : Bool :=
  response.errors.isEmpty

/-- The wire form of a response. -/
def toJson (response : Response) : Json :=
  .object ([("data", response.data.getD .null)]
    ++ (if response.errors.isEmpty then []
      else [("errors", .array (response.errors.map ResponseError.toJson))])
    ++ if response.extensions.isEmpty then [] else [("extensions", .object response.extensions)])

/-- Reads data, which may be absent or null. -/
def readData : Option Json → Option Json
  | some .null => none
  | data => data

/-- Reads a list of errors, which may be absent. -/
def readErrors? : Option Json → Option (List ResponseError)
  | none => some []
  | some (.array items) => items.mapM ResponseError.ofJson?
  | some _ => none

/-- Reads a response from its wire form; unknown members are ignored. Only objects are read, not
arrays that list the members in order. -/
def ofJson? : Json → Option Response
  | .object members => do
    let data := readData (Json.Object.get? members "data")
    let errors ← readErrors? (Json.Object.get? members "errors")
    let extensions ← ResponseError.readExtensions? (Json.Object.get? members "extensions")
    some { data, errors, extensions }
  | _ => none

end Response

end GraphQL
