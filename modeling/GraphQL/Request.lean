import GraphQL.Json.Basic

/-!
# Requests

A request carries the text of a document, the name of the operation to run and the values of the
operation's variables. `Request.toJson` and `Request.ofJson?` are its wire form: parts that are
absent or empty are left out, unknown members are ignored, and every part may be null.
-/

set_option autoImplicit false

namespace GraphQL

/-- What a client asks for. -/
structure Request where
  query : Option String := none
  operationName : Option String := none
  variableValues : Json.Object := []
  deriving DecidableEq, Repr

namespace Request

/-- The operation to run; an empty name counts as absent. -/
def requestedOperation (request : Request) : Option String :=
  request.operationName.filter fun name => !name.isEmpty

/-- A member with a text, if there is one. -/
def textMember (key : String) : Option String → Json.Object
  | some text => [(key, .string text)]
  | none => []

/-- The wire form of a request. -/
def toJson (request : Request) : Json :=
  .object (textMember "query" request.query
    ++ textMember "operationName" request.operationName
    ++ if request.variableValues.isEmpty then []
      else [("variables", .object request.variableValues)])

/-- Reads a text that may be absent or null. -/
def readText? : Option Json → Option (Option String)
  | none | some .null => some none
  | some (.string text) => some (some text)
  | some _ => none

/-- Reads an object that may be absent or null. -/
def readVariables? : Option Json → Option Json.Object
  | none | some .null => some []
  | some (.object members) => some members
  | some _ => none

/-- Reads a request from its wire form. Only objects are read, not arrays that list the members in
order. -/
def ofJson? : Json → Option Request
  | .object members => do
    let query ← readText? (Json.Object.get? members "query")
    let operationName ← readText? (Json.Object.get? members "operationName")
    let variableValues ← readVariables? (Json.Object.get? members "variables")
    some { query, operationName, variableValues }
  | _ => none

end Request

end GraphQL
