import GraphQL.Coercion.Error

/-!
# Why a schema is refused
-/

set_option autoImplicit false

namespace GraphQL

/-- A place in a schema. -/
inductive Coordinate where
  | schema
  | field (typeName : String) (fieldName : String)
  | argument (typeName : String) (fieldName : String) (name : String)
  deriving DecidableEq, Repr

namespace Coordinate

/-- The text of a place in a schema. -/
def render : Coordinate → String
  | .schema => "schema"
  | .field typeName fieldName => s!"{typeName}.{fieldName}"
  | .argument typeName fieldName name => s!"{typeName}.{fieldName}({name}:)"

end Coordinate

/-- Definitions that the grammar knows and engines do not. -/
inductive UnsupportedDefinition where
  | secondSchema
  | subscriptionRoot
  | interface (name : String)
  | union (name : String)
  | executable
  | extension
  deriving DecidableEq, Repr

namespace UnsupportedDefinition

/-- What is not supported. -/
def message : UnsupportedDefinition → String
  | secondSchema => "more than one schema definition"
  | subscriptionRoot => "subscription root operation"
  | interface name => s!"interface type '{name}'"
  | union name => s!"union type '{name}'"
  | executable => "executable definition in a schema document"
  | extension => "type system extension"

end UnsupportedDefinition

/-- Why a text is no schema. -/
inductive SchemaError where
  | unreadable
  | duplicateType (typeName : String)
  | duplicateField (typeName : String) (fieldName : String)
  | duplicateArgument (typeName : String) (fieldName : String) (argument : String)
  | duplicateEnumValue (typeName : String) (value : String)
  | unknownType (typeName : String) (referencedBy : Coordinate)
  | invalidOutputType (typeName : String) (referencedBy : Coordinate)
  | invalidInputType (typeName : String) (referencedBy : Coordinate)
  | invalidRootType (typeName : String)
  | invalidDefaultValue (place : Coordinate) (reason : CoercionError)
  | missingQueryRoot
  | emptyType (typeName : String)
  | unsupported (definition : UnsupportedDefinition)
  deriving DecidableEq, Repr

namespace SchemaError

/-- What the error says. -/
def message : SchemaError → String
  | unreadable => "GraphQL syntax error(s)"
  | duplicateType typeName => s!"type '{typeName}' is defined more than once"
  | duplicateField typeName fieldName =>
    s!"field '{fieldName}' is defined more than once on type '{typeName}'"
  | duplicateArgument typeName fieldName argument =>
    s!"argument '{argument}' is defined more than once on '{typeName}.{fieldName}'"
  | duplicateEnumValue typeName value =>
    s!"value '{value}' is defined more than once in enum '{typeName}'"
  | unknownType typeName referencedBy =>
    s!"unknown type '{typeName}' referenced by '{referencedBy.render}'"
  | invalidOutputType typeName referencedBy =>
    s!"'{referencedBy.render}' must be an output type but '{typeName}' is an input object"
  | invalidInputType typeName referencedBy =>
    s!"'{referencedBy.render}' must be an input type but '{typeName}' is an object type"
  | invalidRootType typeName => s!"root operation type '{typeName}' must be an object type"
  | invalidDefaultValue place reason =>
    s!"invalid default value for '{place.render}': {reason.message}"
  | missingQueryRoot => "the schema does not define a query root type"
  | emptyType typeName => s!"type '{typeName}' declares no fields"
  | unsupported definition => s!"unsupported schema definition: {definition.message}"

end SchemaError

end GraphQL
