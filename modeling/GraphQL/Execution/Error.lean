import GraphQL.Coercion.Error
import GraphQL.Duration.Basic
import GraphQL.Registry.Basic

/-!
# Errors of execution

The errors that a response reports at the path of a field, and the one that says that the operation
was cancelled.
-/

set_option autoImplicit false

namespace GraphQL

/-- The field that a value is computed for, as messages name it. -/
structure FieldName where
  typeName : String
  fieldName : String
  deriving DecidableEq, Repr

namespace FieldName

/-- The text of a field. -/
def render (field : FieldName) : String :=
  s!"{field.typeName}.{field.fieldName}"

end FieldName

/-- What can go wrong with a field. -/
inductive ExecutionError where
  | unknownField (field : FieldName)
  | nonNullViolation (field : FieldName)
  | invalidValue (field : FieldName) (type : TypeRef) (value : Json)
  | missingSelection (fieldName : String) (type : TypeRef)
  | unexpectedSelection (fieldName : String) (type : TypeRef)
  | timeout (field : FieldName) (after : Duration)
  | cancelled
  | binding (cause : BindingError)
  deriving DecidableEq, Repr

namespace ExecutionError

/-- What the error says. -/
def message : ExecutionError → String
  | unknownField field =>
    s!"Cannot query field \"{field.fieldName}\" on type \"{field.typeName}\"."
  | nonNullViolation field => s!"Cannot return null for non-nullable field {field.render}."
  | invalidValue field type value =>
    s!"{type.render} cannot represent value {value.compact} returned for field {field.render}."
  | missingSelection fieldName type =>
    s!"Field \"{fieldName}\" of type \"{type.render}\" must have a selection of subfields."
  | unexpectedSelection fieldName type =>
    s!"Field \"{fieldName}\" must not have a selection since type \"{type.render}\" has no "
      ++ "subfields."
  | timeout field after => s!"Resolver for {field.render} timed out after {after.render}."
  | cancelled => "the operation was cancelled"
  | binding cause => cause.message

/-- The error code of a cause. -/
def code : ExecutionError → String
  | unknownField _ => "INVALID_FIELD"
  | nonNullViolation _ => "NON_NULL_VIOLATION"
  | invalidValue _ _ _ => "INVALID_VALUE"
  | missingSelection _ _ | unexpectedSelection _ _ => "SELECTION_MISMATCH"
  | timeout _ _ => "RESOLVER_TIMEOUT"
  | cancelled => "OPERATION_CANCELLED"
  | binding _ => "INTERNAL_SERVER_ERROR"

instance : Reportable ExecutionError where
  message := message
  code := code

end ExecutionError

end GraphQL
