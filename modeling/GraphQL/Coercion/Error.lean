import GraphQL.Response
import GraphQL.TypeRef

/-!
# Why an input is refused

The causes for which the arguments of a field cannot be read. A place inside an argument is named
from the argument on, as in `note.tags[1]`.
-/

set_option autoImplicit false

namespace GraphQL

/-- A place inside the arguments of a field. -/
abbrev InputPath := List PathElement

namespace InputPath

/-- The place of an argument. -/
def root (argument : String) : InputPath :=
  [.key argument]

/-- A step further into a place. -/
def join (path : InputPath) (element : PathElement) : InputPath :=
  path ++ [element]

/-- The text of a step that is not the first. -/
def renderStep : PathElement → String
  | .key name => "." ++ name
  | .index i => "[" ++ toString i ++ "]"

/-- The text of a place. -/
def render : InputPath → String
  | [] => ""
  | .key name :: rest => name ++ String.join (rest.map renderStep)
  | element :: rest => String.join ((element :: rest).map renderStep)

end InputPath

/-- Why a value that a client supplied does not fit. -/
inductive CoercionError where
  | missingVariable (name : String) (type : TypeRef)
  | undefinedVariable (name : String)
  | missingArgument (argument : String) (type : TypeRef)
  | unknownArgument (argument : String) (typeName : String) (fieldName : String)
  | invalidValue (path : InputPath) (type : TypeRef) (value : String)
  | unknownEnumValue (path : InputPath) (typeName : String) (value : String)
  | missingInputField (path : InputPath) (field : String) (type : TypeRef)
  | nullValue (path : InputPath) (type : TypeRef)
  | tooDeep (path : InputPath)
  deriving DecidableEq, Repr

namespace CoercionError

/-- What the error says. -/
def message : CoercionError → String
  | missingVariable name type =>
    s!"Variable \"${name}\" of required type \"{type.render}\" was not provided."
  | undefinedVariable name => s!"Variable \"${name}\" is not defined by the operation."
  | missingArgument argument type =>
    s!"Argument \"{argument}\" of required type \"{type.render}\" was not provided."
  | unknownArgument argument typeName fieldName =>
    s!"Unknown argument \"{argument}\" on field \"{typeName}.{fieldName}\"."
  | invalidValue path type value =>
    s!"Invalid value {value} for type \"{type.render}\" at \"{path.render}\"."
  | unknownEnumValue path typeName value =>
    s!"Value \"{value}\" does not exist in \"{typeName}\" enum at \"{path.render}\"."
  | missingInputField path field type =>
    s!"Field \"{field}\" of required type \"{type.render}\" was not provided at \"{path.render}\"."
  | nullValue path type =>
    s!"Expected non-null value of type \"{type.render}\" at \"{path.render}\", found null."
  | tooDeep path => s!"Input value nested too deeply at \"{path.render}\"."

instance : Reportable CoercionError where
  message := message
  code _ := "BAD_USER_INPUT"

end CoercionError

end GraphQL
