import GraphQL.Literal
import GraphQL.TypeRef

/-!
# Schemas

The types of a service and the roots of its operations. References between types are kept by name,
so object types may refer to each other freely; `Schema.type?` looks a name up. Fields, arguments
and enum values are in the order of their declaration, which is the order in which errors are
found and values are written.
-/

set_option autoImplicit false

namespace GraphQL

/-- The kinds of operation. -/
inductive OperationKind where
  | query
  | mutation
  | subscription
  deriving DecidableEq, Repr

namespace OperationKind

/-- The name of a kind of operation. -/
def render : OperationKind → String
  | query => "Query"
  | mutation => "Mutation"
  | subscription => "Subscription"

end OperationKind

/-- An argument of a field, or a field of an input object. -/
structure InputValueDefinition where
  name : String
  type : TypeRef
  default : Option Literal
  deriving Repr

/-- A field of an object type. -/
structure FieldDefinition where
  name : String
  type : TypeRef
  arguments : List InputValueDefinition
  deriving Repr

/-- An object type. -/
structure ObjectType where
  name : String
  fields : List FieldDefinition
  deriving Repr

/-- An enum type: the symbols it accepts, told apart by case. -/
structure EnumType where
  name : String
  values : List String
  deriving DecidableEq, Repr

/-- An input object type. -/
structure InputObjectType where
  name : String
  fields : List InputValueDefinition
  deriving Repr

/-- A named type. Built-in scalars have rules of their own, declared scalars pass values through
untouched. -/
inductive TypeDefinition where
  | builtin (type : BuiltinScalar)
  | scalar (name : String)
  | object (type : ObjectType)
  | enum (type : EnumType)
  | inputObject (type : InputObjectType)
  deriving Repr

namespace ObjectType

/-- The declared field of a name. -/
def field? (type : ObjectType) (name : String) : Option FieldDefinition :=
  type.fields.find? fun field => field.name == name

end ObjectType

namespace FieldDefinition

/-- The declared argument of a name. -/
def argument? (field : FieldDefinition) (name : String) : Option InputValueDefinition :=
  field.arguments.find? fun argument => argument.name == name

end FieldDefinition

namespace TypeDefinition

/-- The name under which a type is declared. -/
def name : TypeDefinition → String
  | .builtin type => type.name
  | .scalar name => name
  | .object type => type.name
  | .enum type => type.name
  | .inputObject type => type.name

/-- Whether arguments may have the type. -/
def isInput : TypeDefinition → Bool
  | .object _ => false
  | _ => true

/-- Whether fields may have the type. -/
def isOutput : TypeDefinition → Bool
  | .inputObject _ => false
  | _ => true

end TypeDefinition

/-- A set of types with the roots of its operations. -/
structure Schema where
  types : List TypeDefinition
  queryRoot : String
  mutationRoot : Option String
  deriving Repr

namespace Schema

/-- The type of a name. -/
def type? (schema : Schema) (name : String) : Option TypeDefinition :=
  schema.types.find? fun type => type.name == name

/-- The object type of a name. -/
def object? (schema : Schema) (name : String) : Option ObjectType :=
  match schema.type? name with
  | some (.object type) => some type
  | _ => none

/-- The enum type of a name. -/
def enum? (schema : Schema) (name : String) : Option EnumType :=
  match schema.type? name with
  | some (.enum type) => some type
  | _ => none

/-- The input object type of a name. -/
def inputObject? (schema : Schema) (name : String) : Option InputObjectType :=
  match schema.type? name with
  | some (.inputObject type) => some type
  | _ => none

/-- All object types, in the order of the schema. -/
def objectTypes (schema : Schema) : List ObjectType :=
  schema.types.filterMap fun
    | .object type => some type
    | _ => none

/-- The name of the root type for a kind of operation, if the schema supports it. -/
def root? (schema : Schema) : OperationKind → Option String
  | .query => some schema.queryRoot
  | .mutation => schema.mutationRoot
  | .subscription => none

end Schema

end GraphQL
