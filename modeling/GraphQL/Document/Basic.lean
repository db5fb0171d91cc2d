import GraphQL.Schema.Basic

/-!
# Documents

What the text of a document says, definition by definition. Nothing is checked here beyond the
grammar: names may be repeated or unknown. `GraphQL.Schema.ofDocument` and
`GraphQL.ExecutableDocument.ofDocument` check documents of the two kinds. Descriptions and
directives have no meaning to an engine and are not kept.
-/

set_option autoImplicit false

namespace GraphQL

namespace Document

/-- An entry of a selection set as it is written; a fragment is spread by its name. -/
inductive Selection where
  | field (aliasName : Option String) (name : String) (arguments : List (String × Literal))
      (selections : List Selection)
  | inlineFragment (condition : Option String) (selections : List Selection)
  | fragmentSpread (name : String)
  deriving Inhabited, Repr

end Document

/-- A variable that an operation declares. -/
structure VariableDefinition where
  name : String
  type : TypeRef
  default : Option Literal
  deriving Repr

/-- An operation as it is written. -/
structure OperationDefinition where
  kind : OperationKind
  name : Option String
  variableDefinitions : List VariableDefinition
  selections : List Document.Selection
  deriving Repr

/-- A named fragment as it is written. -/
structure FragmentDefinition where
  name : String
  condition : String
  selections : List Document.Selection
  deriving Repr

/-- A definition of a document. -/
inductive Definition where
  | operation (definition : OperationDefinition)
  | fragment (definition : FragmentDefinition)
  | schema (roots : List (OperationKind × String))
  | scalar (name : String)
  | object (type : ObjectType)
  | enum (type : EnumType)
  | inputObject (type : InputObjectType)
  | interface (name : String)
  | union (name : String)
  | directive
  | extension
  deriving Repr

/-- The definitions of a document, in order. -/
abbrev Document := List Definition

end GraphQL
