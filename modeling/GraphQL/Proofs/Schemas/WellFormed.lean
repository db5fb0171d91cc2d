import GraphQL.Proofs.Checks
import GraphQL.Schema.Build

/-!
# Well-formed schema documents

What a document must be to be accepted as a schema, said of its definitions: which kinds of them it
may hold, which names have to be distinct, which types its roots and references may name, and that
its defaults can be read. Beside it stands the schema that such a document defines.
-/

set_option autoImplicit false

namespace GraphQL

namespace Definition

/-- The type that a definition declares. -/
def type? : Definition → Option TypeDefinition
  | .scalar name => some (.scalar name)
  | .object type => some (.object type)
  | .enum type => some (.enum type)
  | .inputObject type => some (.inputObject type)
  | _ => none

/-- The roots of a schema block. -/
def roots? : Definition → Option (List (OperationKind × String))
  | .schema roots => some roots
  | _ => none

/-- Schema blocks, directives and the types that an engine knows may stand in a schema. -/
inductive IsTypeSystem : Definition → Prop
  | schema (roots : List (OperationKind × String)) : IsTypeSystem (.schema roots)
  | scalar (name : String) : IsTypeSystem (.scalar name)
  | object (type : ObjectType) : IsTypeSystem (.object type)
  | enum (type : EnumType) : IsTypeSystem (.enum type)
  | inputObject (type : InputObjectType) : IsTypeSystem (.inputObject type)
  | directive : IsTypeSystem .directive

variable {definition : Definition} {type : TypeDefinition}

/-- A definition that declares a type belongs to a schema. -/
theorem isTypeSystem_of_type? (declares : definition.type? = some type) :
    definition.IsTypeSystem := by
  cases definition with
  | scalar | object | enum | inputObject => constructor
  | _ => cases declares

/-- A definition that declares a type gives no root types. -/
theorem roots?_eq_none_of_type? (declares : definition.type? = some type) :
    definition.roots? = none := by
  cases definition with
  | scalar | object | enum | inputObject => rfl
  | _ => cases declares

end Definition

namespace TypeDefinition

/-- Fields, the arguments of each field and enum values have distinct names. -/
def DistinctParts : TypeDefinition → Prop
  | .object type => (type.fields.map (·.name)).Nodup ∧
    ∀ field ∈ type.fields, (field.arguments.map (·.name)).Nodup
  | .enum type => type.values.Nodup
  | .inputObject type => (type.fields.map (·.name)).Nodup
  | .builtin _ | .scalar _ => True

/-- Object types and input object types have fields. -/
def HasFields : TypeDefinition → Prop
  | .object type => type.fields ≠ []
  | .inputObject type => type.fields ≠ []
  | .builtin _ | .scalar _ | .enum _ => True

/-- A type takes a value in: as an argument of one of its fields or as an input field. -/
inductive Takes : TypeDefinition → InputValueDefinition → Prop
  | argument {type : ObjectType} {field : FieldDefinition} {value : InputValueDefinition}
    (ofType : field ∈ type.fields) (ofField : value ∈ field.arguments) : Takes (.object type) value
  | inputField {type : InputObjectType} {value : InputValueDefinition}
    (ofType : value ∈ type.fields) : Takes (.inputObject type) value

/-- An object type takes the arguments of its fields. -/
theorem takes_object_iff {type : ObjectType} {value : InputValueDefinition} :
    Takes (.object type) value ↔ ∃ field ∈ type.fields, value ∈ field.arguments := by
  constructor
  · rintro ⟨ofType, ofField⟩
    exact ⟨_, ofType, ofField⟩
  · rintro ⟨field, ofType, ofField⟩
    exact .argument ofType ofField

/-- An input object type takes its fields. -/
theorem takes_inputObject_iff {type : InputObjectType} {value : InputValueDefinition} :
    Takes (.inputObject type) value ↔ value ∈ type.fields := by
  constructor
  · rintro ⟨⟩
    assumption
  · exact .inputField

end TypeDefinition

namespace Document

/-- The types that a document declares, in order. -/
def types (document : Document) : List TypeDefinition :=
  document.filterMap Definition.type?

/-- The schema blocks of a document, in order. -/
def schemaBlocks (document : Document) : List (List (OperationKind × String)) :=
  document.filterMap Definition.roots?

variable {source : Document}

/-- The types of a document are that of its first definition and those of the others. -/
theorem types_cons (definition : Definition) (rest : Document) :
    types (definition :: rest) = definition.type?.toList ++ types rest := by
  rw [types, List.filterMap_cons]
  cases definition.type? <;> rfl

/-- The schema blocks of a document are that of its first definition and those of the others. -/
theorem schemaBlocks_cons (definition : Definition) (rest : Document) :
    schemaBlocks (definition :: rest) = definition.roots?.toList ++ schemaBlocks rest := by
  rw [schemaBlocks, List.filterMap_cons]
  cases definition.roots? <;> rfl

/-- The root for a kind of operation: the one that the schema block names last, or the type that is
named after the kind where there is no schema block. -/
def root? (document : Document) (kind : OperationKind) : Option String :=
  match document.schemaBlocks with
  | roots :: _ => (roots.reverse.find? fun root => root.1 == kind).map Prod.snd
  | [] => (document.types.find? fun type => type.name == kind.render).map (·.name)

/-- The schema that a document defines if it is well-formed. -/
def schema (document : Document) : Schema where
  types := BuiltinScalar.all.map .builtin ++ document.types
  queryRoot := (document.root? .query).getD OperationKind.query.render
  mutationRoot := document.root? .mutation

/-- What a document must be to be accepted as a schema. -/
structure WellFormedSchema (document : Document) : Prop where
  typeSystem : ∀ definition ∈ document, definition.IsTypeSystem
  schemaBlocks : document.schemaBlocks.length ≤ 1
  subscription : ∀ roots ∈ document.schemaBlocks, ∀ root ∈ roots, root.1 ≠ .subscription
  typeNames : (document.types.map (·.name)).Nodup
  notBuiltin : ∀ type ∈ document.types, ∀ scalar : BuiltinScalar, type.name ≠ scalar.name
  distinctParts : ∀ type ∈ document.types, type.DistinctParts
  hasFields : ∀ type ∈ document.types, type.HasFields
  queryRoot : ∃ root type, document.root? .query = some root ∧ .object type ∈ document.types ∧
    type.name = root
  mutationRoot : ∀ root, document.root? .mutation = some root →
    ∃ type, .object type ∈ document.types ∧ type.name = root
  outputs : ∀ type, .object type ∈ document.types → ∀ field ∈ type.fields,
    ∃ target ∈ document.schema.types, target.name = field.type.innermost ∧ target.isOutput = true
  inputs : ∀ type ∈ document.types, ∀ value, type.Takes value →
    ∃ target ∈ document.schema.types, target.name = value.type.innermost ∧ target.isInput = true
  defaults : ∀ type ∈ document.types, ∀ value, type.Takes value →
    ∀ literal, value.default = some literal →
    ∃ result, Coercion.coerceLiteral document.schema {} Coercion.allLevels value.type literal
      (.root value.name) = .ok result

end Document

end GraphQL
