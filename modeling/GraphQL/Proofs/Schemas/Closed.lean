import GraphQL.Proofs.Documents.TypeNames
import GraphQL.Proofs.Schemas.Acceptance

/-!
# Closed schemas

In an accepted schema every name that is looked up later is there and of the right kind: the roots
are object types, fields refer to output types, and arguments and input fields to input types. A
reference that is no built-in scalar then leads to a declared type: an object, enum or scalar where
values are written, an enum, input object or scalar where values are read.
-/

set_option autoImplicit false

namespace GraphQL

namespace Schema

variable {schema : Schema}

/-- A type leads to one that fields may have. -/
def Output (schema : Schema) (type : TypeRef) : Prop :=
  type.Canonical ∧ ∃ target, schema.type? type.innermost = some target ∧ target.isOutput = true

/-- A type leads to one that arguments and input fields may have. -/
def Input (schema : Schema) (type : TypeRef) : Prop :=
  type.Canonical ∧ ∃ target, schema.type? type.innermost = some target ∧ target.isInput = true

/-- All references of a schema lead to types that may stand there. -/
structure Closed (schema : Schema) : Prop where
  outputs : ∀ type, .object type ∈ schema.types → ∀ field ∈ type.fields, schema.Output field.type
  inputs : ∀ type ∈ schema.types, ∀ value, type.Takes value → schema.Input value.type
  queryRoot : ∃ type, schema.object? schema.queryRoot = some type
  mutationRoot : ∀ root, schema.mutationRoot = some root →
    ∃ type, schema.object? root = some type

/-- A type that is found by its name is a type of the schema with that name. -/
theorem mem_of_type? {name : String} {type : TypeDefinition} (found : schema.type? name = some type) :
    type ∈ schema.types ∧ type.name = name := by
  have same := List.find?_some found
  exact ⟨List.mem_of_find?_eq_some found, by simpa using same⟩

/-- An object type is found where the type of that name is one. -/
theorem object?_eq_some_iff {name : String} {type : ObjectType} :
    schema.object? name = some type ↔ schema.type? name = some (.object type) := by
  unfold object?
  split
  · next found => simp [found]
  · next other =>
    constructor
    · rintro ⟨⟩
    · exact fun found => absurd found (other type)

/-- What values are written at: an object type, an enum type or a declared scalar. -/
theorem Output.named {name : String} (h : schema.Output (.named name)) :
    (∃ type, schema.type? name = some (.object type)) ∨
      (∃ type, schema.type? name = some (.enum type)) ∨
      ∃ scalar, schema.type? name = some (.scalar scalar) := by
  obtain ⟨declared, target, found, output⟩ := h
  have found : schema.type? name = some target := found
  cases target with
  | object type => exact .inl ⟨type, found⟩
  | enum type => exact .inr (.inl ⟨type, found⟩)
  | scalar scalar => exact .inr (.inr ⟨scalar, found⟩)
  | inputObject type => cases output
  | builtin scalar => exact absurd (mem_of_type? found).2.symm (declared scalar)

/-- What values are read at: an enum type, an input object type or a declared scalar. -/
theorem Input.named {name : String} (h : schema.Input (.named name)) :
    (∃ type, schema.type? name = some (.enum type)) ∨
      (∃ type, schema.type? name = some (.inputObject type)) ∨
      ∃ scalar, schema.type? name = some (.scalar scalar) := by
  obtain ⟨declared, target, found, input⟩ := h
  have found : schema.type? name = some target := found
  cases target with
  | enum type => exact .inl ⟨type, found⟩
  | inputObject type => exact .inr (.inl ⟨type, found⟩)
  | scalar scalar => exact .inr (.inr ⟨scalar, found⟩)
  | object type => cases input
  | builtin scalar => exact absurd (mem_of_type? found).2.symm (declared scalar)

/-- The types of a document that was read name no built-in scalar but by itself. -/
theorem canonical_of_mem_types {limit : Nat} {text : String} {source : Document}
    (read : Document.parse? limit text = some source) {type : TypeDefinition}
    (member : type ∈ source.types) : type.Canonical := by
  obtain ⟨definition, hdefinition, declares⟩ := List.mem_filterMap.1 member
  have whole := Document.canonical_of_parse? read definition hdefinition
  cases definition with
  | object | inputObject =>
    cases declares
    exact whole
  | scalar | enum =>
    cases declares
    trivial
  | _ => cases declares

/-- An accepted schema is closed. -/
theorem closed_of_parseWithin {limit : Nat} {text : String}
    (accepted : parseWithin limit text = .ok schema) : schema.Closed := by
  unfold parseWithin at accepted
  split at accepted
  · next source read =>
    obtain ⟨wellFormed, rfl⟩ := ofDocument_eq_ok_iff.1 accepted
    have distinct : ({ types := source.types } : Draft).DistinctNames :=
      ⟨wellFormed.typeNames, wellFormed.notBuiltin⟩
    have declared : ∀ {type}, type ∈ source.schema.types → ∀ value, type.Takes value →
        type ∈ source.types := by
      intro type member value takes
      rcases mem_schema_types_iff.1 member with ⟨scalar, rfl⟩ | member
      · cases takes
      · exact member
    have root : ∀ {name}, (∃ type, .object type ∈ source.types ∧ type.name = name) →
        ∃ type, source.schema.object? name = some type := by
      intro name found
      obtain ⟨type, found⟩ := (exists_object_iff distinct).2 found
      exact ⟨type, object?_eq_some_iff.2 found⟩
    refine ⟨?_, ?_, ?_, ?_⟩
    · intro type member field hfield
      have member : .object type ∈ source.types := by
        rcases mem_schema_types_iff.1 member with ⟨scalar, ⟨⟩⟩ | member
        exact member
      exact ⟨(canonical_of_mem_types read member field hfield).1,
        (exists_type?_iff distinct).2 (wellFormed.outputs type member field hfield)⟩
    · intro type member value takes
      have member := declared member value takes
      refine ⟨?_, (exists_type?_iff distinct).2 (wellFormed.inputs type member value takes)⟩
      cases takes with
      | argument ofType ofField => exact (canonical_of_mem_types read member _ ofType).2 value ofField
      | inputField ofType => exact canonical_of_mem_types read member value ofType
    · obtain ⟨name, type, given, member, same⟩ := wellFormed.queryRoot
      have query : source.schema.queryRoot = name := by simp [Document.schema, given]
      rw [query]
      exact root ⟨type, member, same⟩
    · exact fun name given => root (wellFormed.mutationRoot name given)
  · cases accepted

end Schema

end GraphQL
