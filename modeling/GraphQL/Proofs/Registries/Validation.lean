import GraphQL.Engine
import GraphQL.Proofs.Schemas.Closed

/-!
# Validation of resolvers

What a registry must be to fit a schema, said of its bindings and of the fields of the schema: each
binding is of a declared field and accepts the arguments of that field, and each field has a
binding. `Registry.validate_eq_ok_iff` says that validation checks just this.
-/

set_option autoImplicit false

namespace GraphQL

/-- The object types of a schema are those of its types that are object types. -/
theorem Schema.mem_objectTypes_iff {schema : Schema} {type : ObjectType} :
    type ∈ schema.objectTypes ↔ .object type ∈ schema.types := by
  rw [objectTypes, List.mem_filterMap]
  constructor
  · rintro ⟨definition, member, isObject⟩
    cases definition <;> cases isObject
    exact member
  · exact fun member => ⟨_, member, rfl⟩

/-- The field is one of an object type of the schema. -/
def Schema.DeclaresField (schema : Schema) (typeName : String) (field : FieldDefinition) : Prop :=
  ∃ type ∈ schema.objectTypes, type.name = typeName ∧ field ∈ type.fields

namespace Binding

variable {State : Type}

/-- The binding is of a field that the schema declares, and accepts its arguments. -/
def Fits (binding : Binding State) (schema : Schema) : Prop :=
  ∃ type field, schema.object? binding.typeName = some type ∧
    type.field? binding.fieldName = some field ∧
    ∀ argument ∈ field.arguments, argument.name ∈ binding.arguments

end Binding

namespace Registry

variable {State : Type} {registry : Registry State} {schema : Schema}

/-- Each binding is of a declared field, and each declared field has a binding. -/
structure Fits (registry : Registry State) (schema : Schema) : Prop where
  declared : ∀ binding ∈ registry.bindings, binding.Fits schema
  bound : ∀ type ∈ schema.objectTypes, ∀ field ∈ type.fields,
    ∃ binding, registry.lookup type.name field.name = .ok binding

/-- A binding passes its check if and only if it fits. -/
theorem checkBinding_eq_ok_iff {binding : Binding State} :
    checkBinding schema binding = .ok () ↔ binding.Fits schema := by
  rw [checkBinding, Binding.Fits]
  cases declared : schema.object? binding.typeName with
  | none => simp
  | some type =>
    cases found : type.field? binding.fieldName with
    | none => simp [found]
    | some field =>
      cases missing : field.arguments.find? fun argument =>
          !binding.arguments.contains argument.name with
      | none =>
        have accepts : ∀ argument ∈ field.arguments, argument.name ∈ binding.arguments := by
          simpa using List.find?_eq_none.1 missing
        simp only [Option.bind_some, found, missing, Option.some.injEq, true_iff]
        exact ⟨type, field, rfl, found, accepts⟩
      | some argument =>
        have member := List.mem_of_find?_eq_some missing
        have refused := List.find?_some missing
        simp only [Option.bind_some, found, missing, reduceCtorEq, Option.some.injEq, false_iff]
        rintro ⟨_, _, rfl, hfield, accepts⟩
        rw [found] at hfield
        cases hfield
        simp [accepts argument member] at refused

/-- A registry is accepted for a schema if and only if it fits. -/
theorem validate_eq_ok_iff : registry.validate schema = .ok () ↔ registry.Fits schema := by
  have looked : ∀ (type : ObjectType) (field : FieldDefinition),
      (do let _ ← registry.lookup type.name field.name) = Except.ok () ↔
        ∃ binding, registry.lookup type.name field.name = .ok binding := by
    intro type field
    rw [Checks.bind_eq_ok]
    simp [pure, Except.pure]
  rw [validate, Checks.then_eq_ok, Checks.forM_eq_ok, Checks.forM_eq_ok]
  simp only [Checks.forM_eq_ok, checkBinding_eq_ok_iff, looked]
  exact ⟨fun ⟨declared, bound⟩ => ⟨declared, bound⟩, fun ⟨declared, bound⟩ => ⟨declared, bound⟩⟩

end Registry

namespace Document.WellFormedSchema

variable {State : Type} {source : Document} {typeName : String}

/-- Names of types and of fields are distinct, so that looking them up finds all that is
declared. -/
theorem declaresField_iff (wellFormed : source.WellFormedSchema) {field : FieldDefinition} :
    source.schema.DeclaresField typeName field ↔
      ∃ type, source.schema.object? typeName = some type ∧ type.field? field.name = some field := by
  have types : ∀ {type}, source.schema.object? typeName = some type ↔
      .object type ∈ source.types ∧ type.name = typeName := by
    intro type
    rw [Schema.object?_eq_some_iff,
      Schema.type?_eq_some_iff ⟨wellFormed.typeNames, wellFormed.notBuiltin⟩,
      Schema.mem_schema_types_iff]
    simp [TypeDefinition.name]
  have fields : ∀ {type}, .object type ∈ source.types →
      (type.field? field.name = some field ↔ field ∈ type.fields) := by
    intro type member
    have distinct := (wellFormed.distinctParts _ member).1
    exact (Checks.find?_key_eq_some_iff distinct).trans (and_iff_left rfl)
  simp only [Schema.DeclaresField, Schema.mem_objectTypes_iff, Schema.mem_schema_types_iff, reduceCtorEq,
    exists_false, false_or, types, and_assoc]
  refine exists_congr fun type => and_congr_right fun member => and_congr_right fun _ => ?_
  exact (fields member).symm

/-- A field is declared once. -/
theorem declaresField_unique (wellFormed : source.WellFormedSchema) {first second : FieldDefinition}
    (declared : source.schema.DeclaresField typeName first)
    (declared' : source.schema.DeclaresField typeName second) (same : first.name = second.name) :
    first = second := by
  obtain ⟨type, isType, found⟩ := wellFormed.declaresField_iff.1 declared
  obtain ⟨type', isType', found'⟩ := wellFormed.declaresField_iff.1 declared'
  obtain rfl := Option.some.inj (isType.symm.trans isType')
  rw [same] at found
  exact Option.some.inj (found.symm.trans found')

/-- A binding fits a well-formed schema if it is of a declared field and accepts its arguments. -/
theorem fits_iff (wellFormed : source.WellFormedSchema) {binding : Binding State} :
    binding.Fits source.schema ↔
      ∃ field, source.schema.DeclaresField binding.typeName field ∧ field.name = binding.fieldName ∧
        ∀ argument ∈ field.arguments, argument.name ∈ binding.arguments := by
  simp only [wellFormed.declaresField_iff]
  constructor
  · rintro ⟨type, field, declared, found, accepts⟩
    have name : field.name = binding.fieldName := by simpa using List.find?_some found
    exact ⟨field, ⟨type, declared, name ▸ found⟩, name, accepts⟩
  · rintro ⟨field, ⟨type, declared, found⟩, name, accepts⟩
    exact ⟨type, field, declared, name ▸ found, accepts⟩

end Document.WellFormedSchema

namespace Engine

variable {State : Type} {schema : Schema} {registry : Registry State}
  {configuration : Configuration}

/-- Resolvers that fit a schema make an engine, and only those. -/
theorem bind_eq_ok_iff {engine : Engine State} :
    bind schema registry configuration = .ok engine ↔
      registry.Fits schema ∧ engine = { schema, registry, configuration } := by
  rw [bind, Checks.then_eq_ok, Registry.validate_eq_ok_iff]
  simp [pure, Except.pure, eq_comm]

/-- An engine can be made of a schema and a registry if and only if they fit. -/
theorem exists_bind_iff :
    (∃ engine, bind schema registry configuration = .ok engine) ↔ registry.Fits schema := by
  simp [bind_eq_ok_iff]

end Engine

end GraphQL
