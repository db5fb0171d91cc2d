import Mathlib
import GraphQL.Proofs.Registries.Validation
import GraphQL.Proofs.Schemas.Agreeing

/-!
# The order of definitions

Whether a document is accepted as a schema does not depend on the order of its definitions, and
neither does the type under a name nor the root for a kind of operation. So documents with the same
definitions in another order define schemas that agree, although their types stand in another order,
and with the same resolvers they make engines that answer alike (`Schema.parseWithin_perm`).
-/

set_option autoImplicit false

namespace GraphQL

namespace Document

variable {source shuffled : Document}

/-- Documents with the same definitions in another order declare the same types. -/
theorem types_perm (perm : source.Perm shuffled) : source.types.Perm shuffled.types :=
  perm.filterMap _

/-- Documents with the same definitions in another order lead to schemas with the same types. -/
theorem schema_types_perm (perm : source.Perm shuffled) :
    source.schema.types.Perm shuffled.schema.types :=
  (types_perm perm).append_left _

/-- There is at most one schema block, so that its place makes no difference. -/
theorem schemaBlocks_eq_of_perm (perm : source.Perm shuffled)
    (atMostOne : source.schemaBlocks.length ≤ 1) : shuffled.schemaBlocks = source.schemaBlocks := by
  have blocks : source.schemaBlocks.Perm shuffled.schemaBlocks := perm.filterMap _
  match h : source.schemaBlocks, atMostOne with
  | [], _ =>
    rw [h] at blocks
    exact List.nil_perm.1 blocks
  | [_], _ =>
    rw [h] at blocks
    exact List.perm_singleton.1 blocks.symm

/-- The roots do not depend on the order of the definitions. -/
theorem root?_eq_of_perm (perm : source.Perm shuffled) (atMostOne : source.schemaBlocks.length ≤ 1) :
    shuffled.root? = source.root? := by
  have blocks := schemaBlocks_eq_of_perm perm atMostOne
  funext kind
  cases h : source.schemaBlocks with
  | nil =>
    have types := (schema_types_perm perm).any_eq (f := fun type => type.name == kind.render)
    rw [Schema.root?_of_no_block (blocks.trans h), Schema.root?_of_no_block h, types]
  | cons roots rest => simp only [root?, blocks, h]

/-- Documents with the same definitions in another order define schemas that agree. -/
theorem agrees_of_perm (perm : source.Perm shuffled) (atMostOne : source.schemaBlocks.length ≤ 1)
    (distinct : ({ types := source.types } : Schema.Draft).DistinctNames) :
    source.schema.Agrees shuffled.schema := by
  have roots := root?_eq_of_perm perm atMostOne
  have distinct' : ({ types := shuffled.types } : Schema.Draft).DistinctNames :=
    ⟨((types_perm perm).map _).nodup_iff.1 distinct.names,
      fun type member => distinct.notBuiltin type ((types_perm perm).mem_iff.2 member)⟩
  refine ⟨?_, ?_, ?_⟩
  · funext name
    refine Option.ext fun type => ?_
    rw [Schema.type?_eq_some_iff distinct, Schema.type?_eq_some_iff distinct',
      (schema_types_perm perm).mem_iff]
  · simp only [schema, roots]
  · simp only [schema, roots]

/-- A well-formed document stays so when its definitions are put in another order. -/
theorem WellFormedSchema.of_perm (wellFormed : source.WellFormedSchema)
    (perm : source.Perm shuffled) : shuffled.WellFormedSchema := by
  have blocks := schemaBlocks_eq_of_perm perm wellFormed.schemaBlocks
  have roots := root?_eq_of_perm perm wellFormed.schemaBlocks
  have agrees := agrees_of_perm perm wellFormed.schemaBlocks
    ⟨wellFormed.typeNames, wellFormed.notBuiltin⟩
  have members : ∀ type, type ∈ shuffled.types ↔ type ∈ source.types :=
    fun type => (types_perm perm).mem_iff.symm
  have targets : ∀ type, type ∈ shuffled.schema.types ↔ type ∈ source.schema.types :=
    fun type => (schema_types_perm perm).mem_iff.symm
  exact
    { typeSystem := fun definition member =>
        wellFormed.typeSystem definition (perm.mem_iff.2 member)
      schemaBlocks := by rw [blocks]; exact wellFormed.schemaBlocks
      subscription := by rw [blocks]; exact wellFormed.subscription
      typeNames := ((types_perm perm).map _).nodup_iff.1 wellFormed.typeNames
      notBuiltin := by simpa only [members] using wellFormed.notBuiltin
      distinctParts := by simpa only [members] using wellFormed.distinctParts
      hasFields := by simpa only [members] using wellFormed.hasFields
      queryRoot := by simpa only [roots, members] using wellFormed.queryRoot
      mutationRoot := by simpa only [roots, members] using wellFormed.mutationRoot
      outputs := by simpa only [members, targets] using wellFormed.outputs
      inputs := by simpa only [members, targets] using wellFormed.inputs
      defaults := by simpa only [members, agrees.coerceLiteral] using wellFormed.defaults }

end Document

/-- A registry fits a schema or not whatever the order of the types. -/
theorem Registry.Fits.of_perm {State : Type} {registry : Registry State} {first second : Schema}
    (fits : registry.Fits first) (agrees : first.Agrees second)
    (perm : first.types.Perm second.types) : registry.Fits second where
  declared := by simpa only [Binding.Fits, agrees.object?] using fits.declared
  bound type member := fits.bound type ((perm.filterMap _).mem_iff.2 member)

namespace Schema

/-- A text is accepted as a schema just if its document is well-formed. -/
theorem exists_parseWithin_iff {limit : Nat} {text : String} {source : Document}
    (read : Document.parse? limit text = some source) :
    (∃ schema, parseWithin limit text = .ok schema) ↔ source.WellFormedSchema := by
  simp [parseWithin_ok_iff_wellFormedSchema, read]

/-- The order of definitions does not matter. Of two texts with the same definitions in some order
both are accepted as a schema or none is; the schemas have the same roots and the same type under
every name; and resolvers make engines of both or of none, which answer every request alike. -/
theorem parseWithin_perm {limit : Nat} {text text' : String} {source shuffled : Document}
    (read : Document.parse? limit text = some source)
    (read' : Document.parse? limit text' = some shuffled) (perm : source.Perm shuffled) :
    ((∃ schema, parseWithin limit text = .ok schema) ↔
        ∃ schema, parseWithin limit text' = .ok schema) ∧
      ∀ schema schema', parseWithin limit text = .ok schema → parseWithin limit text' = .ok schema' →
        schema'.root? = schema.root? ∧ schema'.type? = schema.type? ∧
        ∀ (State : Type) (registry : Registry State) (configuration : Configuration),
          ((∃ engine, Engine.bind schema registry configuration = .ok engine) ↔
            ∃ engine, Engine.bind schema' registry configuration = .ok engine) ∧
          ∀ engine engine', Engine.bind schema registry configuration = .ok engine →
            Engine.bind schema' registry configuration = .ok engine' →
              engine'.execute = engine.execute := by
  constructor
  · rw [exists_parseWithin_iff read, exists_parseWithin_iff read']
    exact ⟨fun wellFormed => wellFormed.of_perm perm, fun wellFormed => wellFormed.of_perm perm.symm⟩
  intro schema schema' accepted accepted'
  have defines : ∀ {text source schema}, Document.parse? limit text = some source →
      parseWithin limit text = .ok schema → source.WellFormedSchema ∧ schema = source.schema := by
    intro text source schema read accepted
    obtain ⟨own, same, wellFormed, rfl⟩ :=
      (parseWithin_ok_iff_wellFormedSchema limit text schema).1 accepted
    obtain rfl := Option.some.inj (same.symm.trans read)
    exact ⟨wellFormed, rfl⟩
  obtain ⟨wellFormed, rfl⟩ := defines read accepted
  obtain ⟨-, rfl⟩ := defines read' accepted'
  have agrees : source.schema.Agrees shuffled.schema := Document.agrees_of_perm perm
    wellFormed.schemaBlocks ⟨wellFormed.typeNames, wellFormed.notBuiltin⟩
  have types := Document.schema_types_perm perm
  refine ⟨agrees.root?, agrees.type?, fun State registry configuration => ⟨?_, ?_⟩⟩
  · simp only [Engine.exists_bind_iff]
    exact ⟨fun fits => fits.of_perm agrees types, fun fits => fits.of_perm agrees.symm types.symm⟩
  · intro engine engine' made made'
    obtain ⟨-, rfl⟩ := Engine.bind_eq_ok_iff.1 made
    obtain ⟨-, rfl⟩ := Engine.bind_eq_ok_iff.1 made'
    exact agrees.execute_eq rfl rfl

/-- The object types of a schema for houses. -/
def houseTypes : List Definition :=
  [.object { name := "Query"
             fields := [{ name := "house", type := .named "House", arguments := [] }] },
    .object { name := "House"
              fields := [{ name := "rooms", type := .builtin .int, arguments := [] }] }]

/-- A schema for houses is accepted also if what a house is comes first, and then its types stand in
another order. -/
theorem parseWithin_perm_houses :
    ∃ schema schema',
      parseWithin 64 "type Query {house: House} type House {rooms: Int}" = .ok schema ∧
      parseWithin 64 "type House {rooms: Int} type Query {house: House}" = .ok schema' ∧
      schema'.types.map (·.name) ≠ schema.types.map (·.name) ∧ schema'.type? = schema.type? := by
  have read : Document.parse? 64 "type Query {house: House} type House {rooms: Int}" =
      some houseTypes := by
    cbv
  have read' : Document.parse? 64 "type House {rooms: Int} type Query {house: House}" =
      some houseTypes.reverse := by
    cbv
  have accepted : ofDocument houseTypes = .ok (Document.schema houseTypes) := by rfl
  have accepted' : ofDocument houseTypes.reverse = .ok (Document.schema houseTypes.reverse) := by
    rfl
  have made : parseWithin 64 "type Query {house: House} type House {rooms: Int}" =
      .ok (Document.schema houseTypes) := by
    rw [parseWithin, read]
    exact accepted
  have made' : parseWithin 64 "type House {rooms: Int} type Query {house: House}" =
      .ok (Document.schema houseTypes.reverse) := by
    rw [parseWithin, read']
    exact accepted'
  obtain ⟨-, agree⟩ := parseWithin_perm read read' (List.reverse_perm houseTypes).symm
  exact ⟨_, _, made, made', by decide, (agree _ _ made made').2.1⟩

end Schema

end GraphQL
