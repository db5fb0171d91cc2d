import GraphQL.Proofs.Inputs.References
import GraphQL.Proofs.Visits.Runs

/-!
# What a run looks up

Types and resolvers are looked up by name while an operation is executed. If the schema was accepted
and the resolvers were validated against it, each of these look-ups finds what it is made for: a
visit is at an object type of the schema or at a type that its fields may have, since it is led to
by one that is. Then the resolver of a field that is called is bound, and a name at which a value is
completed or an argument is read is that of a type that can stand there.
-/

set_option autoImplicit false

namespace GraphQL

open Relation (ReflTransGen)

namespace Registry

variable {State : Type} {registry : Registry State} {schema : Schema}

/-- In a registry that fits a schema, every field of an object type is bound. -/
theorem exists_lookup_of_validate (valid : registry.validate schema = .ok ()) {type : ObjectType}
    (declared : .object type ∈ schema.types) {field : FieldDefinition} (member : field ∈ type.fields) :
    ∃ binding, registry.lookup type.name field.name = .ok binding := by
  have bound := (Checks.then_eq_ok.1 valid).2
  have listed : type ∈ schema.objectTypes := List.mem_filterMap.2 ⟨_, declared, rfl⟩
  have ofType := Checks.forM_eq_ok.1 (Checks.forM_eq_ok.1 bound type listed) field member
  obtain ⟨binding, found, -⟩ := Checks.bind_eq_ok.1 ofType
  exact ⟨binding, found⟩

/-- A call for which a resolver is bound is answered by it. -/
theorem Answers.ne_unbound {timeout : Option Duration} {answer : Answer}
    (allowed : registry.Answers timeout answer) {binding : Binding State}
    (bound : registry.lookup answer.call.typeName answer.call.fieldName = .ok binding)
    (cause : BindingError) : answer.outcome ≠ .unbound cause := by
  cases allowed with
  | unbound lookup =>
    rw [lookup] at bound
    cases bound
  | aborted => simp
  | ended => exact (Outcome.within_kept _ _ _).2 cause

end Registry

/-- A visit is at an object type of a schema, or at a type that fields of it may have. -/
def Visit.Declared (schema : Schema) : Visit → Prop
  | .object _ type _ _ => .object type ∈ schema.types
  | .field type _ _ _ => .object type ∈ schema.types
  | .value _ _ type _ _ => schema.Output type

namespace Marking

variable {m : Marking}

/-- A call is for a declared field of the object type. -/
theorem field_of_request? {type : ObjectType} {parent : Json} {path : Path} {group : FieldGroup}
    {definition : FieldDefinition} {call : Call}
    (h : m.request? type parent path group = some (definition, call)) :
    definition ∈ type.fields ∧ call.typeName = type.name ∧ call.fieldName = definition.name := by
  unfold request? at h
  split at h
  · cases h
  split at h
  · cases h
  · next own known =>
    have same := List.find?_some known
    split at h
    · cases h
      exact ⟨List.mem_of_find?_eq_some known, rfl, (beq_iff_eq.1 same).symm⟩
    · cases h

/-- A declared visit leads to declared ones. -/
theorem Leads.declared (closed : m.schema.Closed) {earlier later : Visit}
    (leads : m.Leads earlier later) (declared : earlier.Declared m.schema) :
    later.Declared m.schema := by
  cases leads with
  | field => exact declared
  | outcome h => exact closed.outputs _ declared _ (field_of_request? h).1
  | nonNull => exact declared
  | item => exact declared
  | object h => exact (Schema.mem_of_type? h).1

/-- Everything that is visited from a declared visit on is declared. -/
theorem Reaches.declared (closed : m.schema.Closed) {earlier later : Visit}
    (reached : m.Reaches earlier later) (declared : earlier.Declared m.schema) :
    later.Declared m.schema := by
  induction reached with
  | refl => exact declared
  | tail _ leads ih => exact leads.declared closed ih

/-- Checking a sub-selection never says that a resolver is missing. -/
theorem checkSelection_ne_binding {schema : Schema} {definition : FieldDefinition}
    {selections : List Selection} {cause : BindingError} :
    schema.checkSelection definition selections ≠ some (.binding cause) := by
  unfold Schema.checkSelection
  split <;> simp

/-- Where every call that a visit makes is answered by a resolver, it finds no missing one. -/
theorem Finds.ne_binding {visit : Visit} {fault : Fault} (finds : m.Finds visit fault)
    (bound : ∀ call, m.Makes visit call → ∀ cause, m.outcome call ≠ .unbound cause)
    (cause : BindingError) : fault ≠ .execution (.binding cause) := by
  rintro rfl
  cases finds with
  | selection h => exact checkSelection_ne_binding h
  | unbound h ended => exact bound _ (.field h) _ ended

end Marking

namespace Engine

variable {State : Type} {engine : Engine State} {request : Request}

/-- Queries have a root type, and mutations have one if the schema names it. -/
theorem rootType?_eq_none_iff (closed : engine.schema.Closed) {kind : OperationKind}
    (executable : kind ≠ .subscription) :
    engine.rootType? kind = none ↔ kind = .mutation ∧ engine.schema.mutationRoot = none := by
  cases kind with
  | query =>
    obtain ⟨root, found⟩ := closed.queryRoot
    simp [rootType?, Schema.root?, found]
  | mutation =>
    cases named : engine.schema.mutationRoot with
    | none => simp [rootType?, Schema.root?, named]
    | some name =>
      obtain ⟨root, found⟩ := closed.mutationRoot name named
      simp [rootType?, Schema.root?, named, found]
  | subscription => exact absurd rfl executable

/-- A query of an accepted document is selected, since there is always a root for queries. -/
theorem exists_select_of_query (closed : engine.schema.Closed) {document : ExecutableDocument}
    {definition : OperationDefinition} (asks : engine.Asks request document definition)
    (query : definition.kind = .query) :
    ∃ rootType, engine.select request = .ok (document.linkOperation definition, rootType) := by
  have executable : definition.kind ≠ .subscription := by simp [query]
  cases root : engine.rootType? definition.kind with
  | none =>
    have mutation := ((rootType?_eq_none_iff closed executable).1 root).1
    rw [query] at mutation
    cases mutation
  | some rootType =>
    exact ⟨rootType, select_eq_ok_iff.2 ⟨document, definition, asks, executable, root, rfl⟩⟩

/-- Mutations are refused where the schema has no root for them, and nowhere else. -/
theorem refuses_mutation_iff (closed : engine.schema.Closed) :
    engine.select request = .error .mutationNotSupported ↔
      ∃ document definition, engine.Asks request document definition ∧
        definition.kind = .mutation ∧ engine.schema.mutationRoot = none := by
  rw [select_eq_mutationNotSupported_iff]
  constructor
  · rintro ⟨document, definition, asks, executable, root⟩
    exact ⟨document, definition, asks, (rootType?_eq_none_iff closed executable).1 root⟩
  · rintro ⟨document, definition, asks, mutation, unnamed⟩
    have executable : definition.kind ≠ .subscription := by simp [mutation]
    exact ⟨document, definition, asks, executable,
      (rootType?_eq_none_iff closed executable).2 ⟨mutation, unnamed⟩⟩

/-- Everything that is visited is at a type of the schema. -/
theorem declared_of_visits (closed : engine.schema.Closed) {world : World State}
    {operation : Operation} {rootType : ObjectType}
    (selected : engine.select request = .ok (operation, rootType)) {visit : Visit}
    (visited : (engine.marking request operation world).Visits operation rootType visit) :
    visit.Declared engine.schema := by
  obtain ⟨document, definition, -, -, root, -⟩ := select_eq_ok_iff.1 selected
  obtain ⟨name, -, found⟩ := Option.bind_eq_some_iff.1 root
  have declared : .object rootType ∈ engine.schema.types :=
    (Schema.mem_of_type? (Schema.object?_eq_some_iff.1 found)).1
  exact Marking.Reaches.declared closed visited declared

/-- The field of every call that a visit makes is bound. -/
theorem exists_lookup_of_makes (closed : engine.schema.Closed)
    (valid : engine.registry.validate engine.schema = .ok ()) {world : World State}
    {operation : Operation} {rootType : ObjectType}
    (selected : engine.select request = .ok (operation, rootType)) {visit : Visit}
    (visited : (engine.marking request operation world).Visits operation rootType visit)
    {call : Call} (makes : (engine.marking request operation world).Makes visit call) :
    ∃ binding, engine.registry.lookup call.typeName call.fieldName = .ok binding := by
  cases makes with
  | field h =>
    obtain ⟨member, ofType, ofField⟩ := Marking.field_of_request? h
    rw [ofType, ofField]
    exact Registry.exists_lookup_of_validate valid (declared_of_visits closed selected visited) member

/-- No call ends for want of a resolver. -/
theorem ne_unbound_of_answers (closed : engine.schema.Closed)
    (valid : engine.registry.validate engine.schema = .ok ()) (state : State)
    (cancelAt : Option Nat) {operation : Operation} {rootType : ObjectType}
    (selected : engine.select request = .ok (operation, rootType)) :
    let world := (engine.execute request state cancelAt).world
    let m := engine.marking request operation world
    (∀ visit call, m.Visits operation rootType visit → m.Makes visit call →
      ∀ cause, m.outcome call ≠ .unbound cause) ∧
    ∀ call cause, .ended call (.unbound cause) ∉ world.history := by
  intro world m
  obtain ⟨answers, perm, -, answered, made⟩ := engine.execute_answers state cancelAt selected
  have settled : ∀ answer ∈ answers, ∀ cause, answer.outcome ≠ .unbound cause := by
    intro answer member
    obtain ⟨visit, visited, makes⟩ := (made answer.call).1 (List.mem_map_of_mem member)
    obtain ⟨binding, bound⟩ := exists_lookup_of_makes closed valid selected visited makes
    exact (answered answer member).2.ne_unbound bound
  refine ⟨fun visit call visited makes cause => ?_, fun call cause member => ?_⟩
  · obtain ⟨answer, member, rfl⟩ := List.mem_map.1 ((made call).2 ⟨visit, visited, makes⟩)
    rw [(answered answer member).1]
    exact settled answer member cause
  · obtain ⟨answer, hanswer, -, unbound⟩ := (Answer.ended_mem_iff perm).1 member
    exact settled answer hanswer cause unbound

/-- If the schema was accepted and the resolvers were validated, whatever a request looks up by name
is there: the root type of a query and of a mutation that the schema supports, the resolver of every
field that is called, and at every name at which a value is completed or an argument is read a type
that can stand there. -/
theorem execute_finds (engine : Engine State) {limit : Nat} {text : String}
    (accepted : Schema.parseWithin limit text = .ok engine.schema)
    (valid : engine.registry.validate engine.schema = .ok ()) (request : Request) (state : State)
    (cancelAt : Option Nat) :
    let schema := engine.schema
    let execution := engine.execute request state cancelAt
    (∀ document definition, engine.Asks request document definition → definition.kind = .query →
      ∃ rootType, engine.select request = .ok (document.linkOperation definition, rootType)) ∧
    (engine.select request = .error .mutationNotSupported ↔
      ∃ document definition, engine.Asks request document definition ∧
        definition.kind = .mutation ∧ schema.mutationRoot = none) ∧
    (∀ cause, engine.select request = .error cause →
      execution.world.history = [] ∧ execution.response.errors = [Reportable.report none cause]) ∧
    ∀ operation rootType, engine.select request = .ok (operation, rootType) →
      let m := engine.marking request operation execution.world
      (∀ visit call, m.Visits operation rootType visit → m.Makes visit call →
        ∃ binding, engine.registry.lookup call.typeName call.fieldName = .ok binding) ∧
      (∀ call cause, .ended call (.unbound cause) ∉ execution.world.history) ∧
      (∀ visit fault, m.Visits operation rootType visit → m.Finds visit fault →
        ∀ cause, fault ≠ .execution (.binding cause)) ∧
      (∀ error ∈ execution.response.errors,
        error = Reportable.report none ExecutionError.cancelled ∨
          ∃ visit fault, m.Visits operation rootType visit ∧ m.Finds visit fault ∧
            error = fault.report visit.path) ∧
      (∀ field selections name value path,
        m.Visits operation rootType (.value field selections (.named name) value path) →
        (∃ type, schema.type? name = some (.object type)) ∨
          (∃ type, schema.type? name = some (.enum type)) ∨
          ∃ scalar, schema.type? name = some (.scalar scalar)) ∧
      ∀ type parent path group definition,
        m.Visits operation rootType (.field type parent path group) →
        type.field? group.first.name = some definition →
        Checks.FailsOnly (Coercion.Blames schema) (Coercion.coerceArguments schema m.vars type.name
          definition group.first.arguments) ∧
        ∀ argument ∈ definition.arguments, ∀ name,
          ReflTransGen schema.ReadsAt argument.type (.named name) →
          (∃ type, schema.type? name = some (.enum type)) ∨
            (∃ type, schema.type? name = some (.inputObject type)) ∨
            ∃ scalar, schema.type? name = some (.scalar scalar) := by
  intro schema execution
  -- that the schema is closed is all that the look-ups need of it
  have closed := Schema.closed_of_parseWithin accepted
  refine ⟨fun document definition => exists_select_of_query closed, refuses_mutation_iff closed,
    ?_, ?_⟩
  · intro cause rejected
    simp [execution, execute, rejected, Response.rejected]
  · intro operation rootType selected m
    obtain ⟨outcomes, history⟩ := ne_unbound_of_answers closed valid state cancelAt selected
    refine ⟨fun visit call visited => exists_lookup_of_makes closed valid selected visited, history,
      ?_, fun error => engine.exists_fault_of_mem_errors state cancelAt selected, ?_, ?_⟩
    · intro visit fault visited finds
      exact finds.ne_binding fun call => outcomes visit call visited
    · intro field selections name value path visited
      exact (declared_of_visits closed selected visited).named
    · intro type parent path group definition visited known
      have declared : .object type ∈ schema.types := declared_of_visits closed selected visited
      have member := List.mem_of_find?_eq_some known
      refine ⟨Coercion.coerceArguments_blames closed declared member _, ?_⟩
      intro argument ofField name reads
      exact (closed.input_of_readsAt (closed.inputs _ declared argument (.argument member ofField))
        reads).named

/-- Trees that have trees, which are looked for by what they are not like. -/
def groveText : String :=
  "input Like {not: Like} type Query {tree(like: Like): Query tall: Boolean}"

/-- The schema of trees. -/
def groveSchema : Schema :=
  (Schema.parseWithin 64 groveText).toOption.getD
    { types := [], queryRoot := "", mutationRoot := none }

/-- An engine for trees, all of which are tall. -/
def grove : Engine Unit where
  schema := groveSchema
  registry :=
    { bindings :=
        [{ typeName := "Query", fieldName := "tree", arguments := ["like"],
           resolver := .compute fun _ => .ok (.object []) },
          { typeName := "Query", fieldName := "tall",
            resolver := .compute fun _ => .ok (.bool true) }] }

/-- The text is that of the schema of the grove. -/
theorem accepted_grove : Schema.parseWithin 64 groveText = .ok grove.schema := by
  have read : (Schema.parseWithin 64 groveText).isOk = true := by decide +kernel
  unfold grove
  dsimp only
  unfold groveSchema
  exact Checks.eq_ok_getD read _

/-- The resolvers of the grove fit its schema. -/
theorem valid_grove : grove.registry.validate grove.schema = .ok () := by
  have passed : (grove.registry.validate grove.schema).isOk = true := by decide +kernel
  exact Checks.isOk_eq_true_iff.1 passed

/-- Looking for a tree and how tall it is calls two resolvers, both of which are bound. -/
theorem execute_finds_grove :
    let request : Request := { query := some "{tree(like: {not: {}}) {tall}}" }
    (∃ operation rootType, grove.select request = .ok (operation, rootType)) ∧
      (grove.execute request () none).world.calls.length = 2 ∧
      ∀ call cause, .ended call (.unbound cause) ∉ (grove.execute request () none).world.history := by
  intro request
  have calls : (grove.execute request () none).world.calls.length = 2 := by decide +kernel
  obtain ⟨operation, rootType, selected⟩ :
      ∃ operation rootType, grove.select request = .ok (operation, rootType) :=
    exists_selected (by decide +kernel)
  obtain ⟨-, -, -, finds⟩ := execute_finds grove accepted_grove valid_grove request () none
  obtain ⟨-, bound, -⟩ := finds operation rootType selected
  exact ⟨⟨operation, rootType, selected⟩, calls, bound⟩

end Engine

end GraphQL
