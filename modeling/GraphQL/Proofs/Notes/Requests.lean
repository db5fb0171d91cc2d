import GraphQL.Proofs.Jobs.Mutations
import GraphQL.Proofs.Notes.Service
import GraphQL.Proofs.Notes.Store
import GraphQL.Proofs.Visits.Runs

/-!
# Requests to the service of notes

A query observes the store of notes: it never writes one, whatever it selects. A mutation creates
the notes that its root fields ask for, in the order of their response keys, and does nothing else;
whether its response has any data makes no difference (`Notes.execute_effect`).
-/

set_option autoImplicit false

namespace GraphQL

namespace Notes

open Coercion

variable {configuration : Configuration}

/-- The user and the text of the note that a root field asks for: it is the field that creates
notes, with a sub-selection and with arguments that are read. -/
def asked? (vars : Variables) (group : FieldGroup) : Option (String × String) :=
  if group.first.name = "createNote" ∧ group.selections ≠ [] then
    match coerceArguments schema vars "Mutation" creation group.first.arguments with
    | .ok [("userID", .string userID), ("note", .object [("data", .string data)])] =>
      some (userID, data)
    | _ => none
  else none

/-- Where the arguments are those of a user and a text, a note is asked for with them. -/
theorem asked?_of_coerceArguments {vars : Variables} {group : FieldGroup}
    (name : group.first.name = "createNote") (selects : group.selections ≠ [])
    {userID data : String}
    (read : coerceArguments schema vars "Mutation" creation group.first.arguments =
      .ok [("userID", .string userID), ("note", .object [("data", .string data)])]) :
    asked? vars group = some (userID, data) := by
  rw [asked?, if_pos ⟨name, selects⟩, read]
  rfl

/-- What is asked for is what the arguments say. -/
theorem coerceArguments_of_asked? {vars : Variables} {group : FieldGroup} {userID data : String}
    (asked : asked? vars group = some (userID, data)) :
    coerceArguments schema vars "Mutation" creation group.first.arguments =
      .ok [("userID", .string userID), ("note", .object [("data", .string data)])] := by
  unfold asked? at asked
  split at asked
  · split at asked
    · next read =>
      cases asked
      exact read
    · cases asked
  · cases asked

/-- A note is asked for by a selected field of that name whose arguments can be read. -/
theorem isSome_asked?_iff {vars : Variables} {group : FieldGroup} :
    (asked? vars group).isSome = true ↔
      group.first.name = "createNote" ∧ group.selections ≠ [] ∧
        (coerceArguments schema vars "Mutation" creation group.first.arguments).isOk = true := by
  constructor
  · intro asked
    obtain ⟨⟨userID, data⟩, asked⟩ := Option.isSome_iff_exists.1 asked
    have wanted : group.first.name = "createNote" ∧ group.selections ≠ [] := by
      rw [asked?, Option.ite_none_right_eq_some] at asked
      exact asked.1
    exact ⟨wanted.1, wanted.2, by rw [coerceArguments_of_asked? asked]; rfl⟩
  · rintro ⟨name, selects, read⟩
    cases arguments : coerceArguments schema vars "Mutation" creation group.first.arguments with
    | error cause =>
      rw [arguments] at read
      cases read
    | ok values =>
      obtain ⟨userID, data, rfl⟩ := exists_of_coerceArguments arguments
      rw [asked?_of_coerceArguments name selects arguments]
      rfl

section Fields

variable {scope : ExecutionScope}

/-- The only mutation is the one that creates notes. -/
theorem field?_mutationRoot {name : String} {definition : FieldDefinition}
    (found : mutationRoot.field? name = some definition) :
    name = "createNote" ∧ definition = creation := by
  have only : ∀ other ∈ mutationRoot.fields, other = creation := by
    simp [mutationRoot]
  obtain rfl := only definition (List.mem_of_find?_eq_some found)
  have named := List.find?_some found
  exact ⟨(beq_iff_eq.1 named).symm, rfl⟩

/-- A created note needs a sub-selection. -/
theorem checkSelection_creation {selections : List Selection} :
    schema.checkSelection creation selections = none ↔ selections ≠ [] := by
  cases selections with
  | nil =>
    have refused : schema.checkSelection creation [] =
        some (.missingSelection "createNote" creation.type) := rfl
    simp [refused]
  | cons first rest =>
    have accepted : schema.checkSelection creation (first :: rest) = none := rfl
    simp [accepted]

/-- The call that creates a note. -/
def creationCall (key userID data : String) : Call where
  parent := .null
  arguments := [("userID", .string userID), ("note", .object [("data", .string data)])]
  path := [.key key]
  typeName := "Mutation"
  fieldName := "createNote"

/-- A root field of a mutation calls for a note that it asks for, and else for nothing. -/
theorem entry_cases (own : scope.schema = schema) (group : FieldGroup) :
    (asked? scope.vars group = none ∧
      ∃ completion, scope.entry mutationRoot group = .done completion) ∨
    ∃ userID data, asked? scope.vars group = some (userID, data) ∧
      scope.entry mutationRoot group = .call (creationCall group.key userID data)
        (scope.afterCall { typeName := "Mutation", fieldName := "createNote" }
          (scope.selectionPlan (Selection.depthAll group.selections) (!scope.parallel)
            group.selections)
          creation.type [.key group.key]) := by
  have unasked : ¬ (group.first.name = "createNote" ∧ group.selections ≠ []) →
      asked? scope.vars group = none := fun other => if_neg other
  generalize hplan : scope.entry mutationRoot group = plan
  unfold ExecutionScope.entry ExecutionScope.fieldPlan at hplan
  rw [own] at hplan
  dsimp only at hplan
  split at hplan
  · next introspects =>
    refine .inl ⟨unasked fun wanted => ?_, _, hplan.symm⟩
    rw [wanted.1] at introspects
    cases introspects
  · split at hplan
    · next unknown =>
      refine .inl ⟨unasked fun wanted => ?_, _, hplan.symm⟩
      rw [wanted.1] at unknown
      cases unknown
    · next definition found =>
      obtain ⟨name, rfl⟩ := field?_mutationRoot found
      split at hplan
      · next refused =>
        refine .inl ⟨unasked fun wanted => ?_, _, hplan.symm⟩
        rw [checkSelection_creation.2 wanted.2] at refused
        cases refused
      · next accepted =>
        have selects := checkSelection_creation.1 accepted
        split at hplan
        · next cause read =>
          refine .inl ⟨?_, _, hplan.symm⟩
          rw [asked?, if_pos ⟨name, selects⟩]
          change coerceArguments schema scope.vars "Mutation" creation group.first.arguments =
            .error cause at read
          rw [read]
        · next arguments read =>
          obtain ⟨userID, data, rfl⟩ := exists_of_coerceArguments read
          refine .inr ⟨userID, data, asked?_of_coerceArguments name selects read, ?_⟩
          rw [← hplan, name]
          rfl

/-- An action that is done ends without a further write. -/
theorem run_done (call : Call) (deadline : Option Deadline) (result : Except FieldError Json)
    (world : World NoteStore) :
    ∃ ended outcome, (Action.done result).run call deadline world = .done ended outcome ∧
      ended.state = world.state := by
  cases result with
  | ok value => exact ⟨_, _, rfl, rfl⟩
  | error cause => exact ⟨_, _, rfl, rfl⟩

/-- Calling for a note creates it, if its user is there, and is over at once. -/
theorem perform_creation (configuration : Configuration) (key userID data : String)
    (timeout : Option Duration) (store : NoteStore) :
    ∃ world outcome,
      (service configuration).registry.perform timeout (creationCall key userID data)
        { state := store } = .done world outcome ∧
      world.state = (store.createNote userID data).1 := by
  have bound : (service configuration).registry.lookup "Mutation" "createNote" =
      .ok { typeName := "Mutation", fieldName := "createNote", arguments := ["userID", "note"],
            fallible := true, resolver := createNote } := rfl
  obtain ⟨result, acts⟩ : ∃ result : NoteStore → Except FieldError Json,
      createNote (creationCall key userID data) =
        .read fun store => .write (store.createNote userID data).1 (.done (result store)) :=
    ⟨_, rfl⟩
  unfold Registry.perform
  rw [show (creationCall key userID data).typeName = "Mutation" from rfl,
    show (creationCall key userID data).fieldName = "createNote" from rfl, bound]
  simp only [Bool.false_eq_true, if_false, acts, Action.run]
  exact run_done _ _ _ _

/-- The calls that observers make write nothing. -/
theorem restrains_observers (configuration : Configuration) (call : Call)
    (observed : ∃ type, Observer type ∧ call.typeName = type.name) :
    (service configuration).registry.Restrains False call := by
  obtain ⟨type, observer, name⟩ := observed
  exact (restrains configuration call).mono fun root => observer.2 (name.symm.trans root)

/-- A root field creates the note that it asks for, and nothing else happens to the store. -/
theorem state_run_entry (own : scope.schema = schema) (group : FieldGroup) (store : NoteStore) :
    ((service configuration).run (scope.entry mutationRoot group) store none).1.state =
      store.createAll (asked? scope.vars group).toList := by
  rcases entry_cases own group with
    ⟨unasked, completion, plan⟩ | ⟨userID, data, asked, plan⟩
  · rw [unasked, plan]
    rfl
  · rw [asked, plan]
    obtain ⟨world, outcome, performed, created⟩ := perform_creation configuration group.key userID
      data configuration.resolverTimeout store
    have observes : Plan.CallsOnly (fun call => ∃ type, Observer type ∧ call.typeName = type.name)
        (scope.afterCall { typeName := "Mutation", fieldName := "createNote" }
          (scope.selectionPlan (Selection.depthAll group.selections) (!scope.parallel)
            group.selections)
          creation.type [.key group.key] outcome) := by
      refine ExecutionScope.callsOnly_afterCall _ _ _ fun target found parent path => ?_
      refine ExecutionScope.callsOnly_selectionPlan (own ▸ closedAmong_observers) _ _ _ ?_ _ _
      obtain ⟨member, name⟩ := Schema.mem_of_type? (Schema.object?_eq_some_iff.1 (own ▸ found))
      have note : target.name = "Note" := name
      exact ⟨member, by rw [note]; decide⟩
    have later := observes.finish_unwritten (restrains_observers configuration)
      configuration.resolverTimeout world
    rw [Engine.run, Plan.start, Job.bind]
    change (((Registry.perform _ configuration.resolverTimeout _ { state := store }).bind _).finish
      none).1.state = _
    rw [performed]
    exact later.1.trans created

end Fields

/-- The root fields of a mutation create the notes that they ask for one after the other. -/
theorem state_runFields {scope : ExecutionScope} (own : scope.schema = schema)
    (groups : List FieldGroup) (store : NoteStore) :
    (((service configuration).runFields scope mutationRoot groups store).map
        (·.2.1.state)).getLastD store = store.createAll (groups.filterMap (asked? scope.vars)) := by
  induction groups generalizing store with
  | nil => rfl
  | cons group rest ih =>
    rw [Engine.runFields, List.map_cons, List.getLastD_cons, ih, state_run_entry own]
    cases asked : asked? scope.vars group with
    | none => rw [List.filterMap_cons_none asked]; rfl
    | some call => rw [List.filterMap_cons_some asked]; rfl

section Selected

variable {request : Request} {operation : Operation} {rootType : ObjectType}

/-- What the service selects is a query on the one root or a mutation on the other. -/
theorem rootType_of_select
    (selected : (service configuration).select request = .ok (operation, rootType)) :
    operation.kind = .query ∧ rootType = queryRoot ∨
      operation.kind = .mutation ∧ rootType = mutationRoot := by
  obtain ⟨document, definition, -, executable, root, rfl⟩ := Engine.select_eq_ok_iff.1 selected
  have kind : (document.linkOperation definition).kind = definition.kind := rfl
  cases which : definition.kind with
  | query =>
    rw [which] at root
    exact .inl ⟨kind.trans which, (Option.some.inj root).symm⟩
  | mutation =>
    rw [which] at root
    exact .inr ⟨kind.trans which, (Option.some.inj root).symm⟩
  | subscription => exact absurd which executable

/-- A query writes no store. -/
theorem execute_query
    (selected : (service configuration).select request = .ok (operation, queryRoot))
    (store : NoteStore) :
    let world := ((service configuration).execute request store none).world
    world.state = store ∧ world.states = [] := by
  intro world
  have observer : Observer queryRoot := ⟨by simp [schema], by decide⟩
  have observes : (operation.plan schema configuration.parallelSiblings request.variableValues
      queryRoot).CallsOnly fun call => ∃ type, Observer type ∧ call.typeName = type.name :=
    ExecutionScope.callsOnly_selectionPlan closedAmong_observers _ _ _ observer _ _
  have unwritten := observes.finish_unwritten (restrains_observers configuration)
    configuration.resolverTimeout { state := store }
  have ran : world = ((service configuration).run (operation.plan schema
      configuration.parallelSiblings request.variableValues queryRoot) store none).1 := by
    rw [show world = ((service configuration).execute request store none).world from rfl,
      Engine.execute_of_select _ store none selected]
    rfl
  rw [ran]
  exact unwritten

/-- A mutation creates the notes that its root fields ask for. -/
theorem state_execute_mutation
    (selected : (service configuration).select request = .ok (operation, mutationRoot))
    (mutation : operation.kind = .mutation) (store : NoteStore) :
    ((service configuration).execute request store none).world.state =
      store.createAll ((collectFields "Mutation" operation.selections).filterMap
        (asked? { definitions := operation.variableDefinitions
                  values := request.variableValues })) := by
  have uncancelled :
      ((service configuration).execute request store none).world.cancelled = false := by
    rw [Engine.execute_of_select _ store none selected]
    exact (Plan.callsOnly_any _).finish_uncancelled
      (fun call _ => (restrains configuration call).mono fun _ => trivial) _ rfl
  obtain ⟨executed, -⟩ := Engine.execute_fields _ store selected mutation uncancelled
  rw [executed]
  obtain ⟨-, -, left, -⟩ := World.foldl_andThen
    (((service configuration).runFields ((service configuration).scope operation
      request.variableValues) mutationRoot (collectFields "Mutation" operation.selections)
        store).map (·.2.1)) { state := store }
  refine left.trans ?_
  rw [List.map_map]
  exact state_runFields rfl _ store

end Selected

/-- What requests do to the store, in every store that creating notes leads to from the seeded one.
A request that is rejected or that asks for a query leaves the store as it is and writes no other
one, so that it is answered alike when it is repeated. A mutation creates one note for each of its
root fields that is the field that creates notes, has a sub-selection and arguments that are read,
and names a user that is there; it does so in the order of the response keys, and nothing else,
whatever its response is. -/
theorem execute_effect {configuration : Configuration} {engine : Engine NoteStore}
    (loaded : Demo.notes.engine configuration = .ok engine) (calls : List (String × String))
    (request : Request) :
    let store := NoteStore.seeded.createAll calls
    let execution := engine.execute request store none
    ((∀ operation rootType, engine.select request = .ok (operation, rootType) →
        operation.kind ≠ .mutation) →
      execution.world.state = store ∧ execution.world.states = [] ∧
        engine.execute request execution.world.state none = execution) ∧
    ∀ operation rootType, engine.select request = .ok (operation, rootType) →
      operation.kind = .mutation →
        let vars : Variables :=
          { definitions := operation.variableDefinitions, values := request.variableValues }
        let groups := collectFields rootType.name operation.selections
        execution.world.state = store.createAll ((groups.filterMap (asked? vars)).filter
          fun asked => (store.user? asked.1).isSome) ∧
        ∀ group ∈ groups,
          ((asked? vars group).isSome = true ↔
            group.first.name = "createNote" ∧ group.selections ≠ [] ∧
              (coerceArguments engine.schema vars rootType.name creation
                group.first.arguments).isOk = true) ∧
          ∀ userID data, asked? vars group = some (userID, data) →
            coerceArguments engine.schema vars rootType.name creation group.first.arguments =
              .ok [("userID", .string userID), ("note", .object [("data", .string data)])] := by
  obtain ⟨-, rfl⟩ := engine_eq_ok_iff.1 loaded
  intro store execution
  constructor
  · intro observing
    -- a query writes nothing, and a request that is refused is not run
    have unwritten : execution.world.state = store ∧ execution.world.states = [] := by
      cases selected : (service configuration).select request with
      | error cause =>
        have rejected : execution =
            { response := .rejected [Reportable.report none cause]
              world := { state := store } } := by
          simp only [execution, Engine.execute, selected]
        rw [rejected]
        exact ⟨rfl, rfl⟩
      | ok chosen =>
        obtain ⟨operation, rootType⟩ := chosen
        rcases rootType_of_select selected with ⟨-, rfl⟩ | ⟨mutation, -⟩
        · exact execute_query selected store
        · exact absurd mutation (observing operation rootType selected)
    exact ⟨unwritten.1, unwritten.2, by rw [unwritten.1]⟩
  · intro operation rootType selected mutation vars groups
    rcases rootType_of_select selected with ⟨query, -⟩ | ⟨-, rfl⟩
    · rw [mutation] at query
      cases query
    · refine ⟨?_, fun group _ =>
        ⟨isSome_asked?_iff, fun userID data asked => coerceArguments_of_asked? asked⟩⟩
      rw [NoteStore.createAll_filter_known]
      exact state_execute_mutation selected mutation store

/-- A mutation of two root fields, the first one without a sub-selection. -/
def sampleText : String :=
  "mutation\x7ba:createNote b:createNote(userID:\"u-001\",note:\x7bdata:\"y\"\x7d)\x7bnoteID\x7d\x7d"

/-- The operation that `sampleText` gives. -/
def sampleDefinition : OperationDefinition where
  kind := .mutation
  name := none
  variableDefinitions := []
  selections :=
    [.field (some "a") "createNote" [] [],
      .field (some "b") "createNote" [("userID", .string "u-001"),
        ("note", .object [("data", .string "y")])] [.field none "noteID" [] []]]

/-- The document that `sampleText` gives. -/
def sampleDocument : ExecutableDocument where
  operations := [sampleDefinition]

/-- The text is read as the operation of these two root fields. -/
theorem parseWithin_sampleText :
    ExecutableDocument.parseWithin defaultRecursionLimit sampleText = .ok sampleDocument := by
  have read : Document.parse? defaultRecursionLimit sampleText =
      some [.operation sampleDefinition] := by
    unfold sampleText
    exact (Document.parse?_ofList rfl _).trans rfl
  rw [ExecutableDocument.parseWithin, read]
  cbv

/-- One note is created although another one cannot be, because of which there is no data. -/
theorem execute_effect_null :
    let request : Request := { query := sampleText }
    ((service {}).execute request (NoteStore.seeded.createAll [("u-002", "x")])
        none).response.data = none ∧
      ((service {}).execute request (NoteStore.seeded.createAll [("u-002", "x")])
        none).world.state = NoteStore.seeded.createAll [("u-002", "x"), ("u-001", "y")] := by
  intro request
  have loaded : Demo.notes.engine {} = .ok (service {}) := engine_eq_ok_iff.2 ⟨by decide, rfl⟩
  have selected : (service {}).select request =
      .ok (sampleDocument.linkOperation sampleDefinition, mutationRoot) :=
    Engine.select_eq_ok_iff.2
      ⟨_, _, ⟨sampleText, rfl, parseWithin_sampleText, rfl⟩, by decide, rfl, rfl⟩
  obtain ⟨-, creates⟩ := execute_effect loaded [("u-002", "x")] request
  obtain ⟨state, -⟩ := creates _ _ selected rfl
  have missing : ((service {}).execute request (NoteStore.seeded.createAll [("u-002", "x")])
      none).response.data = none := by
    decide +kernel
  refine ⟨missing, state.trans ?_⟩
  decide +kernel

end Notes

end GraphQL
