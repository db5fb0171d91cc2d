import GraphQL.Proofs.Documents.Requests
import GraphQL.Proofs.Visits.Faults

/-!
# The visits of a run

A request that is not rejected asks for an operation of its document, which is run on the root type
for its kind. What the run leaves behind is due to its visits: the calls that are answered are those
that visits make, each of them once, and the errors of the response are due to what visits find
wrong.
-/

set_option autoImplicit false

namespace GraphQL

/-- The calls that a history tells of are those of the answers that were made. -/
theorem World.calls_perm {State : Type} {world : World State} {answers : List Answer}
    (perm : world.history.Perm (answers.flatMap Answer.events)) :
    world.calls.Perm ((answers.filter (·.made)).map (·.call)) := by
  have told : ∀ answers : List Answer,
      World.calls { world with history := answers.flatMap Answer.events } =
        (answers.filter (·.made)).map (·.call) := by
    intro answers
    unfold World.calls
    induction answers with
    | nil => rfl
    | cons answer rest ih =>
      simp only [List.flatMap_cons, List.filterMap_append] at ih ⊢
      rw [ih]
      cases made : answer.made <;> simp [Answer.events, made]
  rw [← told answers]
  exact perm.filterMap _

namespace ExecutableDocument

variable {document : ExecutableDocument}

/-- The operation that a document chooses is one of its operations. -/
theorem mem_operations_of_operation {name : Option String} {definition : OperationDefinition}
    (h : document.operation name = .ok definition) : definition ∈ document.operations := by
  unfold operation at h
  split at h
  · split at h
    · next found =>
      cases h
      exact List.mem_of_find?_eq_some found
    · cases h
  · split at h
    · next single =>
      cases h
      rw [single]
      exact List.mem_singleton_self _
    · cases h
    · cases h

/-- Reading a document never says that mutations are not supported. -/
theorem parseWithin_ne_mutationNotSupported {limit : Nat} {text : String} :
    parseWithin limit text ≠ .error .mutationNotSupported := by
  intro h
  rw [parseWithin] at h
  split at h
  · next source read => exact reports_ofDocument source _ h
  · cases h

/-- Choosing an operation never says that mutations are not supported. -/
theorem operation_ne_mutationNotSupported {name : Option String} :
    document.operation name ≠ .error .mutationNotSupported := by
  intro h
  unfold operation at h
  split at h
  · split at h <;> cases h
  · split at h <;> cases h

end ExecutableDocument

namespace Engine

variable {State : Type}

section Selection

/-- A request asks for an operation of the document that it gives. -/
def Asks (engine : Engine State) (request : Request) (document : ExecutableDocument)
    (definition : OperationDefinition) : Prop :=
  ∃ text, request.query = some text ∧
    ExecutableDocument.parseWithin engine.configuration.recursionLimit text = .ok document ∧
    document.operation request.requestedOperation = .ok definition

/-- The root type for a kind of operation. -/
def rootType? (engine : Engine State) (kind : OperationKind) : Option ObjectType :=
  (engine.schema.root? kind).bind engine.schema.object?

variable {engine : Engine State} {request : Request}

/-- What a request that is not rejected selects: an operation of its document, executed with its
fragments on the root type for its kind. -/
theorem select_eq_ok_iff {operation : Operation} {rootType : ObjectType} :
    engine.select request = .ok (operation, rootType) ↔
      ∃ document definition, engine.Asks request document definition ∧
        definition.kind ≠ .subscription ∧ engine.rootType? definition.kind = some rootType ∧
        operation = document.linkOperation definition := by
  simp only [select, Checks.bind_eq_ok, Checks.elim_eq_ok_iff]
  constructor
  · rintro ⟨text, given, document, parsed, definition, chosen, selected⟩
    refine ⟨document, definition, ⟨text, given, parsed, chosen⟩, ?_⟩
    split at selected
    · cases selected
    · next executable =>
      refine ⟨by simpa using executable, ?_⟩
      split at selected
      · next root =>
        cases selected
        exact ⟨root, rfl⟩
      · cases selected
  · rintro ⟨document, definition, ⟨text, given, parsed, chosen⟩, executable, root, rfl⟩
    refine ⟨text, given, document, parsed, definition, chosen, ?_⟩
    rw [if_neg (by simpa using executable)]
    unfold rootType? at root
    rw [root]
    rfl

/-- Mutations are refused where a request asks for an operation for which there is no root type. -/
theorem select_eq_mutationNotSupported_iff :
    engine.select request = .error .mutationNotSupported ↔
      ∃ document definition, engine.Asks request document definition ∧
        definition.kind ≠ .subscription ∧ engine.rootType? definition.kind = none := by
  simp only [select, Checks.bind_eq_error, Checks.elim_eq_ok_iff]
  constructor
  · rintro (given | ⟨text, given, unread | ⟨document, parsed, unknown |
      ⟨definition, chosen, refused⟩⟩⟩)
    · cases query : request.query with
      | none =>
        rw [query] at given
        cases given
      | some text =>
        rw [query] at given
        cases given
    · exact absurd unread ExecutableDocument.parseWithin_ne_mutationNotSupported
    · exact absurd unknown ExecutableDocument.operation_ne_mutationNotSupported
    · refine ⟨document, definition, ⟨text, given, parsed, chosen⟩, ?_⟩
      split at refused
      · cases refused
      · next executable =>
        refine ⟨by simpa using executable, ?_⟩
        split at refused
        · cases refused
        · next missing => exact missing
  · rintro ⟨document, definition, ⟨text, given, parsed, chosen⟩, executable, missing⟩
    refine .inr ⟨text, given, .inr ⟨document, parsed, .inr ⟨definition, chosen, ?_⟩⟩⟩
    rw [if_neg (by simpa using executable)]
    unfold rootType? at missing
    rw [missing]

end Selection

/-- What the positions of an operation are marked by in a run: the outcomes of its calls. -/
def marking (engine : Engine State) (request : Request) (operation : Operation)
    (world : World State) : Marking where
  schema := engine.schema
  vars := { definitions := operation.variableDefinitions, values := request.variableValues }
  outcome := world.outcome

/-- The history of a run tells of one answer for each call that a visit makes. -/
theorem execute_answers (engine : Engine State) {request : Request} (state : State)
    (cancelAt : Option Nat) {operation : Operation} {rootType : ObjectType}
    (selected : engine.select request = .ok (operation, rootType)) :
    let world := (engine.execute request state cancelAt).world
    let m := engine.marking request operation world
    ∃ answers : List Answer, world.history.Perm (answers.flatMap Answer.events) ∧
      (answers.map fun answer => answer.call.path).Nodup ∧
      (∀ answer ∈ answers, m.outcome answer.call = answer.outcome ∧
        engine.registry.Answers engine.configuration.resolverTimeout answer) ∧
      ∀ call, call ∈ answers.map (·.call) ↔
        ∃ visit, m.Visits operation rootType visit ∧ m.Makes visit call := by
  intro world m
  obtain ⟨answers, yields, allowed, perm, -, -⟩ :=
    engine.run_yields (operation.plan engine.schema engine.configuration.parallelSiblings
      request.variableValues rootType) state cancelAt
  have ran : (engine.run (operation.plan engine.schema engine.configuration.parallelSiblings
      request.variableValues rootType) state cancelAt).1 = world := by
    rw [show world = (engine.execute request state cancelAt).world from rfl,
      execute_of_select engine state cancelAt selected]
  rw [ran] at perm
  have paths := operation.nodup_paths_plan engine.schema engine.configuration.parallelSiblings
    request.variableValues rootType yields
  have distinct := operation.nodup_calls_plan engine.schema engine.configuration.parallelSiblings
    request.variableValues rootType yields
  have agree : ∀ answer ∈ answers, m.outcome answer.call = answer.outcome :=
    fun answer member => World.outcome_of_perm perm distinct member
  refine ⟨answers, perm, paths, ?_, ?_⟩
  · exact fun answer member => ⟨agree answer member, allowed answer member⟩
  intro call
  rw [← (yields.eval_eq agree).2]
  exact operation.mem_calls_plan_iff engine.schema engine.configuration.parallelSiblings
    request.variableValues rootType m.outcome call

/-- What becomes of a call that a visit makes is due to its resolver, the time limit or the
cancellation. -/
theorem due_of_makes (engine : Engine State) {request : Request} (state : State)
    (cancelAt : Option Nat) {operation : Operation} {rootType : ObjectType}
    (selected : engine.select request = .ok (operation, rootType)) :
    let world := (engine.execute request state cancelAt).world
    let m := engine.marking request operation world
    ∀ visit call, m.Visits operation rootType visit → m.Makes visit call →
      engine.Due world call (m.outcome call) := by
  intro world m visit call visited makes
  obtain ⟨answers, perm, -, answered, made⟩ := engine.execute_answers state cancelAt selected
  obtain ⟨answer, member, rfl⟩ := List.mem_map.1 ((made call).2 ⟨visit, visited, makes⟩)
  rw [(answered answer member).1]
  exact (engine.execute_due state cancelAt selected).2.1 _ _
    ((Answer.ended_mem_iff perm).2 ⟨answer, member, rfl, rfl⟩)

/-- A resolver that was called gave the value at some path: the whole of it, or an element at the
place to which the path goes on from the path of the call. -/
def Returned (engine : Engine State) (world : World State) (path : Path) (value : Json) : Prop :=
  ∃ (call : Call) (binding : Binding State) (delay : Nat) (whole : Json) (indices : List Nat),
    engine.registry.lookup call.typeName call.fieldName = .ok binding ∧
    .started call ∈ world.history ∧ (binding.resolver call).Gives (.ok whole) delay ∧
    path = call.path ++ indices.map .index ∧ whole.at? (indices.map .index) = some value

/-- The elements of an array that a resolver gave were given with it. -/
theorem Returned.item {engine : Engine State} {world : World State} {path : Path}
    {values : List Json} (h : engine.Returned world path (.array values)) {i : Nat} {value : Json}
    (inside : values[i]? = some value) : engine.Returned world (path.join (.index i)) value := by
  obtain ⟨call, binding, delay, whole, indices, lookup, started, gives, rfl, found⟩ := h
  refine ⟨call, binding, delay, whole, indices ++ [i], lookup, started, gives, ?_, ?_⟩
  · simp [Path.join]
  · rw [List.map_append, Json.at?_append, found]
    simp [Json.at?, Json.part?, inside]

/-- The root of an operation is null, and all else that is visited is given by the resolvers. -/
def Given (engine : Engine State) (world : World State) : Visit → Prop
  | .object _ _ parent path | .field _ parent path _ =>
    (path = [] ∧ parent = .null) ∨ engine.Returned world path parent
  | .value _ _ _ value path => engine.Returned world path value

/-- What a run visits was given by its resolvers, but for the root of the operation. -/
theorem given_of_visits (engine : Engine State) {request : Request} (state : State)
    (cancelAt : Option Nat) {operation : Operation} {rootType : ObjectType}
    (selected : engine.select request = .ok (operation, rootType)) :
    let world := (engine.execute request state cancelAt).world
    let m := engine.marking request operation world
    ∀ visit, m.Visits operation rootType visit → engine.Given world visit := by
  intro world m visit visited
  -- along the way to the visit, on which only the outcome of a call brings a new value
  induction visited with
  | refl => exact .inl ⟨rfl, rfl⟩
  | @tail earlier later visited leads ih =>
    cases leads with
    | field => exact ih
    | @outcome type parent path group definition call value h returned =>
      have due := engine.due_of_makes state cancelAt selected _ call visited (.field h)
      rw [show (engine.marking request operation world).outcome call = .value value from returned]
        at due
      obtain ⟨binding, delay, lookup, started, gives⟩ := due.exists_gives
      exact ⟨call, binding, delay, value, [], lookup, started, gives, (List.append_nil _).symm, rfl⟩
    | nonNull => exact ih
    | item inside => exact ih.item inside
    | object => exact .inr ih

/-- Every error of a response has its path and its cause from a visit, but for the error of a
cancellation. -/
theorem exists_fault_of_mem_errors (engine : Engine State) {request : Request} (state : State)
    (cancelAt : Option Nat) {operation : Operation} {rootType : ObjectType}
    (selected : engine.select request = .ok (operation, rootType)) {error : ResponseError}
    (member : error ∈ (engine.execute request state cancelAt).response.errors) :
    let m := engine.marking request operation (engine.execute request state cancelAt).world
    error = Reportable.report none ExecutionError.cancelled ∨
      ∃ visit fault, m.Visits operation rootType visit ∧ m.Finds visit fault ∧
        error = fault.report visit.path := by
  intro m
  obtain ⟨response, wf, -⟩ := engine.execute_selected state cancelAt selected
  rw [congrArg Response.errors response, respond, List.mem_append] at member
  rcases member with located | cancelled
  · obtain ⟨path, nonNull, -, failed⟩ := Position.exists_path_of_mem_complete_errors wf located
    have root : engine.positions request operation rootType
        (engine.execute request state cancelAt).world.outcome =
        m.position true (.object operation.selections rootType .null []) := rfl
    rw [root] at failed
    obtain ⟨visit, nonNull', visited, there, same⟩ := Marking.exists_visit_of_at? failed
    obtain ⟨later, fault, reached, here, finds, reported⟩ :=
      (Marking.explains_position nonNull' visit).failed nonNull error same.symm
    exact .inr ⟨later, fault, visited.trans reached, finds, here ▸ reported⟩
  · left
    split at cancelled
    · exact List.mem_singleton.1 cancelled
    · cases cancelled

end Engine

end GraphQL
