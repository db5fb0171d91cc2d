import Mathlib
import GraphQL.Proofs.Jobs.Entries
import GraphQL.Proofs.Jobs.Shift
import GraphQL.Proofs.Positions.Executed

/-!
# Mutations

A mutation does to the shared state what requests for its root fields do that are answered one after
the other (`Engine.execute_mutation`). Its calls and its errors are theirs in the same order, and
its data is put together from theirs. All calls for one root field are over before the first call
for the next one starts, whatever became of them.
-/

set_option autoImplicit false

namespace GraphQL

namespace Progress

variable {State α β : Type}

/-- What follows a job starts in the world in which the job ended. -/
theorem finish_bind (next : α → Job State β) (progress : Progress State α) :
    (progress.bind next).finish none =
      (next (progress.finish none).2 (progress.finish none).1).finish none := by
  induction progress with
  | done world result => rfl
  | paused world wake resume ih =>
    simp only [bind, finish, ih, Option.any_none, Bool.false_eq_true, if_false]
    split <;> rfl

end Progress

namespace World

variable {State : Type}

/-- What happened in worlds one after the other, of which each started from the state of the one
before. -/
theorem foldl_andThen (worlds : List (World State)) (world : World State) :
    (worlds.foldl andThen world).history = world.history ++ worlds.flatMap (·.history) ∧
      (worlds.foldl andThen world).states = world.states ++ worlds.flatMap (·.states) ∧
      (worlds.foldl andThen world).state = (worlds.map (·.state)).getLastD world.state ∧
      (worlds.foldl andThen world).aborted = (world.aborted || worlds.any (·.aborted)) := by
  induction worlds generalizing world with
  | nil => simp
  | cons first rest ih =>
    obtain ⟨history, states, state, aborted⟩ := ih (world.andThen first)
    refine ⟨?_, ?_, ?_, ?_⟩
    · rw [List.foldl_cons, history, List.flatMap_cons, andThen, List.append_assoc]
    · rw [List.foldl_cons, states, List.flatMap_cons, andThen, List.append_assoc]
    · rw [List.foldl_cons, state, List.map_cons, List.getLastD_cons]
      rfl
    · rw [List.foldl_cons, aborted, List.any_cons, andThen, Bool.or_assoc]

end World

/-- The call that something happened to. -/
def Event.call : Event → Call
  | started call => call
  | ended call _ => call

/-- The object with the members of some objects, in order. -/
def Json.union (objects : List Json) : Json :=
  .object (objects.flatMap fun value => value.object?.getD [])

/-- An object is put together from objects of one field each, and is missing if one of them is. -/
theorem Completion.union_ofFields (fields : List (String × Completion)) :
    (fields.mapM fun field => (ofFields [field.1] [field.2]).value).map Json.union =
      (ofFields (fields.map Prod.fst) (fields.map Prod.snd)).value := by
  have single : ∀ field : String × Completion, (ofFields [field.1] [field.2]).value =
      field.2.value.map fun value => .object [(field.1, value)] := by
    intro field
    cases value : field.2.value <;> simp [ofFields, value]
  simp only [single]
  simp only [ofFields]
  induction fields with
  | nil => rfl
  | cons field rest ih =>
    simp only [List.map_cons, List.mapM_cons]
    cases field.2.value with
    | none => rfl
    | some value =>
      cases objects : rest.mapM fun field => field.2.value.map fun value =>
          Json.object [(field.1, value)] with
      | none =>
        rw [objects, Option.map_none, eq_comm, Option.map_eq_none_iff] at ih
        rw [ih]
        rfl
      | some objects' =>
        rw [objects, Option.map_some, eq_comm, Option.map_eq_some_iff] at ih
        obtain ⟨values, hvalues, same⟩ := ih
        have members := Json.object.inj same
        rw [hvalues]
        exact congrArg (fun members => some (Json.object ((field.1, value) :: members)))
          members.symm

namespace Engine

variable {State : Type}

/-- The job of a plan. -/
def job (engine : Engine State) (plan : Plan) : Job State Completion :=
  plan.start (engine.registry.perform engine.configuration.resolverTimeout)

/-- Runs plans one after the other, each from the state that the one before it left. -/
def runEach (engine : Engine State) : List Plan → State → List (World State × Completion)
  | [], _ => []
  | plan :: rest, state =>
    let run := engine.run plan state none
    run :: runEach engine rest run.1.state

/-- Answers requests one after the other, each from the state that the one before it left. -/
def executeEach (engine : Engine State) : List Request → State → List (Execution State)
  | [], _ => []
  | request :: rest, state =>
    let execution := engine.execute request state none
    execution :: executeEach engine rest execution.world.state

/-- A plan that starts in some world adds what it does from the state of that world. -/
theorem finish_job (engine : Engine State) (plan : Plan) {world : World State}
    (uncancelled : ((engine.job plan world).finish none).1.cancelled = false) :
    (engine.job plan world).finish none =
        (world.andThen (engine.run plan world.state none).1,
          (engine.run plan world.state none).2) ∧
      world.cancelled = false := by
  have before : world.cancelled = false := by
    obtain ⟨first, leads, later⟩ := plan.start_ensures
      (engine.registry.perform_ensures engine.configuration.resolverTimeout) world
    obtain ⟨more, records, -⟩ := later.finish none
    rw [← Bool.not_eq_true]
    intro given
    have still := records.cancelled (leads.cancelled given)
    rw [job, still] at uncancelled
    cases uncancelled
  refine ⟨?_, before⟩
  have steady := plan.steady_start
    (engine.registry.steady_perform engine.configuration.resolverTimeout)
  exact steady.finish before

/-- Plans that are run in order add what each does from the state that the one before it left. -/
theorem finish_inOrder (engine : Engine State) (plans : List Plan) {world : World State}
    (uncancelled : ((Job.inOrder (plans.map engine.job) world).finish none).1.cancelled = false) :
    (Job.inOrder (plans.map engine.job) world).finish none =
        (((engine.runEach plans world.state).map Prod.fst).foldl World.andThen world,
          (engine.runEach plans world.state).map Prod.snd) ∧
      world.cancelled = false := by
  induction plans generalizing world with
  | nil => exact ⟨rfl, uncancelled⟩
  | cons plan rest ih =>
    have step : (Job.inOrder ((plan :: rest).map engine.job) world).finish none =
        let first := (engine.job plan world).finish none
        let others := (Job.inOrder (rest.map engine.job) first.1).finish none
        (others.1, first.2 :: others.2) := by
      rw [List.map_cons, Job.inOrder, Job.bind, Progress.finish_bind, Job.map, Progress.finish_map]
    rw [step] at uncancelled ⊢
    obtain ⟨others, between⟩ := ih uncancelled
    obtain ⟨first, before⟩ := engine.finish_job plan between
    refine ⟨?_, before⟩
    rw [first] at others
    simp only [first, others]
    rfl

/-- The parts of a group that is run in order, and what they come to. -/
theorem run_inOrder (engine : Engine State) (plans : List Plan)
    (finish : List Completion → Completion) (state : State)
    (uncancelled : (engine.run (.group true plans finish) state none).1.cancelled = false) :
    engine.run (.group true plans finish) state none =
      (((engine.runEach plans state).map Prod.fst).foldl World.andThen { state },
        finish ((engine.runEach plans state).map Prod.snd)) := by
  have group : engine.run (.group true plans finish) state none =
      let parts := (Job.inOrder (plans.map engine.job) { state }).finish none
      (parts.1, finish parts.2) := by
    rw [run, Plan.start, if_pos rfl, Job.map, Progress.finish_map, Plan.startAll_eq_map]
    rfl
  rw [group] at uncancelled ⊢
  obtain ⟨parts, -⟩ := engine.finish_inOrder plans uncancelled
  rw [parts]

/-- A group of one plan runs that plan. -/
theorem run_inOrder_singleton (engine : Engine State) (plan : Plan)
    (finish : List Completion → Completion) (state : State) :
    engine.run (.group true [plan] finish) state none =
      ((engine.run plan state none).1, finish [(engine.run plan state none).2]) := by
  rw [run, Plan.start, if_pos rfl, Job.map, Progress.finish_map, Plan.startAll_eq_map,
    List.map_singleton, Job.inOrder, Job.bind, Progress.finish_bind, Job.map, Progress.finish_map]
  rfl

/-- What the fields of an operation are executed in. -/
def scope (engine : Engine State) (operation : Operation) (values : Json.Object) :
    ExecutionScope where
  schema := engine.schema
  vars := { definitions := operation.variableDefinitions, values }
  parallel := engine.configuration.parallelSiblings

/-- A mutation runs its entries one after the other. -/
theorem run_mutation (engine : Engine State) {operation : Operation}
    (mutation : operation.kind = .mutation) (values : Json.Object) (rootType : ObjectType)
    (state : State) :
    engine.run (operation.plan engine.schema engine.configuration.parallelSiblings values rootType)
        state none =
      engine.run (.group true
        ((collectFields rootType.name operation.selections).map
          ((engine.scope operation values).entry rootType))
        (.ofFields ((collectFields rootType.name operation.selections).map (·.key))))
          state none := by
  rw [run, run, Operation.start_mutation mutation]
  rfl

/-- A request for one of the root fields of a mutation, with all that is merged into it, and with
the same variables. -/
structure SelectsOnly (engine : Engine State) (request : Request) (operation : Operation)
    (rootType : ObjectType) (group : FieldGroup) (single : Request) : Prop where
  selected : ∃ part, engine.select single = .ok (part, rootType) ∧ part.kind = .mutation ∧
    part.variableDefinitions = operation.variableDefinitions ∧
    collectFields rootType.name part.selections = [group]
  variableValues : single.variableValues = request.variableValues

/-- Such a request is one for the operation with the fields of the group in place of its
selections. -/
theorem SelectsOnly.of_fields {engine : Engine State} {request : Request} {operation : Operation}
    {rootType : ObjectType} {group : FieldGroup} {single : Request}
    (mutation : operation.kind = .mutation)
    (member : group ∈ collectFields rootType.name operation.selections)
    (selected : engine.select single = .ok ({ operation with
      selections := (group.first :: group.more).map Field.selection }, rootType))
    (variableValues : single.variableValues = request.variableValues) :
    engine.SelectsOnly request operation rootType group single :=
  ⟨⟨_, selected, mutation, rfl, collectFields_fields member⟩, variableValues⟩

/-- Runs what root fields do one after the other, each from the state that the one before it
left. -/
def runFields (engine : Engine State) (scope : ExecutionScope) (rootType : ObjectType) :
    List FieldGroup → State → List (FieldGroup × World State × Completion)
  | [], _ => []
  | group :: rest, state =>
    let run := engine.run (scope.entry rootType group) state none
    (group, run) :: runFields engine scope rootType rest run.1.state

section

variable {engine : Engine State} {scope : ExecutionScope} {rootType : ObjectType}
  {groups : List FieldGroup} {state : State}

/-- The entries that are run are those of the mutation. -/
theorem map_fst_runFields :
    (engine.runFields scope rootType groups state).map Prod.fst = groups := by
  induction groups generalizing state with
  | nil => rfl
  | cons group rest ih => rw [runFields, List.map_cons, ih]

/-- What the entries come to is what comes of running them one after the other. -/
theorem map_snd_runFields :
    (engine.runFields scope rootType groups state).map Prod.snd =
      engine.runEach (groups.map (scope.entry rootType)) state := by
  induction groups generalizing state with
  | nil => rfl
  | cons group rest ih => rw [runFields, List.map_cons, ih, List.map_cons, runEach]

/-- Each entry is run in the state that was there before it. -/
theorem eq_run_of_mem_runFields {field : FieldGroup × World State × Completion}
    (member : field ∈ engine.runFields scope rootType groups state) :
    ∃ before, field.2 = engine.run (scope.entry rootType field.1) before none := by
  induction groups generalizing state with
  | nil => cases member
  | cons group rest ih =>
    rcases List.mem_cons.1 member with rfl | member
    · exact ⟨state, rfl⟩
    · exact ih member

end

/-- What happens while a root field is executed happens to calls at and below its key, and each call
that is started ends. -/
theorem run_entry (engine : Engine State) (scope : ExecutionScope) (rootType : ObjectType)
    (group : FieldGroup) (state : State) :
    let history := (engine.run (scope.entry rootType group) state none).1.history
    (∀ event ∈ history, [.key group.key] <+: event.call.path) ∧
      ∀ call, .started call ∈ history → ∃ outcome, .ended call outcome ∈ history := by
  intro history
  obtain ⟨answers, yields, -, perm, -⟩ := engine.run_yields (scope.entry rootType group) state none
  obtain ⟨-, under⟩ := (ExecutionScope.descends_entry rootType group).callsIn _ _ yields
  have answered : ∀ event ∈ history, ∃ answer ∈ answers, answer.call = event.call := by
    intro event member
    cases event with
    | started call =>
      obtain ⟨answer, hanswer, -, same⟩ := (Answer.started_mem_iff perm).1 member
      exact ⟨answer, hanswer, same⟩
    | ended call outcome =>
      obtain ⟨answer, hanswer, same, -⟩ := (Answer.ended_mem_iff perm).1 member
      exact ⟨answer, hanswer, same⟩
  constructor
  · intro event member
    obtain ⟨answer, hanswer, same⟩ := answered event member
    exact same ▸ under answer hanswer
  · intro call member
    obtain ⟨answer, hanswer, rfl⟩ := answered _ member
    exact ⟨answer.outcome, (Answer.ended_mem_iff perm).2 ⟨answer, hanswer, rfl, rfl⟩⟩

/-- The answer to a request for one root field. -/
def answered (field : FieldGroup × World State × Completion) : Execution State where
  response := respond (.ofFields [field.1.key] [field.2.2]) field.2.1.aborted
  world := field.2.1

/-- A request that selects a single entry runs that entry. -/
theorem execute_selectsOnly {engine : Engine State} {request : Request} {operation : Operation}
    {rootType : ObjectType} {group : FieldGroup} {single : Request}
    (only : engine.SelectsOnly request operation rootType group single) (state : State) :
    engine.execute single state none = answered (group,
      engine.run ((engine.scope operation request.variableValues).entry rootType group) state
        none) := by
  obtain ⟨part, selected, mutation, definitions, groups⟩ := only.selected
  have scope : engine.scope part single.variableValues =
      engine.scope operation request.variableValues := by
    rw [Engine.scope, Engine.scope, definitions, only.variableValues]
  rw [execute_of_select engine state none selected, run_mutation engine mutation, groups, scope,
    List.map_singleton, List.map_singleton, run_inOrder_singleton]
  rfl

/-- Requests that select the entries one by one run them one after the other. -/
theorem executeEach_selectsOnly {engine : Engine State} {request : Request} {operation : Operation}
    {rootType : ObjectType} {groups : List FieldGroup} {singles : List Request}
    (only : List.Forall₂ (engine.SelectsOnly request operation rootType) groups singles)
    (state : State) :
    engine.executeEach singles state =
      (engine.runFields (engine.scope operation request.variableValues) rootType groups state).map
        answered := by
  induction only generalizing state with
  | nil => rfl
  | cons first rest ih =>
    rw [executeEach, runFields, List.map_cons, execute_selectsOnly first]
    exact congrArg _ (ih _)

/-- A mutation that is not cancelled does what its root fields do, one after the other. -/
theorem execute_fields (engine : Engine State) {request : Request} (state : State)
    {operation : Operation} {rootType : ObjectType}
    (selected : engine.select request = .ok (operation, rootType))
    (mutation : operation.kind = .mutation)
    (uncancelled : (engine.execute request state none).world.cancelled = false) :
    let fields := engine.runFields (engine.scope operation request.variableValues) rootType
      (collectFields rootType.name operation.selections) state
    engine.execute request state none =
        { response := respond (.ofFields (fields.map (·.1.key)) (fields.map (·.2.2))) false
          world := (fields.map (·.2.1)).foldl World.andThen { state } } ∧
      ∀ field ∈ fields, field.2.1.aborted = false := by
  intro fields
  rw [execute_of_select engine state none selected, run_mutation engine mutation] at uncancelled ⊢
  have kept := engine.run_not_aborted _ state none uncancelled
  rw [engine.run_inOrder _ _ state uncancelled] at kept ⊢
  have runs : engine.runEach ((collectFields rootType.name operation.selections).map
      ((engine.scope operation request.variableValues).entry rootType)) state =
        fields.map Prod.snd := map_snd_runFields.symm
  have keys : (collectFields rootType.name operation.selections).map (·.key) =
      fields.map (·.1.key) := by
    have groups : fields.map Prod.fst = collectFields rootType.name operation.selections :=
      map_fst_runFields
    rw [← groups, List.map_map]
    rfl
  simp only [runs, keys, List.map_map] at kept ⊢
  refine ⟨by rw [kept]; rfl, ?_⟩
  obtain ⟨-, -, -, aborted⟩ := World.foldl_andThen (fields.map (Prod.fst ∘ Prod.snd)) { state }
  rw [kept, Bool.false_or, eq_comm, List.any_eq_false] at aborted
  intro field member
  exact eq_false_of_ne_true (aborted field.2.1 (List.mem_map.2 ⟨field, member, rfl⟩))

/-- The root field that a path starts with is one of them only. -/
theorem index_eq_of_under {fields : List (FieldGroup × World State × Completion)}
    (distinct : (fields.map (·.1.key)).Nodup) {i j : Nat}
    {field other : FieldGroup × World State × Completion} (hi : fields[i]? = some field)
    (hj : fields[j]? = some other) {path : Path} (on : [.key field.1.key] <+: path)
    (on' : [.key other.1.key] <+: path) : i = j := by
  have first : Path.join [] (.key field.1.key) <+: path := on
  have first' : Path.join [] (.key other.1.key) <+: path := on'
  have same := PathElement.key.inj (Path.step_eq_of_isPrefix first first')
  have key : (fields.map (·.1.key))[i]? = (fields.map (·.1.key))[j]? := by
    rw [List.getElem?_map, List.getElem?_map, hi, hj]
    exact congrArg some same
  have hi' := (List.getElem?_eq_some_iff.1 hi).1
  exact (List.getElem?_inj (by rwa [List.length_map]) distinct).1 key

/-- All calls for a root field end before something happens to a call for a later one. -/
theorem ended_before {engine : Engine State} {scope : ExecutionScope} {rootType : ObjectType}
    {fields : List (FieldGroup × World State × Completion)}
    (runs : ∀ field ∈ fields, ∃ before,
      field.2 = engine.run (scope.entry rootType field.1) before none)
    (distinct : (fields.map (·.1.key)).Nodup) {i j : Nat}
    {earlier later : FieldGroup × World State × Completion} (less : i < j)
    (hi : fields[i]? = some earlier) (hj : fields[j]? = some later) {call : Call}
    (started : .started call ∈ fields.flatMap (·.2.1.history))
    (under : [.key earlier.1.key] <+: call.path) :
    ∃ before after outcome, fields.flatMap (·.2.1.history) = before ++ after ∧
      .ended call outcome ∈ before ∧
        ∀ event ∈ before, ¬ [.key later.1.key] <+: event.call.path := by
  have own : ∀ field ∈ fields,
      (∀ event ∈ field.2.1.history, [.key field.1.key] <+: event.call.path) ∧
        ∀ call, .started call ∈ field.2.1.history →
          ∃ outcome, .ended call outcome ∈ field.2.1.history := by
    intro field member
    obtain ⟨state, run⟩ := runs field member
    rw [run]
    exact engine.run_entry scope rootType field.1 state
  obtain ⟨field, hfield, here⟩ := List.mem_flatMap.1 started
  obtain ⟨k, hk⟩ := List.getElem?_of_mem hfield
  obtain rfl := index_eq_of_under distinct hk hi ((own field hfield).1 _ here) under
  obtain rfl : field = earlier := Option.some.inj (hk.symm.trans hi)
  obtain ⟨outcome, ended⟩ := (own field hfield).2 call here
  -- the history is cut where the field is over
  let upTo := fields.take (k + 1)
  let rest := fields.drop (k + 1)
  refine ⟨upTo.flatMap (·.2.1.history), rest.flatMap (·.2.1.history), outcome, ?_, ?_, ?_⟩
  · rw [← List.flatMap_append, List.take_append_drop]
  · refine List.mem_flatMap.2 ⟨field, ?_, ended⟩
    exact List.mem_of_getElem? (by rw [List.getElem?_take_of_lt (Nat.lt_succ_self k), hk])
  · intro event member beyond
    obtain ⟨other, hother, happened⟩ := List.mem_flatMap.1 member
    obtain ⟨l, hl⟩ := List.getElem?_of_mem hother
    have among : l < k + 1 := by
      have := (List.getElem?_eq_some_iff.1 hl).1
      rw [List.length_take] at this
      omega
    rw [List.getElem?_take_of_lt among] at hl
    have within := (own other (List.mem_of_getElem? hl)).1 event happened
    have := index_eq_of_under distinct hl hj within beyond
    omega

/-- Mutations compose. A mutation makes the calls, goes through the states and reports the errors of
requests for its root fields that are answered one after the other, and its data is the union of
theirs, or is missing if one of them is. The calls for one root field end before the first one for a
later field starts. -/
theorem execute_mutation (engine : Engine State) {request : Request} (state : State)
    {operation : Operation} {rootType : ObjectType}
    (selected : engine.select request = .ok (operation, rootType))
    (mutation : operation.kind = .mutation) {singles : List Request}
    (only : List.Forall₂ (engine.SelectsOnly request operation rootType)
      (collectFields rootType.name operation.selections) singles)
    (uncancelled : (engine.execute request state none).world.cancelled = false) :
    let groups := collectFields rootType.name operation.selections
    let whole := engine.execute request state none
    let parts := engine.executeEach singles state
    whole.world.history = parts.flatMap (·.world.history) ∧
      whole.world.states = parts.flatMap (·.world.states) ∧
      whole.world.state = (parts.map (·.world.state)).getLastD state ∧
      whole.response.errors = parts.flatMap (·.response.errors) ∧
      whole.response.data =
        (parts.mapM fun part : Execution State => part.response.data).map Json.union ∧
      ∀ (i j : Nat) (earlier later : FieldGroup), i < j → groups[i]? = some earlier →
        groups[j]? = some later → ∀ call, .started call ∈ whole.world.history →
          [.key earlier.key] <+: call.path → ∃ before after outcome,
            whole.world.history = before ++ after ∧ .ended call outcome ∈ before ∧
              ∀ event ∈ before, ¬ [.key later.key] <+: event.call.path := by
  intro groups whole parts
  -- the run is that of its fields, each from the state in which the one before left the world
  let fields := engine.runFields (engine.scope operation request.variableValues) rootType groups
    state
  obtain ⟨executed, kept⟩ := engine.execute_fields state selected mutation uncancelled
  have parts_eq : parts = fields.map answered := executeEach_selectsOnly only state
  obtain ⟨history, states, last, -⟩ := World.foldl_andThen (fields.map (·.2.1)) { state }
  have response : whole.response = respond
      (.ofFields (fields.map (·.1.key)) (fields.map (·.2.2))) false :=
    congrArg Execution.response executed
  have world : whole.world = (fields.map (·.2.1)).foldl World.andThen { state } :=
    congrArg Execution.world executed
  rw [← world] at history states last
  have happened : whole.world.history = fields.flatMap (·.2.1.history) := by
    rw [history, List.flatMap_map]
    rfl
  refine ⟨?_, ?_, ?_, ?_, ?_, ?_⟩
  · rw [happened, parts_eq, List.flatMap_map]
    rfl
  · rw [states, parts_eq, List.flatMap_map, List.flatMap_map]
    rfl
  · rw [last, parts_eq, List.map_map, List.map_map]
    rfl
  · have each : ∀ field ∈ fields, (answered field).response.errors = field.2.2.errors := by
      intro field member
      simp [answered, respond, Completion.ofFields, kept field member]
    rw [response, parts_eq, List.flatMap_map, List.flatMap_def, List.map_congr_left each,
      ← List.flatMap_def]
    simp [respond, Completion.ofFields, List.flatMap_map]
  · have union := Completion.union_ofFields (fields.map fun field => (field.1.key, field.2.2))
    rw [List.map_map, List.map_map, List.mapM_map] at union
    rw [response, parts_eq, List.mapM_map]
    exact union.symm
  · intro i j earlier later less hi hj call started under
    have groups_eq : fields.map Prod.fst = groups := map_fst_runFields
    have keys : (fields.map (·.1.key)).Nodup := by
      have distinct := nodup_keys_collectFields rootType.name operation.selections
      change (groups.map (·.key)).Nodup at distinct
      rwa [← groups_eq, List.map_map] at distinct
    rw [← groups_eq, List.getElem?_map] at hi hj
    obtain ⟨first, hfirst, rfl⟩ := Option.map_eq_some_iff.1 hi
    obtain ⟨second, hsecond, rfl⟩ := Option.map_eq_some_iff.1 hj
    rw [happened] at started ⊢
    exact ended_before (fun field => eq_run_of_mem_runFields) keys less hfirst hsecond started under

/-- The mutations of `logging`. -/
def logRoot : ObjectType where
  name := "Mutation"
  fields := [{ name := "slow", type := .builtin .int, arguments := [] },
    { name := "strict", type := .nonNull (.builtin .int), arguments := [] }]

/-- An engine with two mutations that write into a log: one takes some time, the other one is
declared non-null but comes to null. -/
def logging : Engine (List String) where
  schema :=
    { types := [.object { name := "Query", fields := [] }, .object logRoot]
      queryRoot := "Query"
      mutationRoot := some "Mutation" }
  registry :=
    { bindings :=
        [{ typeName := "Mutation", fieldName := "slow",
           resolver := fun _ => .wait 3 (.read fun log =>
             .write (log ++ ["slow"]) (.done (.ok (.ofInt 7)))) },
          { typeName := "Mutation", fieldName := "strict",
            resolver := fun _ => .read fun log =>
              .write (log ++ ["strict"]) (.done (.ok .null)) }] }

/-- The field that fails does not keep the one after it from being executed. -/
theorem execute_mutation_logging :
    (logging.execute { query := some "mutation{strict slow}" } [] none).world.states =
        (logging.executeEach [{ query := some "mutation{strict}" },
          { query := some "mutation{slow}" }] []).flatMap (·.world.states) ∧
      (logging.execute { query := some "mutation{strict slow}" } [] none).response.errors =
        (logging.executeEach [{ query := some "mutation{strict}" },
          { query := some "mutation{slow}" }] []).flatMap (·.response.errors) := by
  have selected : logging.select { query := some "mutation{strict slow}" } =
      .ok ({ kind := .mutation, name := none, variableDefinitions := []
             selections := [.field none "strict" [] [], .field none "slow" [] []] }, logRoot) := by
    cbv
  have strict : logging.select { query := some "mutation{strict}" } =
      .ok ({ kind := .mutation, name := none, variableDefinitions := []
             selections := [.field none "strict" [] []] }, logRoot) := by
    cbv
  have slow : logging.select { query := some "mutation{slow}" } =
      .ok ({ kind := .mutation, name := none, variableDefinitions := []
             selections := [.field none "slow" [] []] }, logRoot) := by
    cbv
  obtain ⟨-, states, -, errors, -⟩ := logging.execute_mutation [] selected rfl
    (.cons (.of_fields rfl (.head _) strict rfl)
      (.cons (.of_fields rfl (.tail _ (.head _)) slow rfl) .nil))
    (by decide +kernel)
  exact ⟨states, errors⟩

end Engine

end GraphQL
