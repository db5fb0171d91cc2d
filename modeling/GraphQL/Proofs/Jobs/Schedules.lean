import GraphQL.Proofs.Positions.Dependence

/-!
# Schedules

How long resolvers take, and whether siblings run concurrently, decides in which order calls start
and end. The response does not depend on it: resolvers that give the same results for the same calls
lead to the same response under all delays by which the same calls exceed the time limit
(`Engine.response_eq_of_same_timeouts`). Under equal delays it is the same whether siblings run
concurrently or one after the other.
-/

set_option autoImplicit false

namespace GraphQL

namespace Outcome

/-- A call that takes some time exceeds the time limit. -/
def Exceeds (timeout : Option Duration) (delay : Nat) : Prop :=
  ∃ span, timeout = some span ∧ span.ceilMilliseconds < delay

/-- Only whether a delay exceeds the time limit matters for the outcome. -/
theorem within_congr {timeout : Option Duration} {delay delay' : Nat}
    (same : Exceeds timeout delay ↔ Exceeds timeout delay') (result : Except FieldError Json) :
    within timeout delay result = within timeout delay' result := by
  cases timeout with
  | none => rfl
  | some span =>
    have exceeds : ∀ delay, Exceeds (some span) delay ↔ span.ceilMilliseconds < delay := by
      intro delay
      constructor
      · rintro ⟨other, same, less⟩
        cases same
        exact less
      · exact fun less => ⟨span, rfl, less⟩
    rw [exceeds, exceeds] at same
    simp only [within, same]

end Outcome

namespace Registry

variable {State State' : Type}

/-- Each resolver has a result for each call, and takes a time for it, that do not depend on the
shared state. -/
def Resolves (registry : Registry State) (result : Call → Except FieldError Json)
    (delay : Call → Nat) : Prop :=
  ∀ call binding, registry.lookup call.typeName call.fieldName = .ok binding →
    (binding.resolver call).Takes (result call) (delay call)

/-- The resolvers of a registry have these results and delays if each binding does for the calls of
its field. -/
theorem Resolves.of_bindings {registry : Registry State} {result : Call → Except FieldError Json}
    {delay : Call → Nat}
    (h : ∀ binding ∈ registry.bindings, ∀ call,
      binding.isOf call.typeName call.fieldName = true →
        (binding.resolver call).Takes (result call) (delay call)) :
    registry.Resolves result delay := by
  intro call binding lookup
  unfold Registry.lookup at lookup
  split at lookup
  · next found =>
    cases lookup
    have ofField := List.find?_some found
    exact h binding (List.mem_of_find?_eq_some found) call ofField
  · cases lookup

/-- The only reason why a field has no resolver is that none is bound to it. -/
theorem eq_notFound_of_lookup {registry : Registry State} {typeName fieldName : String}
    {cause : BindingError} (h : registry.lookup typeName fieldName = .error cause) :
    cause = .notFound typeName fieldName := by
  unfold lookup at h
  split at h
  · cases h
  · cases h
    rfl

/-- The outcome of a call in an operation that is not cancelled. -/
def settled (registry : Registry State) (timeout : Option Duration)
    (result : Call → Except FieldError Json) (delay : Call → Nat) (call : Call) : Outcome :=
  match registry.lookup call.typeName call.fieldName with
  | .error cause => .unbound cause
  | .ok _ => .within timeout (delay call) (result call)

/-- A call has the same outcome where the same fields have resolvers that give the same in time. -/
theorem settled_eq_of_within {first : Registry State} {second : Registry State'}
    {timeout : Option Duration} {result result' : Call → Except FieldError Json}
    {delay delay' : Call → Nat} {call : Call}
    (bound : (second.lookup call.typeName call.fieldName).isOk =
      (first.lookup call.typeName call.fieldName).isOk)
    (same : ∀ binding, first.lookup call.typeName call.fieldName = .ok binding →
      Outcome.within timeout (delay call) (result call) =
        Outcome.within timeout (delay' call) (result' call)) :
    first.settled timeout result delay call = second.settled timeout result' delay' call := by
  unfold settled
  cases here : first.lookup call.typeName call.fieldName with
  | error cause =>
    cases there : second.lookup call.typeName call.fieldName with
    | error cause' => rw [eq_notFound_of_lookup here, eq_notFound_of_lookup there]
    | ok binding' =>
      rw [here, there] at bound
      cases bound
  | ok binding =>
    cases there : second.lookup call.typeName call.fieldName with
    | error cause' =>
      rw [here, there] at bound
      cases bound
    | ok binding' => exact same binding here

/-- A call has the same outcome where the same fields have resolvers, if it exceeds the time limit
under both delays or under none. -/
theorem settled_congr {first : Registry State} {second : Registry State'}
    {timeout : Option Duration} {result : Call → Except FieldError Json}
    {delay delay' : Call → Nat} {call : Call}
    (bound : (second.lookup call.typeName call.fieldName).isOk =
      (first.lookup call.typeName call.fieldName).isOk)
    (same : ∀ binding, first.lookup call.typeName call.fieldName = .ok binding →
      (Outcome.Exceeds timeout (delay call) ↔ Outcome.Exceeds timeout (delay' call))) :
    first.settled timeout result delay call = second.settled timeout result delay' call :=
  settled_eq_of_within bound fun binding lookup =>
    Outcome.within_congr (same binding lookup) (result call)

/-- An answer that is not given up is settled by the result and the delay of its call, which is made
if it has a resolver. -/
theorem Answers.settled {registry : Registry State} {timeout : Option Duration}
    {result : Call → Except FieldError Json} {delay : Call → Nat}
    (resolves : registry.Resolves result delay) {answer : Answer}
    (h : registry.Answers timeout answer) (kept : answer.outcome ≠ .aborted) :
    answer.outcome = registry.settled timeout result delay answer.call ∧
      answer.made = (registry.lookup answer.call.typeName answer.call.fieldName).isOk := by
  unfold Registry.settled
  cases lookup : registry.lookup answer.call.typeName answer.call.fieldName with
  | error cause =>
    cases h with
    | unbound other =>
      cases other.symm.trans lookup
      exact ⟨rfl, rfl⟩
    | aborted bound => cases bound.symm.trans lookup
    | ended bound => cases bound.symm.trans lookup
  | ok binding => exact h.eq_within kept lookup (resolves _ binding lookup)

end Registry

namespace Engine

variable {State State' : Type}

/-- In a run that is not cancelled nothing is given up, and the answer to each call is settled by
the results and delays of the resolvers. -/
theorem run_answered (engine : Engine State) {result : Call → Except FieldError Json}
    {delay : Call → Nat} (resolves : engine.registry.Resolves result delay) (plan : Plan)
    (state : State) (cancelAt : Option Nat)
    (uncancelled : (engine.run plan state cancelAt).1.cancelled = false) :
    ∃ answers, plan.Yields answers (engine.run plan state cancelAt).2 ∧
      (engine.run plan state cancelAt).1.history.Perm (answers.flatMap Answer.events) ∧
      (engine.run plan state cancelAt).1.aborted = false ∧
      ∀ answer ∈ answers,
        answer.outcome =
          engine.registry.settled engine.configuration.resolverTimeout result delay answer.call ∧
        answer.made =
          (engine.registry.lookup answer.call.typeName answer.call.fieldName).isOk := by
  obtain ⟨answers, yields, allowed, perm, aborted, -⟩ := engine.run_yields plan state cancelAt
  have kept := engine.run_not_aborted plan state cancelAt uncancelled
  refine ⟨answers, yields, perm, kept, fun answer member => ?_⟩
  refine (allowed answer member).settled resolves fun given => ?_
  have ended := (Answer.ended_mem_iff perm).2 ⟨answer, member, rfl, given⟩
  rw [aborted, List.any_eq_false] at kept
  exact kept _ ended rfl

/-- A run that is not cancelled comes to what its plan is evaluated to by the results and delays of
the resolvers, and makes each call that has a resolver. -/
theorem run_settled (engine : Engine State) {result : Call → Except FieldError Json}
    {delay : Call → Nat} (resolves : engine.registry.Resolves result delay) (plan : Plan)
    (state : State) (cancelAt : Option Nat)
    (uncancelled : (engine.run plan state cancelAt).1.cancelled = false) :
    let outcome := engine.registry.settled engine.configuration.resolverTimeout result delay
    (engine.run plan state cancelAt).2 = plan.eval outcome ∧
      (engine.run plan state cancelAt).1.aborted = false ∧
      ∀ call ∈ plan.calls outcome, .started call ∈ (engine.run plan state cancelAt).1.history ∨
        ∃ cause, engine.registry.lookup call.typeName call.fieldName = .error cause := by
  intro outcome
  obtain ⟨answers, yields, perm, kept, settled⟩ :=
    engine.run_answered resolves plan state cancelAt uncancelled
  obtain ⟨heval, hcalls⟩ := yields.eval_eq fun answer member => (settled answer member).1.symm
  refine ⟨heval.symm, kept, fun call member => ?_⟩
  rw [hcalls] at member
  obtain ⟨answer, hanswer, rfl⟩ := List.mem_map.1 member
  cases lookup : engine.registry.lookup answer.call.typeName answer.call.fieldName with
  | error cause => exact Or.inr ⟨cause, rfl⟩
  | ok binding =>
    have made : answer.made = true := by
      rw [(settled answer hanswer).2, lookup]
      rfl
    exact Or.inl ((Answer.started_mem_iff perm).2 ⟨answer, hanswer, made, rfl⟩)

/-- The calls that are made in a run that is not cancelled are those of its plan that have a
resolver, in some order. -/
theorem run_calls (engine : Engine State) {result : Call → Except FieldError Json}
    {delay : Call → Nat} (resolves : engine.registry.Resolves result delay) (plan : Plan)
    (state : State) (cancelAt : Option Nat)
    (uncancelled : (engine.run plan state cancelAt).1.cancelled = false) :
    (engine.run plan state cancelAt).1.calls.Perm
      ((plan.calls (engine.registry.settled engine.configuration.resolverTimeout result
        delay)).filter fun call =>
          (engine.registry.lookup call.typeName call.fieldName).isOk) := by
  obtain ⟨answers, yields, perm, -, settled⟩ :=
    engine.run_answered resolves plan state cancelAt uncancelled
  obtain ⟨-, hcalls⟩ := yields.eval_eq fun answer member => (settled answer member).1.symm
  have started : ∀ answer ∈ answers, ({ state, history := answer.events } : World State).calls =
      [answer.call].filter fun call =>
        (engine.registry.lookup call.typeName call.fieldName).isOk := by
    intro answer member
    rw [List.filter_singleton, ← (settled answer member).2]
    cases made : answer.made <;> simp [World.calls, Answer.events, made]
  rw [hcalls, List.map_eq_flatMap, List.filter_flatMap]
  refine (perm.filterMap _).trans (.of_eq ?_)
  rw [List.filterMap_flatMap, List.flatMap_def, List.flatMap_def]
  congr 1
  exact List.map_congr_left started

/-- Two engines differ in what their resolvers do alone. -/
structure Alike (first : Engine State) (second : Engine State') : Prop where
  schema : second.schema = first.schema
  configuration : second.configuration = first.configuration
  bound : ∀ typeName fieldName, (second.registry.lookup typeName fieldName).isOk =
    (first.registry.lookup typeName fieldName).isOk

/-- Where resolvers are bound to the same fields, the same calls have one. -/
theorem Alike.of_fields {first : Engine State} {second : Engine State'}
    (schema : second.schema = first.schema)
    (configuration : second.configuration = first.configuration)
    (fields : second.registry.bindings.map (fun binding => (binding.typeName, binding.fieldName)) =
      first.registry.bindings.map fun binding => (binding.typeName, binding.fieldName)) :
    first.Alike second := by
  refine ⟨schema, configuration, fun typeName fieldName => ?_⟩
  have isOk : ∀ {State : Type} (registry : Registry State),
      (registry.lookup typeName fieldName).isOk =
        (registry.bindings.map fun binding => (binding.typeName, binding.fieldName)).any
          fun field => field.1 == typeName && field.2 == fieldName := by
    intro State registry
    rw [List.any_map, Registry.lookup, Registry.lookup?]
    cases found : registry.bindings.find? fun binding => binding.isOf typeName fieldName with
    | none =>
      rw [List.find?_eq_none] at found
      exact (List.any_eq_false.2 found).symm
    | some binding =>
      have matching := List.find?_some found
      exact (List.any_eq_true.2 ⟨binding, List.mem_of_find?_eq_some found, matching⟩).symm
  rw [isOk, isOk, fields]

/-- What a request selects depends on the schema and on how deep documents may nest alone. -/
theorem select_congr {first : Engine State} {second : Engine State'}
    (schema : second.schema = first.schema)
    (limit : second.configuration.recursionLimit = first.configuration.recursionLimit)
    (request : Request) : second.select request = first.select request := by
  unfold select
  rw [schema, limit]

/-- The outcomes of calls in an operation that is not cancelled. -/
def settled (engine : Engine State) (result : Call → Except FieldError Json) (delay : Call → Nat) :
    Call → Outcome :=
  engine.registry.settled engine.configuration.resolverTimeout result delay

/-- Without a cancellation, what is due to resolvers that do not depend on the shared state is
settled by their results and delays. -/
theorem Due.settled {engine : Engine State} {result : Call → Except FieldError Json}
    {delay : Call → Nat} (resolves : engine.registry.Resolves result delay) {world : World State}
    (uncancelled : world.cancelled = false) {call : Call} {outcome : Outcome}
    (due : engine.Due world call outcome) : engine.settled result delay call = outcome := by
  unfold Engine.settled Registry.settled
  cases due with
  | unbound lookup => simp only [lookup]
  | ended lookup started gives =>
    obtain ⟨rfl, rfl⟩ := (resolves call _ lookup).eq_of_gives gives
    simp only [lookup]
  | aborted lookup cancelled =>
    rw [cancelled] at uncancelled
    cases uncancelled

/-- The positions of the response to an operation that is not cancelled are marked by the results
and delays of the resolvers. -/
theorem positions_settled (engine : Engine State) {result : Call → Except FieldError Json}
    {delay : Call → Nat} (resolves : engine.registry.Resolves result delay) {request : Request}
    (state : State) (cancelAt : Option Nat) {operation : Operation} {rootType : ObjectType}
    (selected : engine.select request = .ok (operation, rootType))
    (uncancelled : (engine.execute request state cancelAt).world.cancelled = false) :
    engine.positions request operation rootType
        (engine.execute request state cancelAt).world.outcome =
      engine.positions request operation rootType (engine.settled result delay) := by
  obtain ⟨-, -, due⟩ := engine.execute_due state cancelAt selected
  exact (engine.positions_congr request operation rootType fun call member =>
    (due call member).settled resolves uncancelled).symm

namespace Alike

variable {first : Engine State} {second : Engine State'}

/-- Engines that differ in what resolvers do select the same. -/
theorem select_eq (alike : first.Alike second) (request : Request) :
    second.select request = first.select request :=
  select_congr alike.schema (congrArg Configuration.recursionLimit alike.configuration) request

/-- Engines that differ in what resolvers do have the same positions for the same outcomes. -/
theorem positions_eq (alike : first.Alike second) (request : Request) (operation : Operation)
    (rootType : ObjectType) (outcome : Call → Outcome) :
    second.positions request operation rootType outcome =
      first.positions request operation rootType outcome := by
  rw [positions, positions, alike.schema]

/-- Engines that differ in what resolvers do settle a call alike if it ends the same in time. -/
theorem settled_congr (alike : first.Alike second) {result result' : Call → Except FieldError Json}
    {delay delay' : Call → Nat} {call : Call}
    (same : Outcome.within first.configuration.resolverTimeout (delay call) (result call) =
      Outcome.within first.configuration.resolverTimeout (delay' call) (result' call)) :
    second.settled result' delay' call = first.settled result delay call := by
  rw [settled, settled, alike.configuration]
  exact (Registry.settled_eq_of_within (alike.bound _ _) fun _ _ => same).symm

/-- Engines that differ in what resolvers do settle calls alike by the same results and delays. -/
theorem settled_eq (alike : first.Alike second) (result : Call → Except FieldError Json)
    (delay : Call → Nat) : second.settled result delay = first.settled result delay :=
  funext fun _ => alike.settled_congr rfl

end Alike

/-- The response to an operation that is not cancelled is what its positions come to, marked by the
results and delays of the resolvers. The calls that are made are those of its plan that have a
resolver. -/
theorem execute_settled (engine : Engine State) {result : Call → Except FieldError Json}
    {delay : Call → Nat} (resolves : engine.registry.Resolves result delay) {request : Request}
    (state : State) (cancelAt : Option Nat) {operation : Operation} {rootType : ObjectType}
    (selected : engine.select request = .ok (operation, rootType))
    (uncancelled : (engine.execute request state cancelAt).world.cancelled = false) :
    let plan := operation.plan engine.schema engine.configuration.parallelSiblings
      request.variableValues rootType
    (engine.execute request state cancelAt).response = respond
        (engine.positions request operation rootType (engine.settled result delay)).complete false ∧
      (engine.execute request state cancelAt).world.calls.Perm
        ((plan.calls (engine.settled result delay)).filter fun call =>
          (engine.registry.lookup call.typeName call.fieldName).isOk) := by
  intro plan
  rw [execute_of_select engine state cancelAt selected] at uncancelled ⊢
  obtain ⟨completed, kept, -⟩ := engine.run_settled resolves plan state cancelAt uncancelled
  refine ⟨?_, engine.run_calls resolves plan state cancelAt uncancelled⟩
  rw [positions, Marking.complete_root _ _ _ _ _ engine.configuration.parallelSiblings, settled,
    ← completed, ← kept]

/-- An engine with one resolver, which does something else for the call at one path. -/
def lapsing (lapse : Action Unit) : Engine Unit where
  schema := sample.schema
  registry :=
    { bindings :=
        [{ typeName := "Query", fieldName := "lenient",
           resolver := fun call =>
             if call.path = [.key "lenient"] then lapse else .done (.ok (.ofInt 7)) }] }

/-- The resolver has the result of the lapse at one path, and a number elsewhere. -/
theorem resolves_lapsing {lapse : Action Unit} {result : Except FieldError Json} {delay : Nat}
    (takes : lapse.Takes result delay) :
    (lapsing lapse).registry.Resolves
      (fun call => if call.path = [.key "lenient"] then result else .ok (.ofInt 7))
      (fun call => if call.path = [.key "lenient"] then delay else 0) := by
  apply Registry.Resolves.of_bindings
  intro binding member call _
  rw [lapsing, List.mem_singleton] at member
  subst member
  by_cases here : call.path = [.key "lenient"]
  · simp only [if_pos here]
    exact takes
  · simp only [if_neg here]
    exact .done

/-- The response is the same for all delays by which the same calls exceed the time limit, and
whether or not siblings run concurrently. -/
theorem response_eq_of_same_timeouts (first : Engine State) (second : Engine State')
    (schema : second.schema = first.schema)
    (configuration : second.configuration = { first.configuration with
      parallelSiblings := second.configuration.parallelSiblings })
    (bound : ∀ typeName fieldName, (second.registry.lookup typeName fieldName).isOk =
      (first.registry.lookup typeName fieldName).isOk)
    {result : Call → Except FieldError Json} {delay delay' : Call → Nat}
    (resolves : first.registry.Resolves result delay)
    (resolves' : second.registry.Resolves result delay')
    (request : Request) (state : State) (state' : State') (cancelAt cancelAt' : Option Nat)
    (uncancelled : (first.execute request state cancelAt).world.cancelled = false)
    (uncancelled' : (second.execute request state' cancelAt').world.cancelled = false)
    (timeouts : ∀ call, .started call ∈ (first.execute request state cancelAt).world.history →
      (Outcome.Exceeds first.configuration.resolverTimeout (delay call) ↔
        Outcome.Exceeds first.configuration.resolverTimeout (delay' call))) :
    (second.execute request state' cancelAt').response =
      (first.execute request state cancelAt).response := by
  have limit : second.configuration.recursionLimit = first.configuration.recursionLimit := by
    rw [configuration]
  have timeout : second.configuration.resolverTimeout = first.configuration.resolverTimeout := by
    rw [configuration]
  have same := select_congr schema limit request
  cases selected : first.select request with
  | error cause =>
    unfold execute
    rw [same, selected]
  | ok chosen =>
    obtain ⟨operation, rootType⟩ := chosen
    rw [selected] at same
    rw [execute_of_select first state cancelAt selected] at uncancelled timeouts ⊢
    rw [execute_of_select second state' cancelAt' same] at uncancelled' ⊢
    obtain ⟨completed, kept, made⟩ := first.run_settled resolves _ state cancelAt uncancelled
    obtain ⟨completed', kept', -⟩ := second.run_settled resolves' _ state' cancelAt' uncancelled'
    simp only [kept, kept', completed, completed']
    congr 1
    -- both plans come to what the positions do, so that the outcomes alone can make a difference
    rw [← Marking.complete_root, schema, Marking.complete_root _ _ _ _ _
      first.configuration.parallelSiblings]
    refine (Plan.eval_congr fun call member => ?_).symm
    rw [timeout]
    refine Registry.settled_congr (bound call.typeName call.fieldName) fun binding lookup => ?_
    rcases made call member with started | ⟨cause, unbound⟩
    · exact timeouts call started
    · rw [lookup] at unbound
      cases unbound

/-- An engine with one resolver, which takes some time, and a time limit of a millisecond. -/
def waiting (parallelSiblings : Bool) (delay : Nat) : Engine Unit where
  schema := sample.schema
  registry :=
    { bindings :=
        [{ typeName := "Query", fieldName := "lenient",
           resolver := fun _ => .wait delay (.done (.ok (.ofInt 7))) }] }
  configuration := { parallelSiblings, resolverTimeout := some { nanoseconds := 1000000 } }

/-- The resolver has a number as its result, after the delay. -/
theorem resolves_waiting (parallelSiblings : Bool) (delay : Nat) :
    (waiting parallelSiblings delay).registry.Resolves (fun _ => .ok (.ofInt 7))
      (fun _ => delay) := by
  apply Registry.Resolves.of_bindings
  intro binding member call _
  rw [waiting, List.mem_singleton] at member
  subst member
  exact .wait .done

/-- Two delays beyond the limit lead to the same response. -/
theorem response_eq_of_same_timeouts_waiting :
    ((waiting false 5).execute { query := some "{lenient}" } () none).response =
      ((waiting true 3).execute { query := some "{lenient}" } () none).response := by
  refine response_eq_of_same_timeouts (waiting true 3) (waiting false 5) rfl rfl ?_
    (resolves_waiting true 3) (resolves_waiting false 5) _ () () none none
    (by decide +kernel) (by decide +kernel) ?_
  · intro typeName fieldName
    cases bound : "Query" == typeName && "lenient" == fieldName with
    | true =>
      simp only [Registry.lookup, Registry.lookup?, waiting, List.find?, Binding.isOf, bound]
      rfl
    | false =>
      simp only [Registry.lookup, Registry.lookup?, waiting, List.find?, Binding.isOf, bound]
  · intro call started
    exact ⟨fun _ => ⟨_, rfl, by decide⟩, fun _ => ⟨_, rfl, by decide⟩⟩

end Engine

end GraphQL
