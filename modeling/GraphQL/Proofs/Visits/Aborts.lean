import GraphQL.Proofs.Jobs.Turns
import GraphQL.Proofs.Positions.Cancellation
import GraphQL.Proofs.Visits.Calls
import GraphQL.Proofs.Visits.Places

/-!
# Calls in an operation that is cancelled

The turns of a run fall into those that begin before the operation is cancelled and those that begin
after it. In the latter no resolver is called: what is still waiting is given up, and so is what
would come next (`Engine.execute_obeys_cancellation`). A call that was given up leaves nothing in
the response. All of this holds wherever the cancellation comes from, an instant or a resolver.
-/

set_option autoImplicit false

namespace GraphQL

/-- Where a visit makes a call that is given up, nothing is reported. -/
theorem Marking.Visits.at?_of_aborted {m : Marking} {operation : Operation} {rootType : ObjectType}
    {visit : Visit} (visited : m.Visits operation rootType visit) {call : Call}
    (makes : m.Makes visit call) (aborted : m.outcome call = .aborted) :
    ∃ nonNull, (m.root operation rootType).at? call.path = some (.failed nonNull none) := by
  obtain ⟨nonNull, here⟩ := visited.exists_at?
  rw [← makes.path] at here
  cases makes with
  | @field type parent path group definition call h =>
    refine ⟨definition.type.isNonNull, here.trans ?_⟩
    rw [position, ofField_of_request? h, aborted]
    rfl

namespace Engine

variable {State : Type} {engine : Engine State} {request : Request}

/-- A call that ended is one that a visit makes, and its only outcome is an answer to it. If it was
started it has a resolver. -/
theorem execute_ended (engine : Engine State) {request : Request} (state : State)
    (cancelAt : Option Nat) {operation : Operation} {rootType : ObjectType}
    (selected : engine.select request = .ok (operation, rootType)) {call : Call} {outcome : Outcome}
    (ended : .ended call outcome ∈ (engine.execute request state cancelAt).world.history) :
    let world := (engine.execute request state cancelAt).world
    let m := engine.marking request operation world
    world.outcome call = outcome ∧
      (∃ visit, m.Visits operation rootType visit ∧ m.Makes visit call) ∧
      ∃ made,
        engine.registry.Answers engine.configuration.resolverTimeout ⟨call, outcome, made⟩ := by
  intro world m
  obtain ⟨answers, perm, -, answered, made⟩ := engine.execute_answers state cancelAt selected
  obtain ⟨answer, member, rfl, rfl⟩ := (Answer.ended_mem_iff perm).1 ended
  exact ⟨(answered answer member).1, (made answer.call).1 (List.mem_map_of_mem member),
    answer.made, (answered answer member).2⟩

/-- A call that was started ended with an outcome that a resolver's call may have. -/
theorem execute_started (engine : Engine State) {request : Request} (state : State)
    (cancelAt : Option Nat) {operation : Operation} {rootType : ObjectType}
    (selected : engine.select request = .ok (operation, rootType)) {call : Call}
    (started : .started call ∈ (engine.execute request state cancelAt).world.history) :
    ∃ outcome, .ended call outcome ∈ (engine.execute request state cancelAt).world.history ∧
      ∀ cause, outcome ≠ .unbound cause := by
  obtain ⟨answers, perm, -, answered, -⟩ := engine.execute_answers state cancelAt selected
  obtain ⟨answer, member, made, rfl⟩ := (Answer.started_mem_iff perm).1 started
  refine ⟨answer.outcome, (Answer.ended_mem_iff perm).2 ⟨answer, member, rfl, rfl⟩, ?_⟩
  obtain ⟨-, allowed⟩ := answered answer member
  cases allowed with
  | unbound => cases made
  | aborted => simp
  | ended => exact (Outcome.within_kept _ _ _).2

/-- What is given up leaves nothing in the response: no error at or below its path, and no value but
null. -/
theorem execute_quiet_of_aborted (engine : Engine State) {request : Request} (state : State)
    (cancelAt : Option Nat) {operation : Operation} {rootType : ObjectType}
    (selected : engine.select request = .ok (operation, rootType)) {call : Call}
    (ended : .ended call .aborted ∈ (engine.execute request state cancelAt).world.history) :
    let response := (engine.execute request state cancelAt).response
    (∀ error ∈ response.errors, error.isWithin call.path = false) ∧
      ∀ data value, response.data = some data → data.at? call.path = some value →
        value = .null := by
  intro response
  obtain ⟨outcome, ⟨visit, visited, makes⟩, -⟩ :=
    engine.execute_ended state cancelAt selected ended
  obtain ⟨nonNull, failed⟩ := visited.at?_of_aborted makes outcome
  obtain ⟨responded, wf, -⟩ := engine.execute_selected state cancelAt selected
  constructor
  · intro error member
    rw [show response = _ from responded, respond, List.mem_append] at member
    rcases member with own | cancelled
    · exact wf.isWithin_eq_false_of_givenUp failed own
    · split at cancelled
      · rw [List.mem_singleton.1 cancelled]
        rfl
      · cases cancelled
  · intro data value whole found
    rw [show response = _ from responded] at whole
    exact (Position.eq_null_of_complete_failed (Position.complete_at? whole failed found)).2

/-- The errors without a path: the one that tells of the cancellation, if a call was given up. -/
theorem execute_pathless (engine : Engine State) {request : Request} (state : State)
    (cancelAt : Option Nat) {operation : Operation} {rootType : ObjectType}
    (selected : engine.select request = .ok (operation, rootType)) :
    let execution := engine.execute request state cancelAt
    execution.response.errors.filter (fun error => error.path.isNone) =
      if execution.world.aborted then [Reportable.report none ExecutionError.cancelled]
      else [] := by
  intro execution
  obtain ⟨responded, wf, -⟩ := engine.execute_selected state cancelAt selected
  rw [show execution.response = _ from responded, respond, List.filter_append,
    List.filter_eq_nil_iff.2, List.nil_append]
  · change List.filter _ (if execution.world.aborted then _ else _) = _
    split <;> rfl
  · intro error member
    obtain ⟨path, nonNull, located, -⟩ := Position.exists_path_of_mem_complete_errors wf member
    simp [located]

/-- Once an operation is cancelled, no resolver is called. The turns of a run, which its log tells
of, are those that begin before the cancellation and those that begin after it; from the instant of
the cancellation on, or after the turn in which a resolver cancels, they are of the second kind. In
these no call starts, at whatever position of the plan, and a call that was still waiting is given
up. What ends in a turn of the first kind, even in one that cancels, keeps the outcome that its
resolver gives, and the response is what comes of all outcomes. A call that was given up leaves no
error at or below its path and no value there but null. The one error without a path tells of the
cancellation, and is there if and only if some call was given up. -/
theorem execute_obeys_cancellation (engine : Engine State) {request : Request} (state : State)
    (cancelAt : Option Nat) {operation : Operation} {rootType : ObjectType}
    (selected : engine.select request = .ok (operation, rootType)) :
    let execution := engine.execute request state cancelAt
    let world := execution.world
    let logged := (engine.logged (operation.plan engine.schema
      engine.configuration.parallelSiblings request.variableValues rootType) state cancelAt).1
    logged.forget = world ∧ logged.turns.flatMap (·.events) = world.history ∧
    (logged.turns.Pairwise fun earlier later =>
      earlier.cancelledAfter = true → later.cancelledBefore = true) ∧
    (∀ instant ∈ cancelAt, ∀ turn ∈ logged.turns, instant ≤ turn.instant →
      turn.cancelledBefore = true) ∧
    (∃ free late, logged.turns = free ++ late ∧ (∀ turn ∈ free, turn.cancelledBefore = false) ∧
      (∀ turn ∈ late, turn.cancelledBefore = true) ∧
      (∀ call, .started call ∉ late.flatMap (·.events)) ∧
      (∀ call, .started call ∈ free.flatMap (·.events) →
        (∀ outcome, .ended call outcome ∉ free.flatMap (·.events)) →
        .ended call .aborted ∈ late.flatMap (·.events)) ∧
      ∀ call outcome, .ended call outcome ∈ free.flatMap (·.events) →
        outcome ≠ .aborted ∧ world.outcome call = outcome ∧
          ∀ binding result delay,
            engine.registry.lookup call.typeName call.fieldName = .ok binding →
            (binding.resolver call).Takes result delay →
            outcome = .within engine.configuration.resolverTimeout delay result) ∧
    execution.response = respond
      (engine.positions request operation rootType world.outcome).complete world.aborted ∧
    (∀ call, .ended call .aborted ∈ world.history →
      (∀ error ∈ execution.response.errors, error.isWithin call.path = false) ∧
      ∀ data value, execution.response.data = some data → data.at? call.path = some value →
        value = .null) ∧
    execution.response.errors.filter (fun error => error.path.isNone) =
      (if world.aborted then [Reportable.report none ExecutionError.cancelled] else []) ∧
    (world.aborted = true ↔ ∃ call, .ended call .aborted ∈ world.history) := by
  intro execution world logged
  have ran : (engine.run (operation.plan engine.schema engine.configuration.parallelSiblings
      request.variableValues rootType) state cancelAt).1 = world := by
    rw [show world = (engine.execute request state cancelAt).world from rfl,
      execute_of_select engine state cancelAt selected]
  have same : logged.forget = world := by
    rw [← ran, engine.forget_logged]
  have chronicle : logged.Chronicle cancelAt := engine.logged_chronicle _ state cancelAt
  obtain ⟨free, late, between⟩ := engine.exists_cancelledBetween (operation.plan engine.schema
    engine.configuration.parallelSiblings request.variableValues rootType) state cancelAt
  have history : (free ++ late).flatMap (·.events) = world.history := ran ▸ between.history
  -- what happened in the run happened in a turn before the cancellation or in one after it
  have told : ∀ event, event ∈ world.history ↔
      event ∈ free.flatMap (·.events) ∨ event ∈ late.flatMap (·.events) := by
    intro event
    rw [← ran, between.mem_history]
  refine ⟨same, by rw [between.turns, history], chronicle.lasting, chronicle.timely,
    ⟨free, late, between.turns, between.before, between.after, between.not_started, ?_, ?_⟩,
    (engine.execute_selected state cancelAt selected).1,
    fun call => engine.execute_quiet_of_aborted state cancelAt selected,
    engine.execute_pathless state cancelAt selected,
    engine.execute_aborted_iff state cancelAt selected⟩
  · intro call started waiting
    obtain ⟨outcome, ended, bound⟩ :=
      engine.execute_started state cancelAt selected ((told _).2 (.inl started))
    have later := ((told _).1 ended).resolve_left (waiting outcome)
    exact between.given_up later bound ▸ later
  · intro call outcome ended
    have kept := between.not_given_up ended
    obtain ⟨own, -, made, allowed⟩ :=
      engine.execute_ended state cancelAt selected ((told _).2 (.inl ended))
    refine ⟨kept, own, fun binding result delay lookup takes => ?_⟩
    exact (allowed.eq_within kept lookup takes).1

/-- An engine with a field that cancels the operation, and one that takes some time. -/
def halting : Engine Unit where
  schema :=
    { types := [.object
        { name := "Query"
          fields := [{ name := "halt", type := .builtin .int, arguments := [] },
            { name := "slow", type := .builtin .int, arguments := [] }] }]
      queryRoot := "Query"
      mutationRoot := none }
  registry :=
    { bindings :=
        [{ typeName := "Query", fieldName := "halt",
           resolver := fun _ => .cancel (.done (.ok (.ofInt 1))) },
          { typeName := "Query", fieldName := "slow",
            resolver := fun _ => .wait 5 (.done (.ok (.ofInt 7))) }] }

/-- Of three fields the second one cancels the operation and keeps its value. The first one, which
is waiting, is given up, and the third one is not called. -/
theorem execute_obeys_cancellation_halting :
    (halting.execute { query := some "{slow halt late: slow}" } () none).world.calls.length = 2 ∧
      (halting.execute { query := some "{slow halt late: slow}" } () none).response.data =
        some (.object [("slow", .null), ("halt", .ofInt 1), ("late", .null)]) ∧
      (halting.execute { query := some "{slow halt late: slow}" } () none).response.errors.filter
          (fun error => error.path.isNone) =
        [Reportable.report none ExecutionError.cancelled] := by
  have aborted :
      (halting.execute { query := some "{slow halt late: slow}" } () none).world.aborted = true := by
    decide +kernel
  obtain ⟨operation, rootType, selected⟩ : ∃ operation rootType,
      halting.select { query := some "{slow halt late: slow}" } = .ok (operation, rootType) :=
    exists_selected (by decide +kernel)
  obtain ⟨-, -, -, -, -, -, -, pathless, -⟩ :=
    halting.execute_obeys_cancellation () none selected
  rw [if_pos aborted] at pathless
  exact ⟨by decide +kernel, by decide +kernel, pathless⟩

end Engine

end GraphQL
