import GraphQL.Proofs.Jobs.Outcomes
import GraphQL.Proofs.Positions.CallPaths
import GraphQL.Proofs.Positions.Marking

/-!
# The positions of a response

The response to an operation is what its positions come to, marked by the outcomes of the calls that
were made (`Engine.execute_selected`). So whatever is to be shown of responses, for all resolvers,
delays, time limits and moments of cancellation, is a matter of marked positions alone. The outcomes
are those that the resolvers gave, unless their calls exceeded the time limit or were given up
(`Engine.execute_due`).
-/

set_option autoImplicit false

namespace GraphQL

namespace Engine

variable {State : Type}

/-- The positions of the response to an operation whose calls have some outcomes. -/
def positions (engine : Engine State) (request : Request) (operation : Operation)
    (rootType : ObjectType) (outcome : Call → Outcome) : Position :=
  Marking.root
    { schema := engine.schema
      vars := { definitions := operation.variableDefinitions, values := request.variableValues }
      outcome }
    operation rootType

/-- The calls that an operation makes where calls have some outcomes. -/
def calls (engine : Engine State) (request : Request) (operation : Operation)
    (rootType : ObjectType) (outcome : Call → Outcome) : List Call :=
  (operation.plan engine.schema engine.configuration.parallelSiblings request.variableValues
    rootType).calls outcome

/-- The data as a whole may not be null in place of another position. -/
theorem nonNull_positions (engine : Engine State) (request : Request) (operation : Operation)
    (rootType : ObjectType) (outcome : Call → Outcome) :
    (engine.positions request operation rootType outcome).nonNull = true := by
  unfold positions Marking.root
  rw [Marking.ofObject_eq]
  rfl

/-- A request that is not rejected selects an operation and its root type. -/
theorem exists_selected {engine : Engine State} {request : Request}
    (accepted : (engine.select request).isOk = true) :
    ∃ operation rootType, engine.select request = .ok (operation, rootType) := by
  cases selected : engine.select request with
  | error cause =>
    rw [selected] at accepted
    cases accepted
  | ok chosen => exact ⟨chosen.1, chosen.2, rfl⟩

/-- What a request selects is run by its plan. -/
theorem execute_of_select (engine : Engine State) {request : Request} (state : State)
    (cancelAt : Option Nat) {operation : Operation} {rootType : ObjectType}
    (selected : engine.select request = .ok (operation, rootType)) :
    engine.execute request state cancelAt =
      let run := engine.run (operation.plan engine.schema engine.configuration.parallelSiblings
        request.variableValues rootType) state cancelAt
      { response := respond run.2 run.1.aborted, world := run.1 } := by
  unfold execute
  rw [selected]

/-- The response to an operation is what its positions come to, marked by what became of its calls.
A position is given up only if the error of the cancellation is reported, and that only if the
operation was cancelled. -/
theorem execute_selected (engine : Engine State) {request : Request} (state : State)
    (cancelAt : Option Nat) {operation : Operation} {rootType : ObjectType}
    (selected : engine.select request = .ok (operation, rootType)) :
    let execution := engine.execute request state cancelAt
    let root := engine.positions request operation rootType execution.world.outcome
    execution.response = respond root.complete execution.world.aborted ∧
      root.WellFormed (execution.world.aborted = true) [] ∧
      (execution.world.aborted = true → execution.world.cancelled = true) := by
  have run := engine.run_eval (fun _ _ yields => operation.nodup_calls_plan engine.schema
    engine.configuration.parallelSiblings request.variableValues rootType yields) state cancelAt
  rw [execute_of_select engine state cancelAt selected]
  generalize engine.run _ state cancelAt = result at run ⊢
  obtain ⟨world, completion⟩ := result
  obtain ⟨completed, -, aborted, cancelled⟩ := run
  simp only at completed ⊢
  refine ⟨?_, ?_, cancelled⟩
  · rw [completed, positions, Marking.complete_root]
  · refine (Marking.wellFormed_root _ operation rootType).mono ?_
    rintro ⟨call, h⟩
    exact aborted.2 ⟨call, World.ended_of_outcome_aborted h⟩

/-- The calls that ended are those of the operation, each with its outcome. And what became of them
is due to their resolvers, the time limit or the cancellation. -/
theorem execute_due (engine : Engine State) {request : Request} (state : State)
    (cancelAt : Option Nat) {operation : Operation} {rootType : ObjectType}
    (selected : engine.select request = .ok (operation, rootType)) :
    let world := (engine.execute request state cancelAt).world
    (∀ call outcome, .ended call outcome ∈ world.history ↔
      call ∈ engine.calls request operation rootType world.outcome ∧
        world.outcome call = outcome) ∧
    (∀ call outcome, .ended call outcome ∈ world.history → engine.Due world call outcome) ∧
    ∀ call ∈ engine.calls request operation rootType world.outcome,
      engine.Due world call (world.outcome call) := by
  have run := engine.run_eval (fun _ _ yields => operation.nodup_calls_plan engine.schema
    engine.configuration.parallelSiblings request.variableValues rootType yields) state cancelAt
  have due := engine.run_due (operation.plan engine.schema engine.configuration.parallelSiblings
    request.variableValues rootType) state cancelAt
  rw [execute_of_select engine state cancelAt selected]
  generalize engine.run _ state cancelAt = result at run due ⊢
  obtain ⟨world, completion⟩ := result
  obtain ⟨-, ended, -⟩ := run
  exact ⟨ended, due, fun call member => due call _ ((ended call _).2 ⟨member, rfl⟩)⟩

/-- An engine with two fields: one is declared non-null but comes to null, the other one may be null
and is not. -/
def sample : Engine Unit where
  schema :=
    { types := [.object
        { name := "Query"
          fields := [{ name := "strict", type := .nonNull (.builtin .int), arguments := [] },
            { name := "lenient", type := .builtin .int, arguments := [] }] }]
      queryRoot := "Query"
      mutationRoot := none }
  registry :=
    { bindings :=
        [{ typeName := "Query", fieldName := "strict", resolver := .compute fun _ => .ok .null },
          { typeName := "Query", fieldName := "lenient",
            resolver := .compute fun _ => .ok (.ofInt 7) }] }

end Engine

end GraphQL
