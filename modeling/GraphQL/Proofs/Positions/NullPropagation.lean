import GraphQL.Proofs.Jobs.Schedules

/-!
# Null propagation

Which positions of a response are null is decided by the failures of single positions. A position
that may be null is null if its own value is, or if a failure reaches it from below through
positions of non-null type alone; all others keep what they have, and the data as a whole is missing
if a failure reaches the root. `Engine.execute_null_iff` says so for every run, also for one that is
cancelled, in which the positions that were given up count as failed. Which positions fail is up to
the resolvers: the outcomes by which they are marked are those that the resolvers gave.
-/

set_option autoImplicit false

namespace GraphQL

namespace Engine

variable {State : Type}

/-- Null propagation is exact. The positions are marked by what became of the calls: of each, what
its resolver gives under the time limit, unless no resolver is bound or the operation was cancelled.
Without a cancellation each failed position has an error, so that it failed in a step of its own;
and where each resolver has a result and a delay for each call, these mark the positions. -/
theorem execute_null_iff (engine : Engine State) {request : Request} (state : State)
    (cancelAt : Option Nat) {operation : Operation} {rootType : ObjectType}
    (selected : engine.select request = .ok (operation, rootType)) :
    let execution := engine.execute request state cancelAt
    let root := engine.positions request operation rootType execution.world.outcome
    (execution.response.data = none ↔ ∃ path, root.FailsAlong path) ∧
      (∀ data, execution.response.data = some data →
        ∀ path position value, root.at? path = some position → data.at? path = some value →
          (position.nonNull = false →
            (value = .null ↔
              position = .leaf false .null ∨ ∃ below, position.FailsAlong below)) ∧
          (position.nonNull = true ∨ (¬ ∃ below, position.FailsAlong below) →
            position.Keeps value)) ∧
      (∀ call ∈ engine.calls request operation rootType execution.world.outcome,
        engine.Due execution.world call (execution.world.outcome call)) ∧
      (execution.world.cancelled = false →
        ∀ path nonNull, root.at? path ≠ some (.failed nonNull none)) ∧
      (execution.world.cancelled = false → ∀ result delay, engine.registry.Resolves result delay →
        root = engine.positions request operation rootType (engine.settled result delay)) := by
  intro execution root
  obtain ⟨response, wf, cancelled⟩ := engine.execute_selected state cancelAt selected
  have completed : execution.response.data = root.complete.value :=
    congrArg Response.data response
  refine ⟨?_, ?_, (engine.execute_due state cancelAt selected).2.2, ?_,
    fun uncancelled result delay resolves =>
      engine.positions_settled resolves state cancelAt selected uncancelled⟩
  · rw [completed, Position.complete_value_eq_none_iff wf]
    exact and_iff_right (engine.nonNull_positions request operation rootType _)
  · intro data hdata path position value hposition hvalue
    have placed := wf.of_at? hposition
    have comes := Position.complete_at? (completed ▸ hdata) hposition hvalue
    exact ⟨fun nullable => Position.complete_value_eq_null_iff placed nullable comes,
      Position.keeps_of_complete placed comes⟩
  · intro uncancelled path nonNull hposition
    -- only a call that was given up leaves a position failed without an error
    cases wf.of_at? hposition with
    | aborted given =>
      rw [cancelled given] at uncancelled
      cases uncancelled

/-- Where one resolver ends with null and the other one with a number, the null of the field that is
declared non-null takes the data with it. -/
theorem execute_null_iff_sample :
    let request : Request := { query := some "{strict lenient}" }
    let result : Call → Except FieldError Json := fun call =>
      if call.fieldName = "strict" then .ok .null else .ok (.ofInt 7)
    ∃ operation rootType, sample.select request = .ok (operation, rootType) ∧
      ∃ path, (sample.positions request operation rootType
        (sample.settled result fun _ => 0)).FailsAlong path := by
  intro request result
  have missing : (sample.execute request () none).response.data = none := by decide +kernel
  have uncancelled : (sample.execute request () none).world.cancelled = false := by decide +kernel
  have resolves : sample.registry.Resolves result fun _ => 0 := by
    apply Registry.Resolves.of_bindings
    intro binding member call ofField
    have named : binding.fieldName = call.fieldName :=
      eq_of_beq (Bool.and_eq_true_iff.1 ofField).2
    simp only [sample, List.mem_cons, List.not_mem_nil, or_false] at member
    rcases member with rfl | rfl
    · rw [show result call = .ok .null from if_pos named.symm]
      exact .done
    · rw [show result call = .ok (.ofInt 7) from if_neg (named ▸ by decide)]
      exact .done
  obtain ⟨operation, rootType, selected⟩ :
      ∃ operation rootType, sample.select request = .ok (operation, rootType) :=
    exists_selected (by decide +kernel)
  obtain ⟨reached, -, -, -, assigned⟩ := sample.execute_null_iff () none selected
  exact ⟨operation, rootType, selected, assigned uncancelled result _ resolves ▸ reached.1 missing⟩

end Engine

end GraphQL
