import GraphQL.Proofs.Jobs.Schedules
import GraphQL.Proofs.Positions.Divergence

/-!
# Failure containment

What one call ends with, be it a value, a failure or a timeout, is no matter of the rest of the
response. Two runs in which the call at one path alone has different outcomes come to data that is
the same around the nearest place that may be null, report the same errors elsewhere, and make the
same calls but for those that the value of the call leads to (`Engine.execute_contained`).
-/

set_option autoImplicit false

namespace GraphQL

namespace Engine

variable {State State' : Type}

section

variable {first : Engine State} {second : Engine State'} (alike : first.Alike second)
  {result result' : Call → Except FieldError Json} {delay delay' : Call → Nat}
  (resolves : first.registry.Resolves result delay)
  (resolves' : second.registry.Resolves result' delay') {place : Path}
  (agree : ∀ call, call.path ≠ place →
    second.settled result' delay' call = first.settled result delay call)
  {request : Request} (state : State) (state' : State') (cancelAt cancelAt' : Option Nat)
  {operation : Operation} {rootType : ObjectType}
  (selected : first.select request = .ok (operation, rootType))
  (uncancelled : (first.execute request state cancelAt).world.cancelled = false)
  (uncancelled' : (second.execute request state' cancelAt').world.cancelled = false)

include alike resolves resolves' agree selected uncancelled uncancelled'

/-- The data is the same but at the nearest position around the place that may be null. -/
theorem data_contained {around : Path}
    (nearest : first.nearest? request (first.settled result delay) place = some around) :
    (second.execute request state' cancelAt').response.data.map (Json.setAt .null around) =
      (first.execute request state cancelAt).response.data.map (Json.setAt .null around) := by
  have selected' := (alike.select_eq request).trans selected
  obtain ⟨response, -⟩ := first.execute_settled resolves state cancelAt selected uncancelled
  obtain ⟨response', -⟩ :=
    second.execute_settled resolves' state' cancelAt' selected' uncancelled'
  rw [nearest?_of_select selected] at nearest
  rw [response, response']
  rcases positions_sameBut alike.schema agree request operation rootType with
    equal | ⟨rest, rfl, replaced⟩
  · rw [equal]
  · exact replaced.complete_value_around nearest

/-- The errors outside the place are the same, in the same order. -/
theorem errors_contained :
    (second.execute request state' cancelAt').response.errors.filter
        (fun error => !error.isWithin place) =
      (first.execute request state cancelAt).response.errors.filter
        fun error => !error.isWithin place := by
  have selected' := (alike.select_eq request).trans selected
  obtain ⟨response, -⟩ := first.execute_settled resolves state cancelAt selected uncancelled
  obtain ⟨response', -⟩ :=
    second.execute_settled resolves' state' cancelAt' selected' uncancelled'
  simp only [response, response', respond, List.filter_append]
  rcases positions_sameBut alike.schema agree request operation rootType with
    equal | ⟨rest, rfl, replaced⟩
  · rw [equal]
  · have wf := first.wellFormed_positions request operation rootType
    have wf' := second.wellFormed_positions request operation rootType
    congr 1
    exact replaced.complete_errors ((wf _).mono fun _ => trivial) ((wf' _).mono fun _ => trivial)

/-- The calls that are not made below the place are the same. -/
theorem calls_contained :
    ((second.execute request state' cancelAt').world.calls.filter
        fun call => ¬ place.Below call.path).Perm
      ((first.execute request state cancelAt).world.calls.filter
        fun call => ¬ place.Below call.path) := by
  have selected' := (alike.select_eq request).trans selected
  obtain ⟨-, calls⟩ := first.execute_settled resolves state cancelAt selected uncancelled
  obtain ⟨-, calls'⟩ := second.execute_settled resolves' state' cancelAt' selected' uncancelled'
  simp only [alike.schema, alike.configuration, alike.bound] at calls'
  have filtered := operation.filter_calls_plan first.schema
    first.configuration.parallelSiblings request.variableValues rootType agree
    fun call => (first.registry.lookup call.typeName call.fieldName).isOk
  exact (calls'.filter _).trans (.trans (.of_eq filtered) (calls.filter _).symm)

end

/-- Engines whose resolvers give a call the same outcome, except for the one at some path, give
responses that are the same away from it. -/
theorem execute_contained {first : Engine State} {second : Engine State'}
    (alike : first.Alike second) {result result' : Call → Except FieldError Json}
    {delay delay' : Call → Nat} (resolves : first.registry.Resolves result delay)
    (resolves' : second.registry.Resolves result' delay') {place : Path}
    (agree : ∀ call, call.path ≠ place →
      second.settled result' delay' call = first.settled result delay call)
    (request : Request) (state : State) (state' : State') (cancelAt cancelAt' : Option Nat)
    (uncancelled : (first.execute request state cancelAt).world.cancelled = false)
    (uncancelled' : (second.execute request state' cancelAt').world.cancelled = false) :
    let execution := first.execute request state cancelAt
    let execution' := second.execute request state' cancelAt'
    (∀ around, first.nearest? request (first.settled result delay) place = some around →
      execution'.response.data.map (Json.setAt .null around) =
          execution.response.data.map (Json.setAt .null around) ∧
        ∀ path, ¬ around <+: path → ¬ path <+: around →
          (execution'.response.data.bind fun data => data.at? path) =
            execution.response.data.bind fun data => data.at? path) ∧
      execution'.response.errors.filter (fun error => !error.isWithin place) =
        execution.response.errors.filter (fun error => !error.isWithin place) ∧
      (execution'.world.calls.filter fun call => ¬ place.Below call.path).Perm
        (execution.world.calls.filter fun call => ¬ place.Below call.path) := by
  intro execution execution'
  cases selected : first.select request with
  | error cause =>
    -- both engines refuse the request for the same reason
    have selected' := (alike.select_eq request).trans selected
    have rejected : execution'.response = execution.response := by
      simp only [execution, execution', execute, selected', selected]
    have idle : execution'.world.calls = execution.world.calls := by
      simp only [execution, execution', execute, selected', selected]
      rfl
    rw [rejected, idle]
    exact ⟨fun _ _ => ⟨rfl, fun _ _ _ => rfl⟩, rfl, .rfl⟩
  | ok chosen =>
    refine ⟨?_, ?_, ?_⟩
    · intro around nearest
      have data := data_contained alike resolves resolves' agree state state' cancelAt cancelAt'
        selected uncancelled uncancelled' nearest
      exact ⟨data, fun path => Json.at?_eq_of_setAt_eq data⟩
    · exact errors_contained alike resolves resolves' agree state state' cancelAt cancelAt' selected
        uncancelled uncancelled'
    · exact calls_contained alike resolves resolves' agree state state' cancelAt cancelAt' selected
        uncancelled uncancelled'

/-- The failure of a field leaves its sibling, which is of the same type, as it is. -/
theorem execute_contained_lapsing :
    ((lapsing (.done (.error { message := "gone" }))).execute
          { query := some "{lenient other: lenient}" } () none).response.data.map
            (Json.setAt .null [.key "lenient"]) =
        ((lapsing (.done (.ok (.ofInt 7)))).execute { query := some "{lenient other: lenient}" }
          () none).response.data.map (Json.setAt .null [.key "lenient"]) ∧
      ((lapsing (.done (.error { message := "gone" }))).execute
          { query := some "{lenient other: lenient}" } () none).response.errors.filter
            (fun error => !error.isWithin [.key "lenient"]) =
        ((lapsing (.done (.ok (.ofInt 7)))).execute { query := some "{lenient other: lenient}" }
          () none).response.errors.filter (fun error => !error.isWithin [.key "lenient"]) := by
  have alike : (lapsing (.done (.ok (.ofInt 7)))).Alike
      (lapsing (.done (.error { message := "gone" }))) := .of_fields rfl rfl rfl
  have agree : ∀ call : Call, call.path ≠ [.key "lenient"] →
      (lapsing (.done (.error { message := "gone" }))).settled
          (fun call => if call.path = [.key "lenient"] then .error { message := "gone" }
            else .ok (.ofInt 7)) (fun call => if call.path = [.key "lenient"] then 0 else 0) call =
        (lapsing (.done (.ok (.ofInt 7)))).settled
          (fun call => if call.path = [.key "lenient"] then .ok (.ofInt 7) else .ok (.ofInt 7))
            (fun call => if call.path = [.key "lenient"] then 0 else 0) call := by
    intro call away
    apply alike.settled_congr
    simp only [if_neg away]
  obtain ⟨data, errors, -⟩ := execute_contained alike (resolves_lapsing .done)
    (resolves_lapsing .done) agree { query := some "{lenient other: lenient}" } () () none none
    (by decide +kernel) (by decide +kernel)
  exact ⟨(data [.key "lenient"] (by decide +kernel)).1, errors⟩

end Engine

end GraphQL
