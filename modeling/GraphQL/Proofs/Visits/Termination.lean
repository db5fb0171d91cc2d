import GraphQL.Proofs.Documents.Expansion
import GraphQL.Proofs.Visits.Runs
import Mathlib.Data.Set.Card

/-!
# Termination of execution

The operation that is executed is that of the document with every fragment expanded, and nests its
fields finitely deep. Executing it visits finitely many places, none of which lies under more fields
than that, makes no more calls than it visits places, and every call that is started ends: whatever
types refer to themselves and whatever the resolvers return.
-/

set_option autoImplicit false

namespace GraphQL

namespace Engine

variable {State : Type}

/-- No more calls are made than places are visited, since no place makes two. -/
theorem length_calls_le (engine : Engine State) {request : Request} (state : State)
    (cancelAt : Option Nat) {operation : Operation} {rootType : ObjectType}
    (selected : engine.select request = .ok (operation, rootType)) :
    let world := (engine.execute request state cancelAt).world
    world.calls.length ≤
      {visit | (engine.marking request operation world).Visits operation rootType visit}.ncard := by
  intro world
  obtain ⟨answers, perm, paths, -, made⟩ := engine.execute_answers state cancelAt selected
  let m := engine.marking request operation world
  have distinct : (answers.map (·.call)).Nodup := by
    have calls : (answers.map fun answer => answer.call.path) =
        (answers.map (·.call)).map Call.path := by
      rw [List.map_map]
      rfl
    rw [calls] at paths
    exact paths.of_map
  have : Nonempty Visit := ⟨.object operation.selections rootType .null []⟩
  choose! place visited makes using fun call (member : call ∈ answers.map (·.call)) =>
    (made call).1 member
  have places : (answers.map (·.call)).toFinset.card ≤
      {visit | m.Visits operation rootType visit}.ncard := by
    rw [← Set.ncard_coe_finset]
    refine Set.ncard_le_ncard_of_injOn place ?_ ?_ (m.finite_reaches _)
    · intro call member
      exact visited call (by simpa using member)
    · intro call member other member' same
      have own := makes call (by simpa using member)
      have others := makes other (by simpa using member')
      rw [← same] at others
      exact own.unique others
  calc world.calls.length = ((answers.filter (·.made)).map (·.call)).length :=
        (World.calls_perm perm).length_eq
    _ ≤ (answers.map (·.call)).length := by
        rw [List.length_map, List.length_map]
        exact List.length_filter_le _ _
    _ = (answers.map (·.call)).toFinset.card := (List.toFinset_card_of_nodup distinct).symm
    _ ≤ _ := places

/-- Whatever the engine and the resolvers are, an operation of an accepted document is executed with
its fragments expanded, visits finitely many places, each under no more fields than the operation
nests, makes no more calls than that and ends each of them. -/
theorem execute_terminates (engine : Engine State) {request : Request} (state : State)
    (cancelAt : Option Nat) {operation : Operation} {rootType : ObjectType}
    (selected : engine.select request = .ok (operation, rootType)) :
    let execution := engine.execute request state cancelAt
    let m := engine.marking request operation execution.world
    let visits := {visit | m.Visits operation rootType visit}
    let nesting := Selection.depthAll operation.selections
    (∃ text document definition, request.query = some text ∧
      ExecutableDocument.parseWithin engine.configuration.recursionLimit text = .ok document ∧
      definition ∈ document.operations ∧
      ∀ expanded, document.ExpandsAll definition.selections expanded ↔
        expanded = operation.selections) ∧
    (WellFounded fun later earlier => m.Leads earlier later) ∧
    visits.Finite ∧ (∀ visit ∈ visits, visit.path.fieldDepth ≤ nesting) ∧
    execution.world.calls.length ≤ visits.ncard ∧
    (∀ call ∈ execution.world.calls, (∃ visit ∈ visits, m.Makes visit call) ∧
      call.path.fieldDepth ≤ nesting ∧
      ∃ outcome, .ended call outcome ∈ execution.world.history) ∧
    ∀ error ∈ execution.response.errors, ∀ path, error.path = some path →
      path.fieldDepth ≤ nesting := by
  intro execution m visits nesting
  refine ⟨?_, m.wellFounded_leads, m.finite_reaches _, fun visit => Marking.Visits.fieldDepth_le,
    engine.length_calls_le state cancelAt selected, ?_, ?_⟩
  · obtain ⟨document, definition, ⟨text, query, parsed, chosen⟩, -, -, rfl⟩ :=
      select_eq_ok_iff.1 selected
    have member := ExecutableDocument.mem_operations_of_operation chosen
    refine ⟨text, document, definition, query, parsed, member, fun expanded => ?_⟩
    rw [ExecutableDocument.parseWithin] at parsed
    split at parsed
    · exact ExecutableDocument.expandsAll_iff parsed member expanded
    · cases parsed
  · intro call member
    obtain ⟨answers, perm, -, -, made⟩ := engine.execute_answers state cancelAt selected
    obtain ⟨answer, hanswer, rfl⟩ := List.mem_map.1 ((World.calls_perm perm).mem_iff.1 member)
    have answered := (List.mem_filter.1 hanswer).1
    obtain ⟨visit, visited, makes⟩ := (made answer.call).1 (List.mem_map_of_mem answered)
    refine ⟨⟨visit, visited, makes⟩, ?_, answer.outcome, ?_⟩
    · rw [makes.path]
      exact visited.fieldDepth_le
    · rw [perm.mem_iff, List.mem_flatMap]
      exact ⟨answer, answered, by simp [Answer.events]⟩
  · intro error member path located
    -- an error with a path is that of a visit, and has the path of the visit
    rcases engine.exists_fault_of_mem_errors state cancelAt selected member with
      rfl | ⟨visit, fault, visited, -, rfl⟩
    · cases located
    · have same : (fault.report visit.path).path = some visit.path := by
        cases fault <;> rfl
      rw [same] at located
      cases located
      exact visited.fieldDepth_le

/-- An engine whose one object type refers to itself, and whose resolver always has another
object. -/
def looping : Engine Unit where
  schema :=
    { types := [.object
        { name := "Query"
          fields := [{ name := "again", type := .named "Query", arguments := [] },
            { name := "done", type := .builtin .boolean, arguments := [] }] }]
      queryRoot := "Query"
      mutationRoot := none }
  registry :=
    { bindings :=
        [{ typeName := "Query", fieldName := "again", resolver := .compute fun _ => .ok (.object []) },
          { typeName := "Query", fieldName := "done",
            resolver := .compute fun _ => .ok (.bool true) }] }

/-- An operation whose fragments spread each other goes three fields deep, and no further. -/
theorem execute_terminates_looping :
    let request : Request :=
      { query := some "{...A} fragment A on Query {again{...B}} fragment B on Query {again{done}}" }
    ∃ operation rootType, looping.select request = .ok (operation, rootType) ∧
      let m := looping.marking request operation (looping.execute request () none).world
      let visits := {visit | m.Visits operation rootType visit}
      visits.Finite ∧ 3 ≤ visits.ncard := by
  intro request
  have calls : (looping.execute request () none).world.calls.length = 3 := by decide +kernel
  obtain ⟨operation, rootType, selected⟩ :
      ∃ operation rootType, looping.select request = .ok (operation, rootType) :=
    exists_selected (by decide +kernel)
  obtain ⟨-, -, finite, -, bound, -⟩ := looping.execute_terminates () none selected
  rw [calls] at bound
  exact ⟨operation, rootType, selected, finite, bound⟩

end Engine

end GraphQL
