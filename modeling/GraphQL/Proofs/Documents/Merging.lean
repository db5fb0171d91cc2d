import Mathlib
import GraphQL.Proofs.Documents.Inlining
import GraphQL.Proofs.Jobs.Entries
import GraphQL.Proofs.Selections.Changes

/-!
# Operations with repeated response keys

However often a selection set names a response key, the key is executed once. In an operation
without spreads, the fields of a key may be merged in any selection set, or a copy of one of its
fields may be added: the same calls are made in the same order, with the same response
(`Engine.execute_merged`).
-/

set_option autoImplicit false

namespace GraphQL

namespace ExecutableDocument

mutual

/-- Linking a selection without spreads leaves none. -/
theorem inline_link (body : String → String × List Selection) :
    (selection : Document.Selection) → selection.spreads = [] → (link body selection).Inline
  | .field _ _ _ selections, free => by
    rw [link, Selection.Inline]
    exact inlineAll_linkAll body selections free
  | .inlineFragment _ selections, free => by
    rw [link, Selection.Inline]
    exact inlineAll_linkAll body selections free
  | .fragmentSpread _, free => nomatch free

/-- Selections without spreads have none when they are executed. -/
theorem inlineAll_linkAll (body : String → String × List Selection) :
    (selections : List Document.Selection) → Document.spreadsAll selections = [] →
      Selection.InlineAll (linkAll body selections)
  | [], _ => trivial
  | selection :: rest, free => by
    rw [Document.spreadsAll, List.append_eq_nil_iff] at free
    exact ⟨inline_link body selection free.1, inlineAll_linkAll body rest free.2⟩

end

end ExecutableDocument

/-- A change in an operation makes no difference to its job. The operation may nest less deep after
it, but how deep it nests does not matter. -/
theorem Operation.start_changed {State : Type} {perform : Call → Job State Outcome}
    {operation operation' : Operation} {schema : Schema} {rootType : ObjectType}
    (kind : operation'.kind = operation.kind)
    (declared : operation'.variableDefinitions = operation.variableDefinitions)
    (inline : Selection.InlineAll operation.selections)
    (changes : Selection.Changes schema rootType operation.selections operation.selections
      operation'.selections)
    (parallel : Bool) (values : Json.Object) :
    (operation'.plan schema parallel values rootType).start perform =
      (operation.plan schema parallel values rootType).start perform := by
  let scope : ExecutionScope :=
    { schema, parallel, vars := { definitions := operation.variableDefinitions, values } }
  let depth := max (Selection.depthAll operation.selections)
    (Selection.depthAll operation'.selections)
  have same : scope.selectionPlan depth _ operation.selections rootType =
      scope.selectionPlan depth _ operation'.selections rootType :=
    changes.selectionPlan_eq inline depth (operation.kind == .mutation || !parallel)
  unfold plan
  simp only [kind, declared]
  rw [ExecutionScope.start_selectionPlan_depth _ (Nat.le_refl _)
      (Nat.le_max_right (Selection.depthAll operation.selections) _),
    ExecutionScope.start_selectionPlan_depth _ (Nat.le_refl _)
      (Nat.le_max_left _ (Selection.depthAll operation'.selections))]
  exact congrArg (fun plan => (plan .null []).start perform) same.symm

namespace Engine

variable {State : Type}

/-- Plans with the same job run in the same way. -/
theorem run_congr {engine : Engine State} {plan plan' : Plan}
    (same : plan'.start (engine.registry.perform engine.configuration.resolverTimeout) =
      plan.start (engine.registry.perform engine.configuration.resolverTimeout))
    (state : State) (cancelAt : Option Nat) :
    engine.run plan' state cancelAt = engine.run plan state cancelAt := by
  simp only [run, same]

/-- Repeated response keys merge. In an operation without spreads one may replace, in any selection
set that is executed, all fields of a response key by the first one, with the sub-selections of all
of them in order; and one may add a copy of a field that the selection set holds, later in it or
inside inline fragments that apply. Whichever resolvers there are, however long they take and
whenever the operation is cancelled, all calls are made in the same order and end in the same way,
and the response has the same data and the same errors in the same order. -/
theorem execute_merged (engine : Engine State) {document document' : ExecutableDocument}
    {definition definition' : OperationDefinition}
    (inline : Document.spreadsAll definition.selections = [])
    (kind : definition'.kind = definition.kind)
    (declared : definition'.variableDefinitions = definition.variableDefinitions)
    {rootType : ObjectType} (root : engine.rootType? definition.kind = some rootType)
    (changes : Selection.Changes engine.schema rootType
      (document.linkOperation definition).selections (document.linkOperation definition).selections
      (document'.linkOperation definition').selections) :
    (∀ values state cancelAt,
      engine.run ((document'.linkOperation definition').plan engine.schema
          engine.configuration.parallelSiblings values rootType) state cancelAt =
        engine.run ((document.linkOperation definition).plan engine.schema
          engine.configuration.parallelSiblings values rootType) state cancelAt) ∧
      ∀ request request', engine.Asks request document definition →
        engine.Asks request' document' definition' →
        request'.variableValues = request.variableValues → ∀ state cancelAt,
          engine.execute request' state cancelAt = engine.execute request state cancelAt := by
  have written : Selection.InlineAll (document.linkOperation definition).selections :=
    ExecutableDocument.inlineAll_linkAll _ _ inline
  have run : ∀ values state cancelAt,
      engine.run ((document'.linkOperation definition').plan engine.schema
          engine.configuration.parallelSiblings values rootType) state cancelAt =
        engine.run ((document.linkOperation definition).plan engine.schema
          engine.configuration.parallelSiblings values rootType) state cancelAt := by
    intro values state cancelAt
    exact run_congr (Operation.start_changed kind declared written changes _ values) state cancelAt
  refine ⟨run, fun request request' asks asks' values state cancelAt => ?_⟩
  refine execute_congr_of_run asks asks' kind state cancelAt fun other found => ?_
  cases root.symm.trans found
  rw [values]
  exact run _ _ _

/-- An engine whose root field is an object with two fields. -/
def nested : Engine Unit where
  schema :=
    { types :=
        [.object
          { name := "Query", fields := [{ name := "node", type := .named "Node", arguments := [] }] },
          .object
          { name := "Node"
            fields := [{ name := "id", type := .builtin .int, arguments := [] },
              { name := "size", type := .builtin .int, arguments := [] }] }]
      queryRoot := "Query"
      mutationRoot := none }
  registry :=
    { bindings :=
        [{ typeName := "Query", fieldName := "node", resolver := .compute fun _ => .ok (.object []) },
          { typeName := "Node", fieldName := "id", resolver := .compute fun _ => .ok (.ofInt 1) },
          { typeName := "Node", fieldName := "size", resolver := .compute fun _ => .ok (.ofInt 2) }] }

/-- A field that is selected twice, the second time in a fragment, is called once, with the fields
that are selected below it either time. One of these may be selected again. -/
theorem execute_merged_nested :
    let request : Request := { query := some "{node {id} ... on Query {node {size}}}" }
    let merged : Request := { query := some "{node {id size}}" }
    let copied : Request := { query := some "{node {id size ... on Node {id}}}" }
    nested.execute merged () none = nested.execute request () none ∧
      nested.execute copied () none = nested.execute merged () none ∧
      (nested.execute merged () none).world.calls.length = 3 := by
  intro request merged copied
  have calls : (nested.execute merged () none).world.calls.length = 3 := by decide +kernel
  have parsed : ExecutableDocument.parseWithin nested.configuration.recursionLimit
      "{node {id} ... on Query {node {size}}}" =
        .ok ⟨[⟨.query, none, [], [.field none "node" [] [.field none "id" [] []],
          .inlineFragment (some "Query") [.field none "node" [] [.field none "size" [] []]]]⟩],
          []⟩ := by
    cbv
  have parsedMerged : ExecutableDocument.parseWithin nested.configuration.recursionLimit
      "{node {id size}}" =
        .ok ⟨[⟨.query, none, [], [.field none "node" []
          [.field none "id" [] [], .field none "size" [] []]]⟩], []⟩ := by
    cbv
  have parsedCopied : ExecutableDocument.parseWithin nested.configuration.recursionLimit
      "{node {id size ... on Node {id}}}" =
        .ok ⟨[⟨.query, none, [], [.field none "node" []
          [.field none "id" [] [], .field none "size" [] [],
            .inlineFragment (some "Node") [.field none "id" [] []]]]⟩], []⟩ := by
    cbv
  have asks : nested.Asks request _ _ := ⟨_, rfl, parsed, rfl⟩
  have asksMerged : nested.Asks merged _ _ := ⟨_, rfl, parsedMerged, rfl⟩
  have asksCopied : nested.Asks copied _ _ := ⟨_, rfl, parsedCopied, rfl⟩
  have root : nested.rootType? .query = some _ := rfl
  refine ⟨?_, ?_, calls⟩
  · refine (execute_merged nested ?_ ?_ ?_ root ?_).2 request merged asks asksMerged rfl () none
    · rfl
    · rfl
    · rfl
    · exact .merge "node"
  · refine (execute_merged nested ?_ ?_ ?_ root ?_).2 merged copied asksMerged asksCopied rfl () none
    · rfl
    · rfl
    · rfl
    · exact .field [] [] List.mem_cons_self rfl rfl rfl
        (.copy (.later (.later (.copy List.mem_cons_self ⟨trivial, trivial⟩ rfl))))

end Engine

end GraphQL
