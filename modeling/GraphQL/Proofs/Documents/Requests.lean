import GraphQL.Proofs.Documents.Spreads
import GraphQL.Schema.Build

/-!
# Well-formed request documents

What a document must be to be accepted as a request: operations and fragments only, with distinct
names and distinct variables, every spread naming a fragment, and no fragment reaching itself. The
main statement says that exactly such documents are accepted, that a reported cycle is one, and
that the search for cycles comes to an end on every document.
-/

set_option autoImplicit false

namespace GraphQL

open Relation (ReflTransGen TransGen)

/-- Operations and fragments may stand in a request. -/
inductive Definition.IsExecutable : Definition → Prop
  | operation (operation : OperationDefinition) : IsExecutable (.operation operation)
  | fragment (fragment : FragmentDefinition) : IsExecutable (.fragment fragment)

namespace Document

variable {document rest : Document}

/-- The operations of a document in order. -/
def operations (document : Document) : List OperationDefinition :=
  document.filterMap fun
    | .operation operation => some operation
    | _ => none

/-- The fragments of a document in order. -/
def fragments (document : Document) : List FragmentDefinition :=
  document.filterMap fun
    | .fragment fragment => some fragment
    | _ => none

/-- An empty document has no operation. -/
@[simp] theorem operations_nil : operations [] = [] := rfl

/-- An empty document has no fragment. -/
@[simp] theorem fragments_nil : fragments [] = [] := rfl

/-- An operation is among the operations of a document. -/
@[simp] theorem operations_operation (operation : OperationDefinition) :
    operations (.operation operation :: rest) = operation :: operations rest := rfl

/-- An operation is not among the fragments of a document. -/
@[simp] theorem fragments_operation (operation : OperationDefinition) :
    fragments (.operation operation :: rest) = fragments rest := rfl

/-- A fragment is not among the operations of a document. -/
@[simp] theorem operations_fragment (fragment : FragmentDefinition) :
    operations (.fragment fragment :: rest) = operations rest := rfl

/-- A fragment is among the fragments of a document. -/
@[simp] theorem fragments_fragment (fragment : FragmentDefinition) :
    fragments (.fragment fragment :: rest) = fragment :: fragments rest := rfl

/-- What a document must be to be accepted as a request. -/
structure WellFormedRequest (document : Document) : Prop where
  executable : ∀ definition ∈ document, definition.IsExecutable
  operationNames : (document.operations.filterMap (·.name)).Nodup
  fragmentNames : (document.fragments.map (·.name)).Nodup
  variableNames : ∀ operation ∈ document.operations,
    (operation.variableDefinitions.map (·.name)).Nodup
  spreadsOfOperations : ∀ operation ∈ document.operations, ∀ name,
    SpreadsIn name operation.selections → ∃ fragment ∈ document.fragments, fragment.name = name
  spreadsOfFragments : ∀ outer ∈ document.fragments, ∀ name,
    SpreadsIn name outer.selections → ∃ fragment ∈ document.fragments, fragment.name = name
  acyclic : ∀ name, ¬ FragmentDefinition.OnCycle document.fragments name

end Document

namespace ExecutableDocument

variable {document result : ExecutableDocument}

/-- The operations that have a name have distinct ones, and so have the fragments. -/
structure DistinctNames (document : ExecutableDocument) : Prop where
  operations : (document.operations.filterMap (·.name)).Nodup
  fragments : (document.fragments.map (·.name)).Nodup

/-- Names that stay distinct when more is added are so before. -/
theorem DistinctNames.of_append {operations : List OperationDefinition}
    {fragments : List FragmentDefinition}
    (distinct : DistinctNames { operations := document.operations ++ operations
                                fragments := document.fragments ++ fragments }) :
    document.DistinctNames := by
  obtain ⟨ofOperations, ofFragments⟩ := distinct
  rw [List.filterMap_append] at ofOperations
  rw [List.map_append] at ofFragments
  exact ⟨ofOperations.of_append_left, ofFragments.of_append_left⟩

section Collection

/-- The check of the variables looks for the first name that is declared again. -/
theorem checkVariables_eq (seen : List String) (definitions : List VariableDefinition) :
    checkVariables seen definitions =
      match Schema.firstRepeated seen (definitions.map (·.name)) with
      | some name => .error (.duplicateVariable name)
      | none => .ok () := by
  induction definitions generalizing seen with
  | nil => rfl
  | cons first rest ih =>
    rw [checkVariables, List.map_cons, Schema.firstRepeated]
    split
    · rfl
    · exact ih (first.name :: seen)

/-- The check of the variables succeeds if and only if no two have the same name. -/
theorem checkVariables_eq_ok_iff {definitions : List VariableDefinition} :
    checkVariables [] definitions = .ok () ↔ (definitions.map (·.name)).Nodup := by
  rw [checkVariables_eq, ← Schema.firstRepeated_nil_eq_none_iff]
  split
  · next name repeated => simp [repeated]
  · next distinct => exact iff_of_true rfl distinct

/-- An operation is added if its variables are distinct and the names remain so. -/
theorem addOperation_eq_ok_iff (distinct : document.DistinctNames)
    {operation : OperationDefinition} :
    document.addOperation operation = .ok result ↔
      (operation.variableDefinitions.map (·.name)).Nodup ∧ result.DistinctNames ∧
        result = { document with operations := document.operations ++ [operation] } := by
  rw [addOperation, Checks.then_eq_ok, checkVariables_eq_ok_iff, and_congr_right_iff]
  intro _
  cases named : operation.name with
  | none =>
    have same : { document with operations := document.operations ++ [operation] : ExecutableDocument
        }.DistinctNames := ⟨by simpa [named] using distinct.operations, distinct.fragments⟩
    constructor
    · rintro ⟨⟩
      exact ⟨same, rfl⟩
    · rintro ⟨-, rfl⟩
      rfl
  | some name =>
    have taken : document.operations.any (·.name == some name) = true ↔
        name ∈ document.operations.filterMap (·.name) := by
      simp [List.any_eq_true, List.mem_filterMap]
    have names : (document.operations ++ [operation]).filterMap (·.name) =
        document.operations.filterMap (·.name) ++ [name] := by simp [named]
    simp only [bind, Except.bind, pure, Except.pure]
    split
    · next repeated =>
      rw [taken] at repeated
      constructor
      · rintro ⟨⟩
      · rintro ⟨still, rfl⟩
        have nodup := still.operations
        rw [names, List.nodup_append] at nodup
        exact absurd rfl (nodup.2.2 name repeated name (List.mem_singleton_self name))
    · next new =>
      rw [taken] at new
      constructor
      · rintro ⟨⟩
        refine ⟨⟨?_, distinct.fragments⟩, rfl⟩
        rw [names, ← List.concat_eq_append]
        exact distinct.operations.concat new
      · rintro ⟨-, rfl⟩
        rfl

/-- A fragment is added if the names remain distinct. -/
theorem addFragment_eq_ok_iff (distinct : document.DistinctNames)
    {fragment : FragmentDefinition} :
    document.addFragment fragment = .ok result ↔
      result.DistinctNames ∧
        result = { document with fragments := document.fragments ++ [fragment] } := by
  have taken : (document.fragment? fragment.name).isSome = true ↔
      fragment.name ∈ document.fragments.map (·.name) := by
    rw [isSome_fragment?_iff, List.mem_map]
  rw [addFragment]
  split
  · next repeated =>
    rw [taken] at repeated
    constructor
    · rintro ⟨⟩
    · rintro ⟨still, rfl⟩
      have nodup := still.fragments
      rw [List.map_append, List.nodup_append] at nodup
      exact absurd rfl (nodup.2.2 _ repeated _ (List.mem_singleton_self _))
  · next new =>
    rw [taken] at new
    constructor
    · rintro ⟨⟩
      refine ⟨⟨distinct.operations, ?_⟩, rfl⟩
      rw [List.map_append, List.map_singleton, ← List.concat_eq_append]
      exact distinct.fragments.concat new
    · rintro ⟨-, rfl⟩
      rfl

/-- The definitions that may stand in a request are added if the names remain distinct. -/
theorem addAll_eq_ok_iff (distinct : document.DistinctNames) (definitions : Document) :
    document.addAll definitions = .ok result ↔
      (∀ definition ∈ definitions, definition.IsExecutable) ∧
      (∀ operation ∈ definitions.operations,
        (operation.variableDefinitions.map (·.name)).Nodup) ∧
      result.DistinctNames ∧
      result = { operations := document.operations ++ definitions.operations,
                 fragments := document.fragments ++ definitions.fragments } := by
  induction definitions generalizing document with
  | nil =>
    simp only [addAll, Except.ok.injEq, Document.operations_nil, Document.fragments_nil,
      List.append_nil]
    constructor
    · rintro rfl
      exact ⟨by simp, by simp, distinct, rfl⟩
    · rintro ⟨-, -, -, rfl⟩
      rfl
  | cons definition rest ih =>
    cases definition with
    | operation operation =>
      rw [addAll, Checks.bind_eq_ok]
      constructor
      · rintro ⟨added, first, others⟩
        obtain ⟨uniqueVariables, stillDistinct, rfl⟩ := (addOperation_eq_ok_iff distinct).1 first
        obtain ⟨executable, variablesOfRest, final, rfl⟩ := (ih stillDistinct).1 others
        refine ⟨List.forall_mem_cons.2 ⟨.operation operation, executable⟩,
          List.forall_mem_cons.2 ⟨uniqueVariables, variablesOfRest⟩, final, ?_⟩
        simp
      · rintro ⟨executable, uniqueVariables, final, rfl⟩
        rw [List.forall_mem_cons] at executable
        rw [Document.operations_operation, List.forall_mem_cons] at uniqueVariables
        -- names that are distinct in the end were distinct when this one was added
        have stillDistinct : DistinctNames
            { document with operations := document.operations ++ [operation] } := by
          rw [Document.operations_operation, Document.fragments_operation, List.append_cons] at final
          exact final.of_append
        refine ⟨_, (addOperation_eq_ok_iff distinct).2 ⟨uniqueVariables.1, stillDistinct, rfl⟩,
          (ih stillDistinct).2 ⟨executable.2, uniqueVariables.2, final, ?_⟩⟩
        simp
    | fragment fragment =>
      rw [addAll, Checks.bind_eq_ok]
      constructor
      · rintro ⟨added, first, others⟩
        obtain ⟨stillDistinct, rfl⟩ := (addFragment_eq_ok_iff distinct).1 first
        obtain ⟨executable, variablesOfRest, final, rfl⟩ := (ih stillDistinct).1 others
        refine ⟨List.forall_mem_cons.2 ⟨.fragment fragment, executable⟩, variablesOfRest, final, ?_⟩
        simp
      · rintro ⟨executable, uniqueVariables, final, rfl⟩
        rw [List.forall_mem_cons] at executable
        have stillDistinct : DistinctNames
            { document with fragments := document.fragments ++ [fragment] } := by
          rw [Document.operations_fragment, Document.fragments_fragment, List.append_cons _ fragment]
            at final
          exact final.of_append
        refine ⟨_, (addFragment_eq_ok_iff distinct).2 ⟨stillDistinct, rfl⟩,
          (ih stillDistinct).2 ⟨executable.2, uniqueVariables, final, ?_⟩⟩
        simp
    | _ =>
      constructor
      · rintro ⟨⟩
      · rintro ⟨executable, -⟩
        cases executable _ List.mem_cons_self

end Collection

section Fragments

/-- The spreads of a selection set pass if each names a fragment. -/
theorem checkSpreads_eq_ok_iff {selections : List Document.Selection} :
    document.checkSpreads selections = .ok () ↔ ∀ name, Document.SpreadsIn name selections →
      ∃ fragment ∈ document.fragments, fragment.name = name := by
  rw [checkSpreads]
  split
  · next name unknown =>
    have spread := (Document.mem_spreadsAll_iff _ _).1 (List.mem_of_find?_eq_some unknown)
    have missing := List.find?_some unknown
    constructor
    · rintro ⟨⟩
    · intro all
      have found := isSome_fragment?_iff.2 (all name spread)
      rw [Option.isNone_iff_eq_none.1 missing] at found
      cases found
  · next known =>
    refine iff_of_true rfl fun name spread => isSome_fragment?_iff.1 ?_
    have found := List.find?_eq_none.1 known name ((Document.mem_spreadsAll_iff _ _).2 spread)
    simpa [Option.isSome_iff_ne_none] using found

/-- The check of the fragments succeeds if and only if those that are spread are defined and none is
spread inside itself. -/
theorem checkFragments_eq_ok_iff (distinct : document.DistinctNames) :
    document.checkFragments = .ok () ↔
      (∀ operation ∈ document.operations, ∀ name, Document.SpreadsIn name operation.selections →
        ∃ fragment ∈ document.fragments, fragment.name = name) ∧
      (∀ outer ∈ document.fragments, ∀ name, Document.SpreadsIn name outer.selections →
        ∃ fragment ∈ document.fragments, fragment.name = name) ∧
      ∀ name, ¬ FragmentDefinition.OnCycle document.fragments name := by
  rw [checkFragments, Checks.then_eq_ok, Checks.then_eq_ok, Checks.forM_eq_ok, Checks.forM_eq_ok,
    forM_checkCycle_eq_ok_iff distinct.fragments]
  simp only [checkSpreads_eq_ok_iff]

end Fragments

/-- Where nothing is defined no name is used twice. -/
theorem distinctNames_empty : DistinctNames {} := ⟨List.nodup_nil, List.nodup_nil⟩

/-- The checks of a whole document succeed if and only if it is well-formed, and the result holds
its operations and fragments. -/
theorem ofDocument_eq_ok_iff {source : Document} :
    ofDocument source = .ok result ↔ source.WellFormedRequest ∧
      result = { operations := source.operations, fragments := source.fragments } := by
  simp only [ofDocument, Checks.bind_eq_ok, addAll_eq_ok_iff distinctNames_empty, List.nil_append]
  constructor
  · rintro ⟨document, ⟨executable, uniqueVariables, distinct, rfl⟩, ⟨⟩, checked, done⟩
    cases done
    obtain ⟨ofOperations, ofFragments, acyclic⟩ := (checkFragments_eq_ok_iff distinct).1 checked
    exact ⟨⟨executable, distinct.operations, distinct.fragments, uniqueVariables, ofOperations,
      ofFragments, acyclic⟩, rfl⟩
  · rintro ⟨wellFormed, rfl⟩
    have distinct : DistinctNames { operations := source.operations, fragments := source.fragments } :=
      ⟨wellFormed.operationNames, wellFormed.fragmentNames⟩
    refine ⟨_, ⟨wellFormed.executable, wellFormed.variableNames, distinct, rfl⟩, (), ?_, rfl⟩
    exact (checkFragments_eq_ok_iff distinct).2
      ⟨wellFormed.spreadsOfOperations, wellFormed.spreadsOfFragments, wellFormed.acyclic⟩

section Reports

/-- What the checks of a document may report. A cycle is reported of a fragment that lies on one. -/
def Reports (fragments : List FragmentDefinition) : RequestError → Prop
  | .fragmentCycle name => FragmentDefinition.OnCycle fragments name
  | .parsing _ | .duplicateOperation _ | .duplicateFragment _ | .unknownFragment _
  | .duplicateVariable _ => True
  | _ => False

variable {fragments : List FragmentDefinition}

/-- Adding an operation reports nothing but what the checks of a document may report. -/
theorem reports_addOperation (operation : OperationDefinition) :
    Checks.FailsOnly (Reports fragments) (document.addOperation operation) := by
  rw [addOperation, checkVariables_eq]
  refine Checks.FailsOnly.bind ?_ fun _ => ?_
  · split
    · exact Checks.failsOnly_error trivial
    · exact Checks.failsOnly_ok
  · split
    · split
      · exact (Checks.failsOnly_error trivial).bind fun _ => Checks.failsOnly_ok
      · exact Checks.failsOnly_ok
    · exact Checks.failsOnly_ok

/-- Adding definitions reports nothing but what the checks of a document may report. -/
theorem reports_addAll (definitions : Document) :
    Checks.FailsOnly (Reports fragments) (document.addAll definitions) := by
  fun_induction addAll document definitions with
  | case1 document => exact Checks.failsOnly_ok
  | case2 document operation rest ih => exact (reports_addOperation operation).bind ih
  | case3 document fragment rest ih =>
    refine Checks.FailsOnly.bind ?_ ih
    rw [addFragment]
    split
    · exact Checks.failsOnly_error trivial
    · exact Checks.failsOnly_ok
  | case4 => exact Checks.failsOnly_error trivial

/-- The check of spreads reports nothing but what the checks of a document may report. -/
theorem reports_checkSpreads (selections : List Document.Selection) :
    Checks.FailsOnly (Reports fragments) (document.checkSpreads selections) := by
  rw [checkSpreads]
  split
  · exact Checks.failsOnly_error trivial
  · exact Checks.failsOnly_ok

/-- The check of the fragments reports a cycle only of a fragment that lies on one. -/
theorem reports_checkFragments :
    Checks.FailsOnly (Reports document.fragments) document.checkFragments := by
  rw [checkFragments]
  refine (Checks.failsOnly_forM fun operation _ => reports_checkSpreads _).bind fun _ => ?_
  refine (Checks.failsOnly_forM fun fragment _ => reports_checkSpreads _).bind fun _ => ?_
  refine Checks.failsOnly_forM fun fragment _ cause failed => ?_
  obtain ⟨culprit, rfl, cycle⟩ := onCycle_of_checkCycle (by simp) failed
  exact cycle

/-- A document is refused for nothing but what its checks may report. -/
theorem reports_ofDocument (source : Document) :
    Checks.FailsOnly (Reports source.fragments) (ofDocument source) := by
  intro cause failed
  rw [ofDocument, Checks.bind_eq_error] at failed
  rcases failed with collecting | ⟨document, collected, failed⟩
  · exact reports_addAll source cause collecting
  obtain ⟨-, -, -, rfl⟩ := (addAll_eq_ok_iff distinctNames_empty source).1 collected
  exact (reports_checkFragments.bind fun _ => Checks.failsOnly_ok) cause failed

end Reports

/-- A text is accepted as a request if and only if it is a well-formed document. A fragment that is
reported to spread itself does, and no search for one goes on for ever. -/
theorem parseWithin_accepts_wellFormed (limit : Nat) (text : String) :
    (∀ executable, parseWithin limit text = .ok executable ↔
      ∃ source, Document.parse? limit text = some source ∧ source.WellFormedRequest ∧
        executable = { operations := source.operations, fragments := source.fragments }) ∧
    (∀ name, parseWithin limit text = .error (.fragmentCycle name) →
      ∃ source, Document.parse? limit text = some source ∧
        FragmentDefinition.OnCycle source.fragments name) ∧
    ∀ document : ExecutableDocument,
      (WellFounded fun later earlier => document.Enters earlier later) ∧
      ∀ way name, document.checkCycle way name = .ok () ↔
        ∀ place, ReflTransGen document.Enters (way, name) place → place.2 ∉ place.1 := by
  refine ⟨fun executable => ?_, fun name h => ?_, fun document =>
    ⟨wellFounded_enters document, fun _ _ => checkCycle_eq_ok_iff⟩⟩
  · rw [parseWithin]
    cases read : Document.parse? limit text with
    | none => simp
    | some source => simp [ofDocument_eq_ok_iff]
  · rw [parseWithin] at h
    cases read : Document.parse? limit text with
    | none =>
      rw [read] at h
      cases h
    | some source =>
      rw [read] at h
      exact ⟨source, rfl, reports_ofDocument source _ h⟩

end ExecutableDocument

end GraphQL
