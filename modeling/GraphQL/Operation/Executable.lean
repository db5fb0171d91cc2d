import GraphQL.Document.Parser
import GraphQL.Operation.Basic
import GraphQL.Operation.Error

/-!
# Executable documents

A document of operations and fragments that has passed the checks of a request: operations,
fragments and the variables of each operation have distinct names, every spread names a fragment,
and no fragment spreads itself, directly or through others. `ExecutableDocument.operation` picks an
operation and `linkOperation` puts its fragments into it.
-/

set_option autoImplicit false

namespace GraphQL

namespace Document

mutual

/-- The names of the fragments that a selection spreads at any depth, in order. -/
def Selection.spreads : Selection → List String
  | .field _ _ _ selections => spreadsAll selections
  | .inlineFragment _ selections => spreadsAll selections
  | .fragmentSpread name => [name]

/-- The names of the fragments that a selection set spreads at any depth, in order. -/
def spreadsAll : List Selection → List String
  | [] => []
  | selection :: rest => selection.spreads ++ spreadsAll rest

end

end Document

/-- The operations and fragments of a document. -/
structure ExecutableDocument where
  operations : List OperationDefinition := []
  fragments : List FragmentDefinition := []

namespace ExecutableDocument

/-- The outcome of a check of a request. -/
abbrev Checked (α : Type) := Except RequestError α

/-- The fragment of a name. -/
def fragment? (document : ExecutableDocument) (name : String) : Option FragmentDefinition :=
  document.fragments.find? fun fragment => fragment.name == name

section Collection

/-- The variables of an operation have distinct names. -/
def checkVariables (seen : List String) : List VariableDefinition → Checked Unit
  | [] => .ok ()
  | definition :: rest =>
    if seen.contains definition.name then .error (.duplicateVariable definition.name)
    else checkVariables (definition.name :: seen) rest

/-- Adds an operation; two operations may only share the lack of a name. -/
def addOperation (document : ExecutableDocument) (operation : OperationDefinition) :
    Checked ExecutableDocument := do
  checkVariables [] operation.variableDefinitions
  match operation.name with
  | some name =>
    if document.operations.any (·.name == some name) then .error (.duplicateOperation name)
  | none => pure ()
  return { document with operations := document.operations ++ [operation] }

/-- Adds a fragment. -/
def addFragment (document : ExecutableDocument) (fragment : FragmentDefinition) :
    Checked ExecutableDocument :=
  if (document.fragment? fragment.name).isSome then .error (.duplicateFragment fragment.name)
  else .ok { document with fragments := document.fragments ++ [fragment] }

/-- Adds the definitions of a document in order. -/
def addAll (document : ExecutableDocument) : List Definition → Checked ExecutableDocument
  | [] => .ok document
  | .operation operation :: rest => do
    let document ← document.addOperation operation
    document.addAll rest
  | .fragment fragment :: rest => do
    let document ← document.addFragment fragment
    document.addAll rest
  | _ :: _ => .error .notExecutable

end Collection

section Fragments

/-- Every spread of a selection set names a fragment. -/
def checkSpreads (document : ExecutableDocument) (selections : List Document.Selection) :
    Checked Unit :=
  match (Document.spreadsAll selections).find? fun name => (document.fragment? name).isNone with
  | some name => .error (.unknownFragment name)
  | none => .ok ()

/-- How many fragments are not on a way. -/
def offWay (document : ExecutableDocument) (way : List String) : Nat :=
  document.fragments.countP fun fragment => !way.contains fragment.name

/-- A fragment that was not on a way leaves fewer fragments that are not. -/
theorem offWay_cons_lt {document : ExecutableDocument} {way : List String} {name : String}
    {fragment : FragmentDefinition} (new : ¬ way.contains name = true)
    (found : document.fragment? name = some fragment) :
    document.offWay (name :: way) < document.offWay way := by
  have member := List.mem_of_find?_eq_some found
  have same : fragment.name = name := by simpa using List.find?_some found
  have fewer : ∀ others : List FragmentDefinition,
      others.countP (fun other => !(name :: way).contains other.name) ≤
        others.countP fun other => !way.contains other.name := by
    intro others
    apply List.countP_mono_left
    intro other _ off
    simp only [Bool.not_eq_true', List.contains_eq_mem, List.mem_cons, decide_eq_false_iff_not,
      not_or] at off ⊢
    exact off.2
  obtain ⟨front, back, split⟩ := List.append_of_mem member
  have inFront := fewer front
  have inBack := fewer back
  have here : (fragment :: back).countP (fun other => !(name :: way).contains other.name) =
      back.countP fun other => !(name :: way).contains other.name :=
    List.countP_cons_of_neg (by simp [same])
  have there : (fragment :: back).countP (fun other => !way.contains other.name) =
      back.countP (fun other => !way.contains other.name) + 1 :=
    List.countP_cons_of_pos (by simpa [same] using new)
  simp only [offWay, split, List.countP_append, here, there]
  omega

/-- No way through spreads from a fragment comes back to a fragment on the way. Each step puts one
more fragment on the way, and there are only so many. -/
def checkCycle (document : ExecutableDocument) (way : List String) (name : String) :
    Checked Unit :=
  if _visited : way.contains name then .error (.fragmentCycle name)
  else
    match _found : document.fragment? name with
    | some fragment =>
      (Document.spreadsAll fragment.selections).forM (document.checkCycle (name :: way))
    | none => .ok ()
termination_by document.offWay way
decreasing_by exact offWay_cons_lt _visited _found

/-- Every spread names a fragment and no fragment spreads itself. -/
def checkFragments (document : ExecutableDocument) : Checked Unit := do
  document.operations.forM fun operation => document.checkSpreads operation.selections
  document.fragments.forM fun fragment => document.checkSpreads fragment.selections
  document.fragments.forM fun fragment => document.checkCycle [] fragment.name

end Fragments

/-- The executable document that a document is. -/
def ofDocument (document : Document) : Checked ExecutableDocument := do
  let document ← addAll {} document
  document.checkFragments
  return document

/-- The executable document of a text, which nests at most `limit` levels deep. -/
def parseWithin (limit : Nat) (text : String) : Checked ExecutableDocument :=
  match Document.parse? limit text with
  | some document => ofDocument document
  | none => .error .unreadable

section Linking

mutual

/-- A selection whose spreads carry their fragments; `body` gives the condition and the selections
of a fragment. -/
def link (body : String → String × List Selection) : Document.Selection → Selection
  | .field aliasName name arguments selections =>
    .field aliasName name arguments (linkAll body selections)
  | .inlineFragment condition selections => .inlineFragment condition (linkAll body selections)
  | .fragmentSpread name =>
    match body name with
    | (condition, selections) => .fragmentSpread name condition selections

/-- A selection set whose spreads carry their fragments. -/
def linkAll (body : String → String × List Selection) :
    List Document.Selection → List Selection
  | [] => []
  | selection :: rest => link body selection :: linkAll body rest

end

/-- The condition and the selections of a fragment, with the fragments that it spreads. Fragments
without a cycle spread each other through fewer steps than there are fragments. -/
def body (document : ExecutableDocument) : Nat → String → String × List Selection
  | 0, _ => ("", [])
  | steps + 1, name =>
    match document.fragment? name with
    | some fragment => (fragment.condition, linkAll (document.body steps) fragment.selections)
    | none => ("", [])

/-- An operation with the fragments that it spreads. -/
def linkOperation (document : ExecutableDocument) (operation : OperationDefinition) :
    Operation :=
  { kind := operation.kind
    name := operation.name
    variableDefinitions := operation.variableDefinitions
    selections := linkAll (document.body document.fragments.length) operation.selections }

end Linking

/-- The operation of a name. Without a name there has to be exactly one operation. -/
def operation (document : ExecutableDocument) : Option String → Checked OperationDefinition
  | some name =>
    match document.operations.find? fun operation => operation.name == some name with
    | some operation => .ok operation
    | none => .error (.unknownOperation name)
  | none =>
    match document.operations with
    | [operation] => .ok operation
    | [] => .error .noOperation
    | _ => .error .operationNameRequired

end ExecutableDocument

end GraphQL
