import Mathlib
import GraphQL.Proofs.Documents.Inlining
import GraphQL.Proofs.Jobs.Renamed

/-!
# Operations with other aliases

Aliases only rename. An operation with other aliases, in it and in the fragments that it spreads,
has the same calls and the same response up to response keys, wherever different keys stay different
and the resolvers do not look at the response path (`Engine.execute_renamed`).
-/

set_option autoImplicit false

namespace GraphQL

namespace Document.Selection

mutual

/-- Selections, as they are written, that differ in aliases alone. -/
inductive Realiased : Selection → Selection → Prop
  | field {aliasName aliasName' : Option String} {name : String}
    {arguments : List (String × Literal)} {selections renamed : List Selection}
    (h : RealiasedAll selections renamed) :
    Realiased (.field aliasName name arguments selections)
      (.field aliasName' name arguments renamed)
  | inlineFragment {condition : Option String} {selections renamed : List Selection}
    (h : RealiasedAll selections renamed) :
    Realiased (.inlineFragment condition selections) (.inlineFragment condition renamed)
  | fragmentSpread (name : String) : Realiased (.fragmentSpread name) (.fragmentSpread name)

/-- Selection sets, as they are written, that differ in aliases alone. -/
inductive RealiasedAll : List Selection → List Selection → Prop
  | nil : RealiasedAll [] []
  | cons {selection selection' : Selection} {rest rest' : List Selection}
    (first : Realiased selection selection') (later : RealiasedAll rest rest') :
    RealiasedAll (selection :: rest) (selection' :: rest')

end

end Document.Selection

/-- Fragments that differ in aliases alone. -/
structure FragmentDefinition.Realiased (fragment fragment' : FragmentDefinition) : Prop where
  name : fragment'.name = fragment.name
  condition : fragment'.condition = fragment.condition
  selections : Document.Selection.RealiasedAll fragment.selections fragment'.selections

/-- Operations that differ in aliases alone. -/
structure OperationDefinition.Realiased (definition definition' : OperationDefinition) : Prop where
  kind : definition'.kind = definition.kind
  variableDefinitions : definition'.variableDefinitions = definition.variableDefinitions
  selections : Document.Selection.RealiasedAll definition.selections definition'.selections

namespace ExecutableDocument

mutual

/-- Linking with bodies that differ in aliases alone keeps selections alike but for aliases. -/
theorem realiased_link {body body' : String → String × List Selection}
    (condition : ∀ name, (body' name).1 = (body name).1)
    (spread : ∀ name, Selection.RealiasedAll (body name).2 (body' name).2)
    {selection selection' : Document.Selection} :
    selection.Realiased selection' → (link body selection).Realiased (link body' selection')
  | .field h => by
    rw [link, link]
    exact .field (realiasedAll_linkAll condition spread h)
  | .inlineFragment h => by
    rw [link, link]
    exact .inlineFragment (realiasedAll_linkAll condition spread h)
  | .fragmentSpread name => by
    have own := condition name
    have inside := spread name
    rw [link, link]
    revert own inside
    generalize body name = carried, body' name = carried'
    intro own inside
    obtain ⟨condition, selections⟩ := carried
    obtain ⟨condition', selections'⟩ := carried'
    cases own
    exact .fragmentSpread inside

/-- Selections that differ in aliases alone, with fragments that do, differ in aliases alone. -/
theorem realiasedAll_linkAll {body body' : String → String × List Selection}
    (condition : ∀ name, (body' name).1 = (body name).1)
    (spread : ∀ name, Selection.RealiasedAll (body name).2 (body' name).2)
    {selections renamed : List Document.Selection} :
    Document.Selection.RealiasedAll selections renamed →
      Selection.RealiasedAll (linkAll body selections) (linkAll body' renamed)
  | .nil => .nil
  | .cons first later =>
    .cons (realiased_link condition spread first) (realiasedAll_linkAll condition spread later)

end

variable {document document' : ExecutableDocument}

/-- Names are looked up alike among fragments that differ in aliases alone. -/
theorem realiased_fragment?
    (fragments : List.Forall₂ FragmentDefinition.Realiased document.fragments document'.fragments)
    (name : String) :
    Option.Rel FragmentDefinition.Realiased (document.fragment? name)
      (document'.fragment? name) := by
  unfold fragment?
  revert fragments
  generalize document.fragments = all, document'.fragments = all'
  intro fragments
  induction fragments with
  | nil => exact .none
  | cons first later ih =>
    rw [List.find?_cons, List.find?_cons, first.name]
    split
    · exact .some first
    · exact ih

/-- What fragments carry differs in aliases alone if the fragments do. -/
theorem realiased_body
    (fragments : List.Forall₂ FragmentDefinition.Realiased document.fragments document'.fragments)
    (steps : Nat) (name : String) :
    (document'.body steps name).1 = (document.body steps name).1 ∧
      Selection.RealiasedAll (document.body steps name).2 (document'.body steps name).2 := by
  induction steps generalizing name with
  | zero => exact ⟨rfl, .nil⟩
  | succ steps ih =>
    rw [body, body]
    have related := realiased_fragment? fragments name
    revert related
    generalize document.fragment? name = fragment, document'.fragment? name = fragment'
    rintro (same | _)
    · exact ⟨same.condition, realiasedAll_linkAll (fun name => (ih name).1)
        (fun name => (ih name).2) same.selections⟩
    · exact ⟨rfl, .nil⟩

/-- With the fragments put into them, operations still differ in aliases alone. -/
theorem realiasedAll_linkOperation
    (fragments : List.Forall₂ FragmentDefinition.Realiased document.fragments document'.fragments)
    {definition definition' : OperationDefinition} (aliases : definition.Realiased definition') :
    Selection.RealiasedAll (document.linkOperation definition).selections
      (document'.linkOperation definition').selections := by
  rw [linkOperation, linkOperation, ← fragments.length_eq]
  exact realiasedAll_linkAll (fun name => (realiased_body fragments _ name).1)
    (fun name => (realiased_body fragments _ name).2) aliases.selections

end ExecutableDocument

namespace Engine

variable {State : Type}

/-- The run of an operation with other aliases: the same happens, with renamed keys. -/
theorem run_renamed (engine : Engine State) (ignores : engine.registry.IgnoresPaths)
    {operation operation' : Operation} (kind : operation'.kind = operation.kind)
    (declared : operation'.variableDefinitions = operation.variableDefinitions)
    (aliases : Selection.RealiasedAll operation.selections operation'.selections)
    {rootType : ObjectType} {root : Renaming}
    (renames : Selection.Renames engine.schema root rootType operation.selections
      operation'.selections)
    (parallel : Bool) (values : Json.Object) (state : State) (cancelAt : Option Nat) :
    let run := engine.run (operation.plan engine.schema parallel values rootType) state cancelAt
    engine.run (operation'.plan engine.schema parallel values rootType) state cancelAt =
      (root.world run.1, root.completion root run.2) := by
  let scope : ExecutionScope :=
    { schema := engine.schema, parallel
      vars := { definitions := operation.variableDefinitions, values } }
  have calls := ignores.seen_perform engine.configuration.resolverTimeout root
  have mirrors := scope.mirrors_selectionPlan calls aliases renames
    (Selection.depthAll operation.selections) (operation.kind == .mutation || !parallel) .null
    root.leads_nil
  have finished := mirrors.finish { state, cancelled := cancelAt == some 0 } cancelAt
  have clock : cancelAt.map (root.view : World.View State State).clock = cancelAt :=
    congrFun Option.map_id cancelAt
  rw [clock] at finished
  unfold Operation.plan run
  rw [kind, declared, aliases.depthAll_eq]
  exact finished

/-- Aliases only rename. Let the resolvers of an engine not look at the response path. In an
operation of a document and in the fragments that it spreads, aliases may be added, changed or left
out, as long as in each merged selection set that is executed equal response keys become equal ones
and different keys different ones. Then the operation that results, however long its resolvers take
and whenever it is cancelled, has the same response, with the keys of the data and those in the
paths of errors renamed, and the same happens to the same calls up to their paths. -/
theorem execute_renamed (engine : Engine State) (ignores : engine.registry.IgnoresPaths)
    {document document' : ExecutableDocument} {definition definition' : OperationDefinition}
    (fragments : List.Forall₂ FragmentDefinition.Realiased document.fragments document'.fragments)
    (aliases : definition.Realiased definition') {root : Renaming}
    (renames : ∀ rootType, engine.rootType? definition.kind = some rootType →
      Selection.Renames engine.schema root rootType (document.linkOperation definition).selections
        (document'.linkOperation definition').selections)
    {request request' : Request} (asks : engine.Asks request document definition)
    (asks' : engine.Asks request' document' definition')
    (values : request'.variableValues = request.variableValues) (state : State)
    (cancelAt : Option Nat) :
    (engine.execute request' state cancelAt).response =
        root.response (engine.execute request state cancelAt).response ∧
      (engine.execute request' state cancelAt).world =
        root.world (engine.execute request state cancelAt).world := by
  unfold execute
  rw [select_of_asks asks, select_of_asks asks', aliases.kind]
  split_ifs
  · exact ⟨rfl, rfl⟩
  · cases found : engine.rootType? definition.kind with
    | none => exact ⟨rfl, rfl⟩
    | some rootType =>
      have linked := ExecutableDocument.realiasedAll_linkOperation fragments aliases
      have kind : (document'.linkOperation definition').kind =
          (document.linkOperation definition).kind := aliases.kind
      have run := engine.run_renamed ignores kind aliases.variableDefinitions linked
        (renames rootType found) engine.configuration.parallelSiblings request.variableValues state
        cancelAt
      simp only [values, run, and_true]
      exact (root.response_respond _ _).symm

/-- Members have a name and an age, which may not be null. -/
def memberType : ObjectType where
  name := "Member"
  fields :=
    [{ name := "name", type := .builtin .string, arguments := [] },
      { name := "age", type := .nonNull (.builtin .int), arguments := [] }]

/-- An engine that lists two members, the first of whom lacks an age. -/
def roster : Engine Unit where
  schema :=
    { types :=
        [.object
          { name := "Query"
            fields := [{ name := "team", type := .list (.named "Member"), arguments := [] }] },
          .object memberType]
      queryRoot := "Query"
      mutationRoot := none }
  registry :=
    { bindings :=
        [{ typeName := "Query", fieldName := "team"
           resolver := .compute fun _ => .ok (.array [.object [("name", .string "Ada")],
             .object [("name", .string "Bo"), ("age", .ofInt 41)]]) },
          .property "Member" "name", .property "Member" "age"] }

/-- No resolver of the roster looks at paths. -/
theorem ignoresPaths_roster : roster.registry.IgnoresPaths := by
  intro binding member call path
  rcases List.mem_cons.1 member with rfl | member
  · rfl
  · rcases List.mem_cons.1 member with rfl | member
    · rfl
    · rw [List.mem_singleton.1 member]
      rfl

/-- The keys of a member, exchanged. -/
def exchanged : Renaming :=
  .keys (fun key => if key = "name" then "age" else "name") fun _ => .keep

/-- Exchanging the names of two response keys is a renaming of the members' selections. -/
theorem renames_member : Selection.Renames roster.schema exchanged memberType
    [.field none "name" [] [], .field none "age" [] [], .field none "name" [] []]
    [.field (some "age") "name" [] [], .field (some "name") "age" [] [],
      .field (some "age") "name" [] []] := by
  have leaf : ∀ group ∈ collectFields memberType.name
      [.field none "name" [] [], .field none "age" [] [], .field none "name" [] []],
      group.selections = [] := by
    decide
  exact .keys rfl (by decide) (fun _ _ _ => rfl) fun group member selected =>
    absurd (leaf group member) selected

/-- One key is renamed, also in a fragment, and the keys below it are exchanged. In the data and in
the path of the error they are where the others were. -/
theorem execute_renamed_roster :
    let request : Request :=
      { query := some "{team {name age} ...Q} fragment Q on Query {team {name}}" }
    let renamed : Request :=
      { query := some
          "{crew: team {age: name name: age} ...Q} fragment Q on Query {crew: team {age: name}}" }
    let root : Renaming := .keys (fun _ => "crew") fun _ => exchanged
    (roster.execute renamed () none).response =
        root.response (roster.execute request () none).response ∧
      (roster.execute renamed () none).world = root.world (roster.execute request () none).world ∧
      (roster.execute renamed () none).response.data = some (.object [("crew",
        .array [.null, .object [("age", .string "Bo"), ("name", .ofInt 41)]])]) ∧
      (roster.execute renamed () none).response.errors.map (·.path) =
        [some [.key "crew", .index 0, .key "name"]] := by
  intro request renamed root
  have data : (roster.execute renamed () none).response.data = some (.object [("crew",
      .array [.null, .object [("age", .string "Bo"), ("name", .ofInt 41)]])]) := by
    decide +kernel
  have errors : (roster.execute renamed () none).response.errors.map (·.path) =
      [some [.key "crew", .index 0, .key "name"]] := by
    decide +kernel
  have parsed : ExecutableDocument.parseWithin roster.configuration.recursionLimit
      "{team {name age} ...Q} fragment Q on Query {team {name}}" =
        .ok ⟨[⟨.query, none, [], [.field none "team" []
          [.field none "name" [] [], .field none "age" [] []], .fragmentSpread "Q"]⟩],
          [⟨"Q", "Query", [.field none "team" [] [.field none "name" [] []]]⟩]⟩ := by
    cbv
  have parsedRenamed : ExecutableDocument.parseWithin roster.configuration.recursionLimit
      "{crew: team {age: name name: age} ...Q} fragment Q on Query {crew: team {age: name}}" =
        .ok ⟨[⟨.query, none, [], [.field (some "crew") "team" []
          [.field (some "age") "name" [] [], .field (some "name") "age" [] []],
            .fragmentSpread "Q"]⟩],
          [⟨"Q", "Query", [.field (some "crew") "team" []
            [.field (some "age") "name" [] []]]⟩]⟩ := by
    cbv
  have asks : roster.Asks request _ _ := ⟨_, rfl, parsed, rfl⟩
  have asksRenamed : roster.Asks renamed _ _ := ⟨_, rfl, parsedRenamed, rfl⟩
  have same : (roster.execute renamed () none).response =
      root.response (roster.execute request () none).response ∧
        (roster.execute renamed () none).world =
          root.world (roster.execute request () none).world := by
    refine execute_renamed roster ignoresPaths_roster ?_ ?_ ?_ asks asksRenamed rfl () none
    · exact .cons ⟨rfl, rfl, .cons (.field (.cons (.field .nil) .nil)) .nil⟩ .nil
    · exact ⟨rfl, rfl, .cons (.field (.cons (.field .nil) (.cons (.field .nil) .nil)))
        (.cons (.fragmentSpread "Q") .nil)⟩
    · intro rootType found
      cases found
      refine .keys rfl (by decide) ?_ ?_
      · intro group member none
        cases List.mem_singleton.1 (member : group ∈ [_])
        cases none
      · intro group member _ group' member' _ definition inner declared object
        cases List.mem_singleton.1 (member : group ∈ [_])
        cases List.mem_singleton.1 (member' : group' ∈ [_])
        cases declared
        cases object
        exact renames_member
  exact ⟨same.1, same.2, data, errors⟩

end Engine

end GraphQL
