import Mathlib
import GraphQL.Proofs.Documents.Expansion
import GraphQL.Proofs.Selections.Inlining
import GraphQL.Proofs.Visits.Runs

/-!
# Fragments as an abbreviation

A named fragment says nothing that could not be said without it: instead of each spread, one may
write an inline fragment with the condition and the selections of the fragment, in which spreads are
replaced in turn (`ExecutableDocument.InlinesAll`). In a document that passed its checks there is
exactly one way to do so for each operation, and no spread is left. The operation then selects some
fields several times that were collected once before. It is executed in the same way all the same:
the same calls are made in the same order, with the same response (`Engine.execute_inlined`).
-/

set_option autoImplicit false

namespace GraphQL

namespace ExecutableDocument

mutual

/-- A selection in which every spread is replaced by an inline fragment. -/
inductive Inlines (document : ExecutableDocument) :
    Document.Selection → Document.Selection → Prop
  | field {aliasName : Option String} {name : String} {arguments : List (String × Literal)}
    {selections inlined : List Document.Selection} (h : InlinesAll document selections inlined) :
    Inlines document (.field aliasName name arguments selections)
      (.field aliasName name arguments inlined)
  | inlineFragment {condition : Option String} {selections inlined : List Document.Selection}
    (h : InlinesAll document selections inlined) :
    Inlines document (.inlineFragment condition selections) (.inlineFragment condition inlined)
  | fragmentSpread {name : String} {fragment : FragmentDefinition}
    {inlined : List Document.Selection} (found : document.fragment? name = some fragment)
    (h : InlinesAll document fragment.selections inlined) :
    Inlines document (.fragmentSpread name) (.inlineFragment (some fragment.condition) inlined)

/-- A selection set in which every spread is replaced by an inline fragment. -/
inductive InlinesAll (document : ExecutableDocument) :
    List Document.Selection → List Document.Selection → Prop
  | nil : InlinesAll document [] []
  | cons {selection inlined : Document.Selection} {rest others : List Document.Selection}
    (first : Inlines document selection inlined) (later : InlinesAll document rest others) :
    InlinesAll document (selection :: rest) (inlined :: others)

end

variable {document : ExecutableDocument}

mutual

/-- A selection is inlined in one way at most. -/
theorem Inlines.unique {selection inlined other : Document.Selection} :
    document.Inlines selection inlined → document.Inlines selection other → inlined = other
  | .field h, .field h' => by rw [h.unique h']
  | .inlineFragment h, .inlineFragment h' => by rw [h.unique h']
  | .fragmentSpread found h, .fragmentSpread found' h' => by
    rw [found] at found'
    cases found'
    rw [h.unique h']

/-- There is at most one way to replace the spreads of a selection set. -/
theorem InlinesAll.unique {selections inlined others : List Document.Selection} :
    document.InlinesAll selections inlined → document.InlinesAll selections others →
      inlined = others
  | .nil, .nil => rfl
  | .cons first later, .cons first' later' => by rw [first.unique first', later.unique later']

end

mutual

/-- What is inlined has no spreads left. -/
theorem Inlines.spreads_eq_nil {selection inlined : Document.Selection} :
    document.Inlines selection inlined → inlined.spreads = []
  | .field h => by rw [Document.Selection.spreads, h.spreadsAll_eq_nil]
  | .inlineFragment h => by rw [Document.Selection.spreads, h.spreadsAll_eq_nil]
  | .fragmentSpread found h => by rw [Document.Selection.spreads, h.spreadsAll_eq_nil]

/-- No spread is left. -/
theorem InlinesAll.spreadsAll_eq_nil {selections inlined : List Document.Selection} :
    document.InlinesAll selections inlined → Document.spreadsAll inlined = []
  | .nil => rfl
  | .cons first later => by
    rw [Document.spreadsAll, first.spreads_eq_nil, later.spreadsAll_eq_nil, List.append_nil]

end

mutual

/-- A selection that can be expanded can be inlined. -/
theorem Expands.exists_inlines {selection : Document.Selection} {expanded : Selection} :
    document.Expands selection expanded → ∃ inlined, document.Inlines selection inlined
  | .field h => (h.exists_inlinesAll).elim fun _ inlines => ⟨_, .field inlines⟩
  | .inlineFragment h => (h.exists_inlinesAll).elim fun _ inlines => ⟨_, .inlineFragment inlines⟩
  | .fragmentSpread found h =>
    (h.exists_inlinesAll).elim fun _ inlines => ⟨_, .fragmentSpread found inlines⟩

/-- Where fragments can be expanded, their spreads can be replaced. -/
theorem ExpandsAll.exists_inlinesAll {selections : List Document.Selection}
    {expanded : List Selection} :
    document.ExpandsAll selections expanded → ∃ inlined, document.InlinesAll selections inlined
  | .nil => ⟨[], .nil⟩
  | .cons first later => by
    obtain ⟨inlined, inlines⟩ := first.exists_inlines
    obtain ⟨others, inlinesAll⟩ := later.exists_inlinesAll
    exact ⟨_, .cons inlines inlinesAll⟩

end

mutual

/-- Linking what was inlined gives what expanding gives. -/
theorem Expands.link_inlined (body : String → String × List Selection)
    {selection inlined : Document.Selection} {expanded : Selection} :
    document.Expands selection expanded → document.Inlines selection inlined →
      link body inlined = expanded.expand
  | .field h, .field h' => by rw [link, Selection.expand, h.linkAll_inlined body h']
  | .inlineFragment h, .inlineFragment h' => by
    rw [link, Selection.expand, h.linkAll_inlined body h']
  | .fragmentSpread found h, .fragmentSpread found' h' => by
    rw [found] at found'
    cases found'
    rw [link, Selection.expand, h.linkAll_inlined body h']

/-- The selections whose spreads are replaced are executed as the expanded ones with their spreads
written out. -/
theorem ExpandsAll.linkAll_inlined (body : String → String × List Selection)
    {selections inlined : List Document.Selection} {expanded : List Selection} :
    document.ExpandsAll selections expanded → document.InlinesAll selections inlined →
      linkAll body inlined = Selection.expandAll expanded
  | .nil, .nil => rfl
  | .cons first later, .cons first' later' => by
    rw [linkAll, Selection.expandAll, first.link_inlined body first',
      later.linkAll_inlined body later']

end

mutual

/-- What a selection expands to carries its fragments. -/
theorem Expands.carries {body : String → String × List Selection}
    (given : ∀ name, (document.fragment? name).isSome → document.Gives body name)
    {selection : Document.Selection} {expanded : Selection} :
    document.Expands selection expanded → expanded.Carries body
  | .field h => by
    rw [Selection.Carries]
    exact h.carriesAll given
  | .inlineFragment h => by
    rw [Selection.Carries]
    exact h.carriesAll given
  | .fragmentSpread found h => by
    obtain ⟨fragment, found', condition, full⟩ := given _ (Option.isSome_of_eq_some found)
    rw [found] at found'
    cases found'
    rw [Selection.Carries]
    exact ⟨Prod.ext condition (full.unique h), h.carriesAll given⟩

/-- In expanded selections every spread carries its fragment. -/
theorem ExpandsAll.carriesAll {body : String → String × List Selection}
    (given : ∀ name, (document.fragment? name).isSome → document.Gives body name)
    {selections : List Document.Selection} {expanded : List Selection} :
    document.ExpandsAll selections expanded → Selection.CarriesAll body expanded
  | .nil => by
    rw [Selection.CarriesAll]
    trivial
  | .cons first later => by
    rw [Selection.CarriesAll]
    exact ⟨first.carries given, later.carriesAll given⟩

end

/-- In an operation of a document that passed its checks every spread carries its fragment. -/
theorem carriesAll_linkOperation {source : Document} (accepted : ofDocument source = .ok document)
    {definition : OperationDefinition} (member : definition ∈ document.operations) :
    Selection.CarriesAll (document.body document.fragments.length)
      (document.linkOperation definition).selections :=
  (expandsAll_linkOperation accepted member).carriesAll fun _ => gives_of_accepted accepted

/-- A text that is accepted was read as a document that is. -/
theorem exists_ofDocument {limit : Nat} {text : String}
    (accepted : parseWithin limit text = .ok document) :
    ∃ source, ofDocument source = .ok document := by
  unfold parseWithin at accepted
  split at accepted
  · exact ⟨_, accepted⟩
  · cases accepted

end ExecutableDocument

namespace Engine

variable {State : Type} {engine : Engine State} {request : Request}
  {document : ExecutableDocument} {definition : OperationDefinition}

/-- What a request selects, if it asks for some operation. -/
theorem select_of_asks (asks : engine.Asks request document definition) :
    engine.select request =
      if definition.kind == .subscription then .error .subscriptionNotSupported
      else
        match engine.rootType? definition.kind with
        | some rootType => .ok (document.linkOperation definition, rootType)
        | none => .error .mutationNotSupported := by
  obtain ⟨text, given, parsed, chosen⟩ := asks
  simp only [select, given, Option.elim, Bind.bind, Except.bind, parsed, chosen]
  rfl

/-- Requests for operations of the same kind that run in the same way have the same execution. -/
theorem execute_congr_of_run {request' : Request} {document' : ExecutableDocument}
    {definition' : OperationDefinition} (asks : engine.Asks request document definition)
    (asks' : engine.Asks request' document' definition') (kind : definition'.kind = definition.kind)
    (state : State) (cancelAt : Option Nat)
    (same : ∀ rootType, engine.rootType? definition.kind = some rootType →
      engine.run ((document'.linkOperation definition').plan engine.schema
          engine.configuration.parallelSiblings request'.variableValues rootType) state cancelAt =
        engine.run ((document.linkOperation definition).plan engine.schema
          engine.configuration.parallelSiblings request.variableValues rootType) state cancelAt) :
    engine.execute request' state cancelAt = engine.execute request state cancelAt := by
  unfold execute
  rw [select_of_asks asks, select_of_asks asks', kind]
  split_ifs
  · rfl
  · cases root : engine.rootType? definition.kind with
    | none => rfl
    | some rootType => simp only [same rootType root]

/-- Requests for operations of the same kind that do the same have the same execution. -/
theorem execute_congr {request' : Request} {document' : ExecutableDocument}
    {definition' : OperationDefinition} (asks : engine.Asks request document definition)
    (asks' : engine.Asks request' document' definition') (kind : definition'.kind = definition.kind)
    (same : ∀ rootType, (document'.linkOperation definition').plan engine.schema
        engine.configuration.parallelSiblings request'.variableValues rootType =
      (document.linkOperation definition).plan engine.schema
        engine.configuration.parallelSiblings request.variableValues rootType)
    (state : State) (cancelAt : Option Nat) :
    engine.execute request' state cancelAt = engine.execute request state cancelAt :=
  execute_congr_of_run asks asks' kind state cancelAt fun rootType _ => by rw [same]

/-- Named fragments are an abbreviation. For each operation of a document that is accepted there is
one way to replace every spread, at every depth, by an inline fragment with the condition and the
selections of the fragment. An operation with the selections that result, of whatever document it
is, does the same: whichever resolvers there are, however long they take and whenever the operation
is cancelled, all calls are made in the same order and end in the same way, and the response has the
same data and the same errors in the same order. -/
theorem execute_inlined (engine : Engine State) {limit : Nat} {text : String}
    {document : ExecutableDocument}
    (accepted : ExecutableDocument.parseWithin limit text = .ok document)
    {definition : OperationDefinition} (member : definition ∈ document.operations) :
    ∃ inlined, (∀ other, document.InlinesAll definition.selections other ↔ other = inlined) ∧
      Document.spreadsAll inlined = [] ∧
      ∀ (document' : ExecutableDocument) (definition' : OperationDefinition),
        definition'.kind = definition.kind →
        definition'.variableDefinitions = definition.variableDefinitions →
        definition'.selections = inlined →
        (∀ values rootType state cancelAt,
          engine.run ((document'.linkOperation definition').plan engine.schema
              engine.configuration.parallelSiblings values rootType) state cancelAt =
            engine.run ((document.linkOperation definition).plan engine.schema
              engine.configuration.parallelSiblings values rootType) state cancelAt) ∧
        ∀ request request', engine.Asks request document definition →
          engine.Asks request' document' definition' →
          request'.variableValues = request.variableValues → ∀ state cancelAt,
            engine.execute request' state cancelAt = engine.execute request state cancelAt := by
  obtain ⟨source, passed⟩ := ExecutableDocument.exists_ofDocument accepted
  have expands := ExecutableDocument.expandsAll_linkOperation passed member
  obtain ⟨inlined, inlines⟩ := expands.exists_inlinesAll
  refine ⟨inlined, fun other => ⟨fun h => h.unique inlines, fun same => same ▸ inlines⟩,
    inlines.spreadsAll_eq_nil, ?_⟩
  intro document' definition' kind declared selections
  -- both operations expand to the same selections, and a plan is that of the expansion
  have plan : ∀ values rootType,
      (document'.linkOperation definition').plan engine.schema
          engine.configuration.parallelSiblings values rootType =
        (document.linkOperation definition).plan engine.schema
          engine.configuration.parallelSiblings values rootType := by
    intro values rootType
    rw [Operation.plan_expand (ExecutableDocument.carriesAll_linkOperation passed member)]
    unfold Operation.plan
    simp only [ExecutableDocument.linkOperation, kind, declared, selections]
    have written := expands.linkAll_inlined (document'.body document'.fragments.length) inlines
    rw [written]
    rfl
  refine ⟨fun values rootType state cancelAt => by rw [plan], ?_⟩
  intro request request' asks asks' values state cancelAt
  exact execute_congr asks asks' kind (fun rootType => by rw [values, plan]) state cancelAt

/-- Spreading a fragment twice calls the resolver of its field once, and so does writing the
fragment out twice. -/
theorem execute_inlined_sample :
    let request : Request := { query := some "{...F ...F} fragment F on Query {lenient}" }
    let request' : Request :=
      { query := some "{... on Query {lenient} ... on Query {lenient}}" }
    sample.execute request' () none = sample.execute request () none ∧
      (sample.execute request () none).world.calls.length = 1 := by
  intro request request'
  have calls : (sample.execute request () none).world.calls.length = 1 := by decide +kernel
  have parsed : ExecutableDocument.parseWithin sample.configuration.recursionLimit
      "{...F ...F} fragment F on Query {lenient}" =
        .ok ⟨[⟨.query, none, [], [.fragmentSpread "F", .fragmentSpread "F"]⟩],
          [⟨"F", "Query", [.field none "lenient" [] []]⟩]⟩ := by
    cbv
  have parsed' : ExecutableDocument.parseWithin sample.configuration.recursionLimit
      "{... on Query {lenient} ... on Query {lenient}}" =
        .ok ⟨[⟨.query, none, [], [.inlineFragment (some "Query") [.field none "lenient" [] []],
          .inlineFragment (some "Query") [.field none "lenient" [] []]]⟩], []⟩ := by
    cbv
  have asks : sample.Asks request _ _ := ⟨_, rfl, parsed, rfl⟩
  have asks' : sample.Asks request' _ _ := ⟨_, rfl, parsed', rfl⟩
  obtain ⟨inlined, only, -, same⟩ := execute_inlined sample parsed (List.mem_singleton_self _)
  have written : _ = inlined := (only _).1
    (.cons (.fragmentSpread rfl (.cons (.field .nil) .nil))
      (.cons (.fragmentSpread rfl (.cons (.field .nil) .nil)) .nil))
  refine ⟨(same _ _ ?_ ?_ ?_).2 request request' asks asks' rfl () none, calls⟩
  · rfl
  · rfl
  · exact written

end Engine

end GraphQL
