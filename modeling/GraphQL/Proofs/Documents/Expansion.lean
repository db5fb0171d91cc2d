import GraphQL.Proofs.Documents.Requests

/-!
# Expansion of fragments

What the selections of a document say in full: every spread carries the condition and the selections
of its fragment, expanded in turn. Selections have at most one expansion, and since an expansion is
finite, a fragment that spreads itself has none. In a document that passed its checks every
operation has an expansion, and it is the one that is executed
(`ExecutableDocument.expandsAll_iff`).
-/

set_option autoImplicit false

namespace GraphQL

namespace ExecutableDocument

mutual

/-- A selection in full: every spread carries its fragment. -/
inductive Expands (document : ExecutableDocument) : Document.Selection → Selection → Prop
  | field {aliasName : Option String} {name : String} {arguments : List (String × Literal)}
    {selections : List Document.Selection} {expanded : List Selection}
    (h : ExpandsAll document selections expanded) :
    Expands document (.field aliasName name arguments selections)
      (.field aliasName name arguments expanded)
  | inlineFragment {condition : Option String} {selections : List Document.Selection}
    {expanded : List Selection} (h : ExpandsAll document selections expanded) :
    Expands document (.inlineFragment condition selections) (.inlineFragment condition expanded)
  | fragmentSpread {name : String} {fragment : FragmentDefinition} {expanded : List Selection}
    (found : document.fragment? name = some fragment)
    (h : ExpandsAll document fragment.selections expanded) :
    Expands document (.fragmentSpread name) (.fragmentSpread name fragment.condition expanded)

/-- A selection set in full: every spread carries its fragment. -/
inductive ExpandsAll (document : ExecutableDocument) :
    List Document.Selection → List Selection → Prop
  | nil : ExpandsAll document [] []
  | cons {selection : Document.Selection} {rest : List Document.Selection} {expanded : Selection}
    {others : List Selection} (first : Expands document selection expanded)
    (later : ExpandsAll document rest others) :
    ExpandsAll document (selection :: rest) (expanded :: others)

end

variable {document : ExecutableDocument}

mutual

/-- A selection has at most one expansion. -/
theorem Expands.unique {selection : Document.Selection} {expanded other : Selection} :
    document.Expands selection expanded → document.Expands selection other → expanded = other
  | .field h, .field h' => by rw [h.unique h']
  | .inlineFragment h, .inlineFragment h' => by rw [h.unique h']
  | .fragmentSpread found h, .fragmentSpread found' h' => by
    rw [found] at found'
    cases found'
    rw [h.unique h']

/-- A selection set has at most one expansion. -/
theorem ExpandsAll.unique {selections : List Document.Selection} {expanded others : List Selection} :
    document.ExpandsAll selections expanded → document.ExpandsAll selections others →
      expanded = others
  | .nil, .nil => rfl
  | .cons first later, .cons first' later' => by rw [first.unique first', later.unique later']

end

/-- What a function gives for the name of a fragment is the fragment in full. -/
def Gives (document : ExecutableDocument) (body : String → String × List Selection)
    (name : String) : Prop :=
  ∃ fragment, document.fragment? name = some fragment ∧ (body name).1 = fragment.condition ∧
    document.ExpandsAll fragment.selections (body name).2

mutual

/-- Putting fragments into a selection expands it, if they are given in full. -/
theorem expands_link {body : String → String × List Selection} :
    (selection : Document.Selection) → (∀ name ∈ selection.spreads, document.Gives body name) →
      document.Expands selection (link body selection)
  | .field aliasName name arguments selections, given =>
    .field (expandsAll_linkAll selections given)
  | .inlineFragment condition selections, given =>
    .inlineFragment (expandsAll_linkAll selections given)
  | .fragmentSpread name, given => by
    obtain ⟨fragment, found, condition, h⟩ := given name List.mem_cons_self
    rw [link, show body name = ((body name).1, (body name).2) from rfl, condition]
    exact .fragmentSpread found h

/-- Putting fragments into a selection set expands it, if they are given in full. -/
theorem expandsAll_linkAll {body : String → String × List Selection} :
    (selections : List Document.Selection) →
      (∀ name ∈ Document.spreadsAll selections, document.Gives body name) →
      document.ExpandsAll selections (linkAll body selections)
  | [], _ => .nil
  | selection :: rest, given => by
    rw [Document.spreadsAll, List.forall_mem_append] at given
    exact .cons (expands_link selection given.1) (expandsAll_linkAll rest given.2)

end

/-- As many steps as there are fragments off the way are enough to put fragments into the one at
which a search without a cycle goes on. -/
theorem gives_body (known : ∀ fragment ∈ document.fragments, ∀ name,
      Document.SpreadsIn name fragment.selections → (document.fragment? name).isSome)
    {way : List String} {name : String} (h : document.checkCycle way name = .ok ())
    (present : (document.fragment? name).isSome) {steps : Nat}
    (enough : document.offWay way ≤ steps) : document.Gives (document.body steps) name := by
  fun_induction checkCycle document way name generalizing steps with
  | case1 way name visited => cases h
  | case2 way name new fragment found ih =>
    have fewer := offWay_cons_lt new found
    cases steps with
    | zero => omega
    | succ steps =>
      have body : document.body (steps + 1) name =
          (fragment.condition, linkAll (document.body steps) fragment.selections) := by
        rw [ExecutableDocument.body, found]
      refine ⟨fragment, found, by rw [body], ?_⟩
      rw [body]
      refine expandsAll_linkAll fragment.selections fun inner spread => ?_
      have spreadIn := (Document.mem_spreadsAll_iff _ _).1 spread
      exact ih inner (Checks.forM_eq_ok.1 h inner spread)
        (known fragment (List.mem_of_find?_eq_some found) inner spreadIn) (by omega)
  | case3 way name new unknown =>
    rw [unknown] at present
    cases present

/-- In a document that passed its checks, every fragment is put in full into what spreads it. -/
theorem gives_of_accepted {source : Document} (accepted : ofDocument source = .ok document)
    {name : String} (present : (document.fragment? name).isSome) :
    document.Gives (document.body document.fragments.length) name := by
  obtain ⟨wellFormed, same⟩ := ofDocument_eq_ok_iff.1 accepted
  have fragments : document.fragments = source.fragments := by rw [same]
  have search : ∀ fragment ∈ document.fragments, document.checkCycle [] fragment.name = .ok () := by
    refine Checks.forM_eq_ok.1 ((forM_checkCycle_eq_ok_iff ?_).2 ?_)
    · rw [fragments]
      exact wellFormed.fragmentNames
    · rw [fragments]
      exact wellFormed.acyclic
  have known : ∀ fragment ∈ document.fragments, ∀ name,
      Document.SpreadsIn name fragment.selections → (document.fragment? name).isSome := by
    intro fragment hfragment name spread
    rw [isSome_fragment?_iff, fragments]
    exact wellFormed.spreadsOfFragments fragment (fragments ▸ hfragment) name spread
  obtain ⟨fragment, hfragment, rfl⟩ := isSome_fragment?_iff.1 present
  exact gives_body known (search fragment hfragment) present List.countP_le_length

/-- An operation of a document that passed its checks is executed with all fragments expanded. -/
theorem expandsAll_linkOperation {source : Document} (accepted : ofDocument source = .ok document)
    {definition : OperationDefinition} (member : definition ∈ document.operations) :
    document.ExpandsAll definition.selections (document.linkOperation definition).selections := by
  refine expandsAll_linkAll definition.selections fun name spread => gives_of_accepted accepted ?_
  obtain ⟨wellFormed, same⟩ := ofDocument_eq_ok_iff.1 accepted
  have fragments : document.fragments = source.fragments := by rw [same]
  have operations : document.operations = source.operations := by rw [same]
  rw [isSome_fragment?_iff, fragments]
  exact wellFormed.spreadsOfOperations definition (operations ▸ member) name
    ((Document.mem_spreadsAll_iff _ _).1 spread)

/-- An operation of a document that passed its checks is executed with all fragments expanded, and
there is no other expansion. -/
theorem expandsAll_iff {source : Document} (accepted : ofDocument source = .ok document)
    {definition : OperationDefinition} (member : definition ∈ document.operations)
    (expanded : List Selection) :
    document.ExpandsAll definition.selections expanded ↔
      expanded = (document.linkOperation definition).selections := by
  have linked := expandsAll_linkOperation accepted member
  constructor
  · exact fun h => h.unique linked
  · rintro rfl
    exact linked

end ExecutableDocument

end GraphQL
