import GraphQL.Operation.Executable
import GraphQL.Proofs.Checks
import Mathlib.Logic.Relation

/-!
# Spreads of fragments

Which fragments a selection spreads, however deep the spread stands in fields and inline fragments,
and what the search for cycles finds. The fragments of a document form a directed graph with a step
from each fragment to those that it spreads. The search follows the steps from every fragment: it
succeeds if and only if no fragment reaches itself, and a fragment that it reports does.
-/

set_option autoImplicit false

namespace GraphQL

open Relation (ReflTransGen TransGen)

namespace Document

/-- A selection spreads a fragment of some name, itself or by a selection inside it. -/
inductive Selection.Spreads (name : String) : Selection → Prop
  | spread : Spreads name (.fragmentSpread name)
  | field {aliasName : Option String} {fieldName : String} {arguments : List (String × Literal)}
    {selections : List Selection} {selection : Selection} (member : selection ∈ selections)
    (h : Spreads name selection) : Spreads name (.field aliasName fieldName arguments selections)
  | inlineFragment {condition : Option String} {selections : List Selection}
    {selection : Selection} (member : selection ∈ selections) (h : Spreads name selection) :
    Spreads name (.inlineFragment condition selections)

/-- Some selection of a selection set spreads a fragment of some name. -/
def SpreadsIn (name : String) (selections : List Selection) : Prop :=
  ∃ selection ∈ selections, selection.Spreads name

/-- A fragment is spread in selections if it is in the first or in the others. -/
theorem spreadsIn_cons {name : String} {selection : Selection} {rest : List Selection} :
    SpreadsIn name (selection :: rest) ↔ selection.Spreads name ∨ SpreadsIn name rest := by
  simp only [SpreadsIn, List.mem_cons, exists_eq_or_imp]

mutual

/-- The names that are gathered from a selection are those that it spreads. -/
theorem Selection.mem_spreads_iff (name : String) :
    (selection : Selection) → (name ∈ selection.spreads ↔ selection.Spreads name)
  | .field aliasName fieldName arguments selections => by
    rw [Selection.spreads, mem_spreadsAll_iff name selections]
    constructor
    · rintro ⟨selection, member, h⟩
      exact .field member h
    · intro h
      cases h with
      | field member h => exact ⟨_, member, h⟩
  | .inlineFragment condition selections => by
    rw [Selection.spreads, mem_spreadsAll_iff name selections]
    constructor
    · rintro ⟨selection, member, h⟩
      exact .inlineFragment member h
    · intro h
      cases h with
      | inlineFragment member h => exact ⟨_, member, h⟩
  | .fragmentSpread other => by
    rw [Selection.spreads, List.mem_singleton]
    constructor
    · rintro rfl
      exact .spread
    · intro h
      cases h
      rfl

/-- The names that are gathered from a selection set are those that it spreads. -/
theorem mem_spreadsAll_iff (name : String) :
    (selections : List Selection) → (name ∈ spreadsAll selections ↔ SpreadsIn name selections)
  | [] => by
    simp [spreadsAll, SpreadsIn]
  | selection :: rest => by
    rw [spreadsAll, List.mem_append, spreadsIn_cons, selection.mem_spreads_iff name,
      mem_spreadsAll_iff name rest]

end

end Document

/-- Among some fragments there is one of the first name, and it spreads one of the second. -/
def FragmentDefinition.Step (fragments : List FragmentDefinition) (outer inner : String) : Prop :=
  ∃ fragment ∈ fragments, fragment.name = outer ∧ Document.SpreadsIn inner fragment.selections

/-- A fragment of some name reaches itself by one or more spreads. -/
def FragmentDefinition.OnCycle (fragments : List FragmentDefinition) (name : String) : Prop :=
  TransGen (Step fragments) name name

namespace ExecutableDocument

variable {document : ExecutableDocument}

/-- A fragment is found just if the document has one of the name. -/
theorem isSome_fragment?_iff {name : String} :
    (document.fragment? name).isSome = true ↔
      ∃ fragment ∈ document.fragments, fragment.name = name := by
  simp [fragment?, List.find?_isSome]

/-- Where names are distinct, a fragment is found by its name. -/
theorem fragment?_eq_some_iff (distinct : (document.fragments.map (·.name)).Nodup)
    {name : String} {fragment : FragmentDefinition} :
    document.fragment? name = some fragment ↔
      fragment ∈ document.fragments ∧ fragment.name = name :=
  Checks.find?_key_eq_some_iff distinct

/-- What a fragment spreads is one step away. -/
theorem step_of_fragment? {outer inner : String} {fragment : FragmentDefinition}
    (found : document.fragment? outer = some fragment)
    (spread : inner ∈ Document.spreadsAll fragment.selections) :
    FragmentDefinition.Step document.fragments outer inner := by
  have named := List.find?_some found
  exact ⟨fragment, List.mem_of_find?_eq_some found, eq_of_beq named,
    (Document.mem_spreadsAll_iff _ _).1 spread⟩

/-- A fragment that is one step away is spread in the fragment that is found by the name. -/
theorem exists_fragment?_of_step (distinct : (document.fragments.map (·.name)).Nodup)
    {outer inner : String} (step : FragmentDefinition.Step document.fragments outer inner) :
    ∃ fragment, document.fragment? outer = some fragment ∧
      inner ∈ Document.spreadsAll fragment.selections := by
  obtain ⟨fragment, member, named, spread⟩ := step
  exact ⟨fragment, (fragment?_eq_some_iff distinct).2 ⟨member, named⟩,
    (Document.mem_spreadsAll_iff _ _).2 spread⟩

/-- If the way leads to the fragment at which the search goes on, what the search reports is a
fragment that reaches itself. -/
theorem onCycle_of_checkCycle {way : List String} {name : String} {cause : RequestError}
    (leads : ∀ earlier ∈ way, TransGen (FragmentDefinition.Step document.fragments) earlier name)
    (h : document.checkCycle way name = .error cause) :
    ∃ culprit, cause = .fragmentCycle culprit ∧
      FragmentDefinition.OnCycle document.fragments culprit := by
  fun_induction checkCycle document way name with
  | case1 way name visited =>
    cases h
    exact ⟨name, rfl, leads name (List.contains_iff_mem.1 visited)⟩
  | case2 way name new fragment found ih =>
    obtain ⟨inner, spread, failed⟩ := Checks.exists_of_forM_eq_error h
    have step := step_of_fragment? found spread
    refine ih inner ?_ failed
    intro earlier member
    rcases List.mem_cons.1 member with rfl | member
    · exact .single step
    · exact .tail (leads earlier member) step
  | case3 way name new unknown => cases h

/-- A search that succeeds has not come back to the way: nothing that can be reached from where it
went on is on the way. -/
theorem not_mem_of_checkCycle (distinct : (document.fragments.map (·.name)).Nodup)
    {way : List String} {name other : String} (h : document.checkCycle way name = .ok ())
    (reached : ReflTransGen (FragmentDefinition.Step document.fragments) name other) :
    other ∉ way := by
  fun_induction checkCycle document way name with
  | case1 way name visited => cases h
  | case2 way name new fragment found ih =>
    rcases ReflTransGen.cases_head reached with rfl | ⟨inner, step, onwards⟩
    · exact fun member => new (List.contains_iff_mem.2 member)
    · obtain ⟨fragment', found', spread⟩ := exists_fragment?_of_step distinct step
      rw [found] at found'
      cases found'
      have off := ih inner (Checks.forM_eq_ok.1 h inner spread) onwards
      exact fun member => off (List.mem_cons_of_mem _ member)
  | case3 way name new unknown =>
    rcases ReflTransGen.cases_head reached with rfl | ⟨inner, step, onwards⟩
    · exact fun member => new (List.contains_iff_mem.2 member)
    · obtain ⟨fragment, found, -⟩ := exists_fragment?_of_step distinct step
      rw [unknown] at found
      cases found

/-- A fragment that passes the check is on no cycle. -/
theorem not_onCycle_of_checkCycle (distinct : (document.fragments.map (·.name)).Nodup)
    {way : List String} {name : String} (h : document.checkCycle way name = .ok ()) :
    ¬ FragmentDefinition.OnCycle document.fragments name := by
  intro cycle
  obtain ⟨inner, step, back⟩ := TransGen.head'_iff.1 cycle
  obtain ⟨fragment, found, spread⟩ := exists_fragment?_of_step distinct step
  rw [checkCycle] at h
  split at h
  · cases h
  split at h
  · next fragment' found' =>
    rw [found] at found'
    cases found'
    have off := not_mem_of_checkCycle distinct (Checks.forM_eq_ok.1 h inner spread) back
    exact off List.mem_cons_self
  · next unknown =>
    rw [unknown] at found
    cases found

/-- The search, on a way and at a name, goes on at a longer way and another name. -/
inductive Enters (document : ExecutableDocument) :
    List String × String → List String × String → Prop
  | spread {way : List String} {name inner : String} {fragment : FragmentDefinition}
    (new : name ∉ way) (found : document.fragment? name = some fragment)
    (spread : inner ∈ Document.spreadsAll fragment.selections) :
    Enters document (way, name) (name :: way, inner)

/-- The search cannot go on for ever, also where a fragment reaches itself or a name is repeated:
each step leaves fewer fragments that are not on the way. -/
theorem wellFounded_enters (document : ExecutableDocument) :
    WellFounded fun later earlier => document.Enters earlier later := by
  have decreasing : Subrelation (fun later earlier => document.Enters earlier later)
      (InvImage (· < ·) fun place => document.offWay place.1) := by
    intro later earlier enters
    cases enters with
    | spread new found _ =>
      exact offWay_cons_lt (fun visited => new (List.contains_iff_mem.1 visited)) found
  exact decreasing.wf (InvImage.wf _ Nat.lt_wfRel.wf)

/-- The search succeeds if it goes on nowhere at a name that is on its way already. -/
theorem checkCycle_eq_ok_iff {way : List String} {name : String} :
    document.checkCycle way name = .ok () ↔
      ∀ place, ReflTransGen document.Enters (way, name) place → place.2 ∉ place.1 := by
  fun_induction checkCycle document way name with
  | case1 way name visited =>
    constructor
    · rintro ⟨⟩
    · intro all
      exact absurd (List.contains_iff_mem.1 visited) (all _ .refl)
  | case2 way name new fragment found ih =>
    have off : name ∉ way := fun member => new (List.contains_iff_mem.2 member)
    rw [Checks.forM_eq_ok]
    constructor
    · intro all place reached
      rcases ReflTransGen.cases_head reached with rfl | ⟨next, enters, onwards⟩
      · exact off
      · cases enters with
        | spread _ found' spread =>
          rw [found] at found'
          cases found'
          exact (ih _).1 (all _ spread) place onwards
    · intro all inner spread
      exact (ih inner).2 fun place onwards => all place (.head (.spread off found spread) onwards)
  | case3 way name new unknown =>
    refine iff_of_true rfl fun place reached => ?_
    rcases ReflTransGen.cases_head reached with rfl | ⟨next, enters, onwards⟩
    · exact fun member => new (List.contains_iff_mem.2 member)
    · cases enters with
      | spread _ found _ =>
        rw [unknown] at found
        cases found

/-- The search from all fragments succeeds if and only if no fragment reaches itself. -/
theorem forM_checkCycle_eq_ok_iff (distinct : (document.fragments.map (·.name)).Nodup) :
    (document.fragments.forM fun fragment => document.checkCycle [] fragment.name) = .ok () ↔
      ∀ name, ¬ FragmentDefinition.OnCycle document.fragments name := by
  rw [Checks.forM_eq_ok]
  constructor
  · intro h name cycle
    obtain ⟨inner, ⟨fragment, member, rfl, -⟩, -⟩ := TransGen.head'_iff.1 cycle
    exact not_onCycle_of_checkCycle distinct (h fragment member) cycle
  · intro acyclic fragment member
    cases found : document.checkCycle [] fragment.name with
    | ok => rfl
    | error cause =>
      obtain ⟨culprit, -, cycle⟩ := onCycle_of_checkCycle (by simp) found
      exact absurd cycle (acyclic culprit)

end ExecutableDocument

end GraphQL
