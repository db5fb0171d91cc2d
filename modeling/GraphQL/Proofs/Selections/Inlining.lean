import GraphQL.Execution.Complete
import GraphQL.Proofs.Selections.Flattened

/-!
# Fragments written out

A selection set in which every spread is written as an inline fragment has no names left by which a
fragment would be known again, so all its fields are collected, however often a fragment was spread
(`collectFields_expandAll`). They come to groups with the same keys, names and arguments, and their
sub-selections are those of the spreads up to repetitions, so that one level below the same holds
again. What an operation does is the same at every level (`Operation.plan_expand`).
-/

set_option autoImplicit false

namespace GraphQL

/-- The field whose sub-selections have their spreads written out. -/
def Field.expand (field : Field) : Field :=
  { field with selections := Selection.expandAll field.selections }

namespace FieldGroup

/-- The group whose fields have their spreads written out. -/
def expand (group : FieldGroup) : FieldGroup :=
  { key := group.key, first := group.first.expand, more := group.more.map Field.expand }

/-- A field that is written out joins the group that the field joins. -/
theorem add_expand (field : Field) (groups : List FieldGroup) :
    add field.expand (groups.map expand) = (add field groups).map expand := by
  have key : field.expand.responseKey = field.responseKey := rfl
  induction groups with
  | nil => rfl
  | cons group rest ih =>
    rw [List.map_cons, add, add, key, show group.expand.key = group.key from rfl]
    split
    · simp [expand]
    · rw [ih, List.map_cons]

/-- Fields that are written out make the groups of the fields, written out. -/
theorem addAll_expand (fields : List Field) (groups : List FieldGroup) :
    addAll (fields.map Field.expand) (groups.map expand) = (addAll fields groups).map expand := by
  induction fields generalizing groups with
  | nil => rfl
  | cons field rest ih =>
    have step : addAll ((field :: rest).map Field.expand) (groups.map expand) =
        addAll (rest.map Field.expand) (add field.expand (groups.map expand)) := rfl
    rw [step, add_expand, ih]
    rfl

end FieldGroup

namespace Selection

/-- A selection set is written out selection by selection. -/
theorem expandAll_eq_map (selections : List Selection) :
    expandAll selections = selections.map expand := by
  induction selections with
  | nil => rfl
  | cons selection rest ih => rw [expandAll, ih, List.map_cons]

mutual

/-- Writing spreads out makes a selection no deeper. -/
theorem depth_expand : (selection : Selection) → selection.expand.depth = selection.depth
  | .field _ _ _ selections => by rw [expand, depth, depth, depthAll_expandAll selections]
  | .inlineFragment _ selections => by rw [expand, depth, depth, depthAll_expandAll selections]
  | .fragmentSpread _ _ selections => by rw [expand, depth, depth, depthAll_expandAll selections]

/-- Writing spreads out nests fields as deep as before. -/
theorem depthAll_expandAll :
    (selections : List Selection) → depthAll (expandAll selections) = depthAll selections
  | [] => rfl
  | selection :: rest => by
    rw [expandAll, depthAll, depthAll, depth_expand selection, depthAll_expandAll rest]

end

end Selection

/-- The sub-selections of a group that is written out are those of the group, written out. -/
theorem FieldGroup.selections_expand (group : FieldGroup) :
    group.expand.selections = Selection.expandAll group.selections := by
  simp only [expand, selections, Field.expand, Selection.expandAll_eq_map, List.map_append,
    List.flatMap_map, List.map_flatMap]

namespace Collected

open Selection

mutual

/-- What is collected of a selection that is written out are the fields that it selects, written
out. -/
theorem groups_add_expand (typeName : String) (collected : Collected) :
    (selection : Selection) → (add typeName collected selection.expand).groups =
      FieldGroup.addAll ((selection.flatten typeName).map Field.expand) collected.groups
  | .field aliasName name arguments selections => by
    rw [expand, add, flatten]
    rfl
  | .inlineFragment condition selections => by
    rw [expand, add, flatten]
    split
    · exact groups_addAll_expandAll typeName collected selections
    · rfl
  | .fragmentSpread name condition selections => by
    rw [expand, add, flatten, Option.all_some]
    split
    · exact groups_addAll_expandAll typeName collected selections
    · rfl

/-- From selections whose spreads are written out all fields are collected. -/
theorem groups_addAll_expandAll (typeName : String) (collected : Collected) :
    (selections : List Selection) → (addAll typeName collected (expandAll selections)).groups =
      FieldGroup.addAll ((flattenAll typeName selections).map Field.expand) collected.groups
  | [] => rfl
  | selection :: rest => by
    rw [expandAll, addAll, groups_addAll_expandAll typeName _ rest, groups_add_expand, flattenAll,
      List.map_append, FieldGroup.addAll_append]

end

end Collected

/-- From a selection set whose spreads are written out all fields are collected. -/
theorem collectFields_expandAll (typeName : String) (selections : List Selection) :
    collectFields typeName (Selection.expandAll selections) =
      (FieldGroup.ofFields (Selection.flattenAll typeName selections)).map FieldGroup.expand :=
  (Collected.groups_addAll_expandAll typeName {} selections).trans (FieldGroup.addAll_expand _ [])

namespace Selection

mutual

/-- No fragment is spread by its name in a selection. -/
def Inline : Selection → Prop
  | .field _ _ _ selections => InlineAll selections
  | .inlineFragment _ selections => InlineAll selections
  | .fragmentSpread _ _ _ => False

/-- No fragment is spread by its name in a selection set: all are written as inline fragments. -/
def InlineAll : List Selection → Prop
  | [] => True
  | selection :: rest => selection.Inline ∧ InlineAll rest

end

/-- The fields that two selection sets select are those of the first and then those of the
second. -/
theorem flattenAll_append (typeName : String) (left right : List Selection) :
    flattenAll typeName (left ++ right) =
      flattenAll typeName left ++ flattenAll typeName right := by
  simp only [flattenAll_eq_flatMap, List.flatMap_append]

section Inline

/-- A spread is not an inline fragment. -/
theorem not_inline_spread {name condition : String} {selections : List Selection} :
    ¬ (fragmentSpread name condition selections).Inline :=
  id

/-- A selection set is without spreads if and only if its selections are. -/
theorem inlineAll_iff {selections : List Selection} :
    InlineAll selections ↔ ∀ selection ∈ selections, selection.Inline := by
  induction selections with
  | nil => simp [InlineAll]
  | cons selection rest ih => rw [InlineAll, ih, List.forall_mem_cons]

/-- Two selection sets together are without spreads if and only if both are. -/
theorem inlineAll_append {left right : List Selection} :
    InlineAll (left ++ right) ↔ InlineAll left ∧ InlineAll right := by
  simp only [inlineAll_iff, List.forall_mem_append]

mutual

/-- Where there are no spreads nothing is left to write out. -/
theorem Inline.expand_eq : {selection : Selection} → selection.Inline → selection.expand = selection
  | .field _ _ _ _, inline => by
    rw [Inline] at inline
    rw [expand, inline.expandAll_eq]
  | .inlineFragment _ _, inline => by
    rw [Inline] at inline
    rw [expand, inline.expandAll_eq]
  | .fragmentSpread _ _ _, inline => (not_inline_spread inline).elim

/-- Nothing is left to write out. -/
theorem InlineAll.expandAll_eq :
    {selections : List Selection} → InlineAll selections → expandAll selections = selections
  | [], _ => rfl
  | _ :: _, inline => by
    rw [InlineAll] at inline
    rw [expandAll, inline.1.expand_eq, inline.2.expandAll_eq]

end

mutual

/-- Without spreads no body of a fragment matters. -/
theorem Inline.carries (body : String → String × List Selection) :
    {selection : Selection} → selection.Inline → selection.Carries body
  | .field _ _ _ _, inline => by
    rw [Inline] at inline
    rw [Carries]
    exact inline.carriesAll body
  | .inlineFragment _ _, inline => by
    rw [Inline] at inline
    rw [Carries]
    exact inline.carriesAll body
  | .fragmentSpread _ _ _, inline => (not_inline_spread inline).elim

/-- In a selection set without spreads no body of a fragment matters. -/
theorem InlineAll.carriesAll (body : String → String × List Selection) :
    {selections : List Selection} → InlineAll selections → CarriesAll body selections
  | [], _ => by
    rw [CarriesAll]
    trivial
  | _ :: _, inline => by
    rw [InlineAll] at inline
    rw [CarriesAll]
    exact ⟨inline.1.carries body, inline.2.carriesAll body⟩

end

mutual

/-- The sub-selections of what a selection without spreads selects are without spreads. -/
theorem Inline.of_mem_flatten {typeName : String} {field : Field} :
    {selection : Selection} → selection.Inline → field ∈ selection.flatten typeName →
      InlineAll field.selections
  | .field _ _ _ _, inline, member => by
    rw [flatten, List.mem_singleton] at member
    subst member
    rwa [Inline] at inline
  | .inlineFragment _ _, inline, member => by
    rw [Inline] at inline
    rw [flatten] at member
    split at member
    · exact inline.of_mem_flattenAll member
    · cases member
  | .fragmentSpread _ _ _, inline, _ => (not_inline_spread inline).elim

/-- The sub-selections of what is selected are written with inline fragments too. -/
theorem InlineAll.of_mem_flattenAll {typeName : String} {field : Field} :
    {selections : List Selection} → InlineAll selections → field ∈ flattenAll typeName selections →
      InlineAll field.selections
  | [], _, member => by cases member
  | _ :: _, inline, member => by
    rw [InlineAll] at inline
    rw [flattenAll, List.mem_append] at member
    rcases member with member | member
    · exact inline.1.of_mem_flatten member
    · exact inline.2.of_mem_flattenAll member

end

end Inline

end Selection

/-- From a selection set without spreads all fields are collected. -/
theorem Selection.InlineAll.collectFields_eq {typeName : String} {selections : List Selection}
    (inline : InlineAll selections) :
    collectFields typeName selections = FieldGroup.ofFields (flattenAll typeName selections) := by
  have written : (flattenAll typeName selections).map Field.expand =
      flattenAll typeName selections := by
    refine (List.map_congr_left fun field member => ?_).trans (List.map_id _)
    rw [Field.expand, (inline.of_mem_flattenAll member).expandAll_eq]
    rfl
  have collected := Collected.groups_addAll_expandAll typeName {} selections
  rw [inline.expandAll_eq, written] at collected
  exact collected

/-- Whether a field may have sub-selections depends on whether it has some. -/
theorem Schema.checkSelection_congr (schema : Schema) (definition : FieldDefinition)
    {selections selections' : List Selection} (same : selections.isEmpty = selections'.isEmpty) :
    schema.checkSelection definition selections = schema.checkSelection definition selections' := by
  unfold checkSelection
  cases selections with
  | nil =>
    cases selections' with
    | nil => rfl
    | cons => cases same
  | cons =>
    cases selections' with
    | nil => cases same
    | cons => split <;> simp_all

namespace ExecutionScope

variable {scope : ExecutionScope}

/-- What a value does depends only on what becomes of objects of its own type. -/
theorem complete_congr {field : FieldName} {object object' : ObjectType → Json → Path → Plan}
    {type : TypeRef}
    (below : ∀ inner, scope.schema.object? type.innermost = some inner → object inner = object' inner)
    (value : Json) (path : Path) :
    scope.complete field object type value path = scope.complete field object' type value path := by
  induction type generalizing value path with
  | builtin scalar => cases value <;> rfl
  | named name =>
    have own : ∀ inner, scope.schema.type? name = some (.object inner) →
        object inner = object' inner := fun inner found =>
      below inner (by rw [TypeRef.innermost, Schema.object?, found])
    cases value with
    | null => rfl
    | _ =>
      simp only [complete]
      split
      · rw [own _ ‹_›]
      all_goals rfl
  | list item ih =>
    cases value with
    | array values =>
      rw [complete, complete]
      congr 2
      funext i value
      rw [ih below]
    | _ => rfl
  | nonNull inner ih => rw [complete, complete, ih below]

/-- What follows a call depends only on what becomes of objects of its type. -/
theorem afterCall_congr {field : FieldName} {object object' : ObjectType → Json → Path → Plan}
    {type : TypeRef}
    (below : ∀ inner, scope.schema.object? type.innermost = some inner → object inner = object' inner)
    (path : Path) :
    scope.afterCall field object type path = scope.afterCall field object' type path := by
  funext outcome
  cases outcome with
  | value value => simp only [afterCall, completeValue, complete_congr below]
  | failed | timedOut | unbound | aborted => rfl

/-- What a group does depends on its key, the name and the arguments of its first field, and what
its sub-selections do to objects of the type of that field. -/
theorem fieldPlan_congr {nested nested' : List Selection → ObjectType → Json → Path → Plan}
    {group group' : FieldGroup} (key : group.key = group'.key)
    (name : group.first.name = group'.first.name)
    (arguments : group.first.arguments = group'.first.arguments)
    (empty : group.selections.isEmpty = group'.selections.isEmpty) {type : ObjectType}
    (below : ∀ definition inner, type.field? group.first.name = some definition →
      scope.schema.object? definition.type.innermost = some inner →
        nested group.selections inner = nested' group'.selections inner)
    (parent : Json) (path : Path) :
    scope.fieldPlan nested type parent path group =
      scope.fieldPlan nested' type parent path group' := by
  unfold fieldPlan
  simp only [← key, ← name, ← arguments, ← scope.schema.checkSelection_congr _ empty]
  split
  · rfl
  · cases declared : type.field? group.first.name with
    | none => rfl
    | some definition => simp only [afterCall_congr fun inner => below definition inner declared]

/-- A selection set does the same when its spreads are written out, and also when it leaves out
repetitions besides. -/
theorem selectionPlan_expandAll {body : String → String × List Selection} (depth : Nat)
    (serial : Bool) {selections full : List Selection} (carries : Selection.CarriesAll body full)
    (repeats : Repeats [] selections full) :
    scope.selectionPlan depth serial selections =
      scope.selectionPlan depth serial (Selection.expandAll full) := by
  induction depth generalizing serial selections full with
  | zero => rfl
  | succ depth ih =>
    funext type parent path
    have standing := forall₂_collectFields type.name carries repeats
    rw [selectionPlan, selectionPlan, collectFields_expandAll, List.map_map, List.map_map]
    congr 1
    · refine map_eq_map_of_forall₂ (fun group other standsFor => ?_) standing
      have key : group.key = other.expand.key := standsFor.key
      refine fieldPlan_congr key ?_ ?_ ?_ (fun _ inner _ _ => ?_) _ _
      · rw [standsFor.first]
        rfl
      · rw [standsFor.first]
        rfl
      · rw [FieldGroup.selections_expand, Selection.expandAll_eq_map, List.isEmpty_map]
        exact standsFor.repeats.isEmpty_eq
      · rw [FieldGroup.selections_expand, ih _ standsFor.carries standsFor.repeats]
    · exact congrArg _ (map_eq_map_of_forall₂ (fun _ _ standsFor => standsFor.key) standing)

end ExecutionScope

/-- What an operation does is the same when its spreads are written out. -/
theorem Operation.plan_expand {body : String → String × List Selection} {operation : Operation}
    (carries : Selection.CarriesAll body operation.selections) (schema : Schema) (parallel : Bool)
    (values : Json.Object) (rootType : ObjectType) :
    operation.plan schema parallel values rootType =
      { operation with selections := Selection.expandAll operation.selections }.plan schema parallel
        values rootType := by
  unfold plan
  simp only [Selection.depthAll_expandAll]
  rw [ExecutionScope.selectionPlan_expandAll _ _ carries (.refl _ _)]

end GraphQL
