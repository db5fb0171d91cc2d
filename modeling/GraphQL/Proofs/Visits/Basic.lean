import GraphQL.Proofs.Positions.CallPaths
import GraphQL.Proofs.Positions.Marking
import Mathlib.Data.Set.Finite.Lattice
import Mathlib.Logic.Relation

/-!
# Visits

The steps of an execution: an object is visited with the selections that are made of it, then each
of its fields, the value that the resolver of a field ends with, the items of a list, and the
objects inside. The visits of an operation are those that its root leads to.

Neither the types nor the values bound the visits, since types may refer to themselves and resolvers
may return ever new objects. What is left of the selections does: a field nests less deep than the
selections of which it is collected. So no visit leads on for ever, there are finitely many, and
their paths go through no more fields than the operation nests. The calls of an operation are those
that its visits make (`Operation.mem_calls_plan_iff`).
-/

set_option autoImplicit false

namespace GraphQL

open Relation (ReflTransGen)

/-- A step of an execution: an object with the selections that are made of it, a field of an object,
or a value that a field has and that is completed at a type, with the selections that are made of
the objects in it. -/
inductive Visit where
  | object (selections : List Selection) (type : ObjectType) (parent : Json) (path : Path)
  | field (type : ObjectType) (parent : Json) (parentPath : Path) (group : FieldGroup)
  | value (field : FieldName) (selections : List Selection) (type : TypeRef) (value : Json)
      (path : Path)

namespace Path

/-- Through how many fields a path goes. -/
def fieldDepth (path : Path) : Nat :=
  path.countP fun
    | .key _ => true
    | .index _ => false

/-- The root is inside no field. -/
@[simp] theorem fieldDepth_nil : fieldDepth [] = 0 := rfl

/-- A response key leads into one more field. -/
@[simp] theorem fieldDepth_join_key (path : Path) (name : String) :
    (path.join (.key name)).fieldDepth = path.fieldDepth + 1 := by
  simp [fieldDepth, join]

/-- The items of a list are inside as many fields as the list is. -/
@[simp] theorem fieldDepth_join_index (path : Path) (i : Nat) :
    (path.join (.index i)).fieldDepth = path.fieldDepth := by
  simp [fieldDepth, join]

end Path

namespace Visit

/-- The place of a visit in the response. -/
def path : Visit → Path
  | object _ _ _ path => path
  | field _ _ parentPath group => parentPath.join (.key group.key)
  | value _ _ _ _ path => path

/-- The selections that are left below a visit. -/
def selections : Visit → List Selection
  | object selections _ _ _ => selections
  | field _ _ _ group => group.selections
  | value _ selections _ _ _ => selections

end Visit

/-- How many lists and non-null markers a type has around its innermost one. -/
def TypeRef.wrappers : TypeRef → Nat
  | builtin _ | named _ => 0
  | list item => item.wrappers + 1
  | nonNull inner => inner.wrappers + 1

namespace Marking

variable {m : Marking}

/-- The declaration of a field that is selected, and the call for its value. There is none for the
name of the type, for a field that is not declared or whose sub-selections do not fit, and if the
arguments cannot be read. -/
def request? (m : Marking) (type : ObjectType) (parent : Json) (parentPath : Path)
    (group : FieldGroup) : Option (FieldDefinition × Call) :=
  if group.first.name == "__typename" then none
  else
    match type.field? group.first.name with
    | none => none
    | some definition =>
      match m.schema.checkSelection definition group.selections,
        Coercion.coerceArguments m.schema m.vars type.name definition group.first.arguments with
      | none, .ok arguments =>
        some (definition, { parent, arguments, path := parentPath.join (.key group.key),
                            typeName := type.name, fieldName := group.first.name })
      | _, _ => none

/-- A visit makes a call. -/
inductive Makes (m : Marking) : Visit → Call → Prop
  | field {type : ObjectType} {parent : Json} {path : Path} {group : FieldGroup}
    {definition : FieldDefinition} {call : Call}
    (h : m.request? type parent path group = some (definition, call)) :
    Makes m (.field type parent path group) call

/-- A visit leads to another one. -/
inductive Leads (m : Marking) : Visit → Visit → Prop
  | field {selections : List Selection} {type : ObjectType} {parent : Json} {path : Path}
    {group : FieldGroup} (h : group ∈ collectFields type.name selections) :
    Leads m (.object selections type parent path) (.field type parent path group)
  | outcome {type : ObjectType} {parent : Json} {path : Path} {group : FieldGroup}
    {definition : FieldDefinition} {call : Call} {value : Json}
    (h : m.request? type parent path group = some (definition, call))
    (returned : m.outcome call = .value value) :
    Leads m (.field type parent path group)
      (.value { typeName := type.name, fieldName := group.first.name } group.selections
        definition.type value call.path)
  | nonNull {field : FieldName} {selections : List Selection} {inner : TypeRef} {value : Json} {path : Path} :
    Leads m (.value field selections (.nonNull inner) value path)
      (.value field selections inner value path)
  | item {field : FieldName} {selections : List Selection} {item : TypeRef} {values : List Json}
    {path : Path} {i : Nat} {value : Json} (h : values[i]? = some value) :
    Leads m (.value field selections (.list item) (.array values) path)
      (.value field selections item value (path.join (.index i)))
  | object {field : FieldName} {selections : List Selection} {name : String} {type : ObjectType}
    {members : Json.Object} {path : Path} (h : m.schema.type? name = some (.object type)) :
    Leads m (.value field selections (.named name) (.object members) path)
      (.object selections type (.object members) path)

/-- A visit leads to another one in some number of steps. -/
abbrev Reaches (m : Marking) : Visit → Visit → Prop :=
  ReflTransGen m.Leads

/-- The visits of an operation. -/
def Visits (m : Marking) (operation : Operation) (rootType : ObjectType) (visit : Visit) : Prop :=
  m.Reaches (.object operation.selections rootType .null []) visit

/-- The call for a field is made at the path of the field. -/
theorem path_of_request? {type : ObjectType} {parent : Json} {path : Path} {group : FieldGroup}
    {definition : FieldDefinition} {call : Call}
    (h : m.request? type parent path group = some (definition, call)) :
    call.path = path.join (.key group.key) := by
  unfold request? at h
  split at h
  · cases h
  · split at h
    · cases h
    · split at h
      · cases h
        rfl
      · cases h

/-- A call has the path of the visit that makes it. -/
theorem Makes.path {visit : Visit} {call : Call} (h : m.Makes visit call) :
    call.path = visit.path := by
  cases h with
  | field h => exact path_of_request? h

/-- A visit makes one call at most. -/
theorem Makes.unique {visit : Visit} {call other : Call} (h : m.Makes visit call)
    (h' : m.Makes visit other) : call = other := by
  cases h with
  | field h =>
    cases h' with
    | field h' =>
      rw [h] at h'
      cases h'
      rfl

section Bounds

/-- The order in which visits with the same selections lead to each other. -/
def rank : Visit → Nat × Nat
  | .field _ _ _ _ => (2, 0)
  | .value _ _ type _ _ => (1, type.wrappers)
  | .object _ _ _ _ => (0, 0)

/-- What decreases from one visit to the next: the depth of the selections, and where they stay the
same the kind of the visit and the type of the value. -/
def measure (visit : Visit) : Nat × Nat × Nat :=
  (Selection.depthAll visit.selections, rank visit)

/-- No visit leads on for ever, whatever the schema is and whatever the calls end with. -/
theorem wellFounded_leads (m : Marking) : WellFounded fun later earlier => m.Leads earlier later := by
  have decreasing : Subrelation (fun later earlier => m.Leads earlier later)
      (InvImage (Prod.Lex (· < ·) (Prod.Lex (· < ·) (· < ·))) measure) := by
    intro later earlier leads
    cases leads with
    | field h => exact .left _ _ (depthAll_lt_of_mem_collectFields h)
    | outcome => exact .right _ (.left _ _ (by decide))
    | nonNull => exact .right _ (.right _ (Nat.lt_succ_self _))
    | item => exact .right _ (.right _ (Nat.lt_succ_self _))
    | object => exact .right _ (.left _ _ (by decide))
  have order : WellFounded (Prod.Lex (· < ·) (Prod.Lex (· < ·) (· < ·)) :
      Nat × Nat × Nat → Nat × Nat × Nat → Prop) :=
    WellFounded.prod_lex wellFounded_lt (WellFounded.prod_lex wellFounded_lt wellFounded_lt)
  exact decreasing.wf (InvImage.wf measure order)

/-- A visit leads to finitely many others. -/
theorem finite_leads (m : Marking) (visit : Visit) : {next | m.Leads visit next}.Finite := by
  cases visit with
  | object selections type parent path =>
    refine (((collectFields type.name selections).map
      (Visit.field type parent path)).finite_toSet).subset ?_
    rintro next ⟨h⟩
    exact List.mem_map_of_mem h
  | field type parent path group =>
    -- a call has one outcome, so that a field leads to one value at most
    refine Set.Subsingleton.finite fun first hfirst second hsecond => ?_
    cases hfirst with
    | outcome h returned =>
      cases hsecond with
      | outcome h' returned' =>
        rw [h] at h'
        cases h'
        rw [returned] at returned'
        cases returned'
        rfl
  | value field selections type value path =>
    cases type with
    | builtin scalar =>
      refine Set.finite_empty.subset ?_
      rintro next ⟨⟩
    | nonNull inner =>
      refine (Set.finite_singleton (Visit.value field selections inner value path)).subset ?_
      rintro next ⟨⟩
      rfl
    | named name =>
      refine Set.Subsingleton.finite fun first hfirst second hsecond => ?_
      cases hfirst with
      | object h =>
        cases hsecond with
        | object h' =>
          rw [h] at h'
          cases h'
          rfl
    | list item =>
      cases value with
      | array values =>
        refine ((values.mapIdx fun i value =>
          Visit.value field selections item value (path.join (.index i))).finite_toSet).subset ?_
        intro next leads
        cases leads with
        | @item _ _ _ _ _ i _ h =>
          exact List.mem_iff_getElem?.2 ⟨i, by rw [List.getElem?_mapIdx, h, Option.map_some]⟩
      | _ =>
        refine Set.finite_empty.subset ?_
        rintro next ⟨⟩

/-- A visit leads to finitely many others in all. -/
theorem finite_reaches (m : Marking) (visit : Visit) : {later | m.Reaches visit later}.Finite := by
  induction visit using (m.wellFounded_leads).induction with
  | h visit ih =>
    have below : (⋃ next ∈ {next | m.Leads visit next}, {later | m.Reaches next later}).Finite :=
      (m.finite_leads visit).biUnion fun next leads => ih next leads
    refine (below.insert visit).subset ?_
    intro later reached
    rcases ReflTransGen.cases_head reached with rfl | ⟨next, leads, onwards⟩
    · exact Set.mem_insert _ _
    · exact Set.mem_insert_of_mem _ (Set.mem_biUnion leads onwards)

/-- From one visit to the next, the fields on the path and those that the selections still nest
become no more. -/
theorem fieldDepth_add_le_of_leads {earlier later : Visit} (leads : m.Leads earlier later) :
    later.path.fieldDepth + Selection.depthAll later.selections ≤
      earlier.path.fieldDepth + Selection.depthAll earlier.selections := by
  cases leads with
  | field h =>
    have deeper := depthAll_lt_of_mem_collectFields h
    simp only [Visit.path, Visit.selections, Path.fieldDepth_join_key]
    omega
  | outcome h =>
    simp only [Visit.path, Visit.selections, path_of_request? h]
    exact Nat.le_refl _
  | item =>
    simp only [Visit.path, Visit.selections, Path.fieldDepth_join_index]
    exact Nat.le_refl _
  | nonNull | object => exact Nat.le_refl _

/-- On the way from a visit to another one, paths get no deeper than the selections that are left
get shallower. -/
theorem fieldDepth_add_le_of_reaches {earlier later : Visit} (reaches : m.Reaches earlier later) :
    later.path.fieldDepth + Selection.depthAll later.selections ≤
      earlier.path.fieldDepth + Selection.depthAll earlier.selections := by
  induction reaches with
  | refl => exact Nat.le_refl _
  | tail _ leads ih => exact (fieldDepth_add_le_of_leads leads).trans ih

/-- The path of a visit goes through no more fields than the operation nests. -/
theorem Visits.fieldDepth_le {operation : Operation} {rootType : ObjectType} {visit : Visit}
    (visited : m.Visits operation rootType visit) :
    visit.path.fieldDepth ≤ Selection.depthAll operation.selections := by
  have bound : visit.path.fieldDepth + Selection.depthAll visit.selections ≤
      0 + Selection.depthAll operation.selections := fieldDepth_add_le_of_reaches visited
  omega

end Bounds

section Calls

variable {selections : List Selection} {path : Path} {call : Call}

/-- A call is made by a visit or by one that it reaches. -/
def Calls (m : Marking) (visit : Visit) (call : Call) : Prop :=
  ∃ later, m.Reaches visit later ∧ m.Makes later call

/-- The calls below a visit are its own and those below the visits that it leads to. -/
theorem calls_iff {visit : Visit} :
    m.Calls visit call ↔ m.Makes visit call ∨ ∃ next, m.Leads visit next ∧ m.Calls next call := by
  constructor
  · rintro ⟨later, reached, makes⟩
    rcases ReflTransGen.cases_head reached with rfl | ⟨next, leads, onwards⟩
    · exact .inl makes
    · exact .inr ⟨next, leads, later, onwards, makes⟩
  · rintro (makes | ⟨next, leads, later, onwards, makes⟩)
    · exact ⟨visit, .refl, makes⟩
    · exact ⟨later, .head leads onwards, makes⟩

/-- The calls below an object are those below its fields. -/
theorem calls_object_iff {type : ObjectType} {parent : Json} :
    m.Calls (.object selections type parent path) call ↔
      ∃ group ∈ collectFields type.name selections,
        m.Calls (.field type parent path group) call := by
  rw [calls_iff]
  constructor
  · rintro (makes | ⟨next, leads, calls⟩)
    · cases makes
    · cases leads with
      | field h => exact ⟨_, h, calls⟩
  · rintro ⟨group, h, calls⟩
    exact .inr ⟨_, .field h, calls⟩

/-- The calls below a field are its own, and those below the value that it ends with. -/
theorem calls_field_iff {type : ObjectType} {parent : Json} {group : FieldGroup} :
    m.Calls (.field type parent path group) call ↔
      ∃ definition own, m.request? type parent path group = some (definition, own) ∧
        (call = own ∨ ∃ value, m.outcome own = .value value ∧
          m.Calls (.value { typeName := type.name, fieldName := group.first.name }
            group.selections definition.type value own.path) call) := by
  rw [calls_iff]
  constructor
  · rintro (makes | ⟨next, leads, calls⟩)
    · cases makes with
      | field h => exact ⟨_, _, h, .inl rfl⟩
    · cases leads with
      | outcome h returned => exact ⟨_, _, h, .inr ⟨_, returned, calls⟩⟩
  · rintro ⟨definition, own, h, rfl | ⟨value, returned, calls⟩⟩
    · exact .inl (.field h)
    · exact .inr ⟨_, .outcome h returned, calls⟩

/-- The calls below a value are those below the visits that it leads to; it makes none itself. -/
theorem calls_value_iff {field : FieldName} {type : TypeRef} {value : Json} :
    m.Calls (.value field selections type value path) call ↔
      ∃ next, m.Leads (.value field selections type value path) next ∧ m.Calls next call := by
  rw [calls_iff]
  constructor
  · rintro (makes | further)
    · cases makes
    · exact further
  · exact .inr

/-- The calls of a group with a part for each value are those of the parts, whether or not these
take up a null. -/
theorem mem_calls_items_iff {serial nonNull : Bool} {part : Nat → Json → Plan}
    {finish : List Completion → Completion} {values : List Json} {outcome : Call → Outcome} :
    call ∈ (Plan.group serial
      (values.mapIdx fun i value => if nonNull then part i value else (part i value).map .absorb)
      finish).calls outcome ↔
        ∃ i value, values[i]? = some value ∧ call ∈ (part i value).calls outcome := by
  have same : ∀ i value, (if nonNull then part i value else (part i value).map .absorb).calls outcome =
      (part i value).calls outcome := by
    intro i value
    split
    · rfl
    · exact Plan.calls_map _ _ _
  rw [Plan.calls, Plan.callsAll_eq_flatMap, List.mem_flatMap]
  constructor
  · rintro ⟨plan, member, made⟩
    obtain ⟨i, hi⟩ := List.mem_iff_getElem?.1 member
    rw [List.getElem?_mapIdx] at hi
    obtain ⟨value, hvalue, rfl⟩ := Option.map_eq_some_iff.1 hi
    rw [same] at made
    exact ⟨i, value, hvalue, made⟩
  · rintro ⟨i, value, hvalue, made⟩
    refine ⟨_, List.mem_iff_getElem?.2 ⟨i, ?_⟩, (same i value).symm ▸ made⟩
    rw [List.getElem?_mapIdx, hvalue, Option.map_some]

/-- A visit that leads nowhere has no calls below it, as a plan that is done has none. -/
theorem mem_calls_done_iff {visit : Visit} (last : ∀ next, ¬ m.Leads visit next)
    {completion : Completion} {outcome : Call → Outcome} :
    call ∈ (Plan.done completion).calls outcome ↔
      ∃ next, m.Leads visit next ∧ m.Calls next call := by
  refine iff_of_false List.not_mem_nil ?_
  rintro ⟨next, leads, -⟩
  exact last next leads

/-- The calls of the plan for a value are those that its visit leads to, if this is so of the
objects in it. -/
theorem mem_calls_complete_iff {parallel : Bool} {field : FieldName}
    {object : ObjectType → Json → Path → Plan}
    (hobject : ∀ type value path, call ∈ (object type value path).calls m.outcome ↔
      m.Calls (.object selections type value path) call) (type : TypeRef) (value : Json)
    (path : Path) :
    call ∈ ((m.scope parallel).complete field object type value path).calls m.outcome ↔
      m.Calls (.value field selections type value path) call := by
  rw [calls_value_iff]
  fun_induction ExecutionScope.complete (m.scope parallel) field object type value path with
  | case1 inner value path ih =>
    rw [Plan.calls_map, ih, ← calls_value_iff]
    constructor
    · exact fun calls => ⟨_, .nonNull, calls⟩
    · rintro ⟨next, ⟨⟩, calls⟩
      exact calls
  | case3 item values path ih =>
    rw [mem_calls_items_iff]
    constructor
    · rintro ⟨i, value, hvalue, made⟩
      exact ⟨_, .item hvalue, calls_value_iff.2 ((ih i value).1 made)⟩
    · rintro ⟨next, leads, calls⟩
      cases leads with
      | @item _ _ _ _ _ i value h => exact ⟨i, value, h, (ih i value).2 (calls_value_iff.1 calls)⟩
  | case7 name path type members htype =>
    have htype : m.schema.type? name = some (.object type) := htype
    rw [hobject]
    constructor
    · exact fun calls => ⟨_, .object htype, calls⟩
    · rintro ⟨next, leads, calls⟩
      cases leads with
      | object h =>
        rw [h] at htype
        cases htype
        exact calls
  -- what remains leads to no other visit, and its plan makes no call
  | case10 name path scalar value htype present =>
    have htype : m.schema.type? name = some (.scalar scalar) := htype
    refine mem_calls_done_iff fun next leads => ?_
    cases leads with
    | object h =>
      rw [h] at htype
      cases htype
  | case11 name path value notObject notEnum notScalar present =>
    refine mem_calls_done_iff fun next leads => ?_
    cases leads with
    | object h => exact notObject _ _ h rfl
  | case2 type path notNonNull =>
    refine mem_calls_done_iff fun next leads => ?_
    cases leads
    exact notNonNull _ rfl
  | case4 item value path present notArray =>
    refine mem_calls_done_iff fun next leads => ?_
    cases leads
    exact notArray _ rfl
  | case5 | case6 | case8 | case9 =>
    refine mem_calls_done_iff fun next leads => ?_
    cases leads

/-- The calls after a call are those for the value that it ended with. -/
theorem mem_calls_afterCall_iff {parallel : Bool} {field : FieldName}
    {object : ObjectType → Json → Path → Plan}
    (hobject : ∀ type value path, call ∈ (object type value path).calls m.outcome ↔
      m.Calls (.object selections type value path) call) (type : TypeRef) (path : Path)
    (outcome : Outcome) :
    call ∈ ((m.scope parallel).afterCall field object type path outcome).calls m.outcome ↔
      ∃ value, outcome = .value value ∧ m.Calls (.value field selections type value path) call := by
  cases outcome with
  | value value =>
    have completed : ((m.scope parallel).completeValue field object type value path).calls
        m.outcome = ((m.scope parallel).complete field object type value path).calls m.outcome := by
      unfold ExecutionScope.completeValue
      simp only
      split
      · rfl
      · exact Plan.calls_map _ _ _
    rw [ExecutionScope.afterCall, completed, mem_calls_complete_iff hobject]
    simp
  | failed | timedOut | unbound | aborted =>
    refine iff_of_false List.not_mem_nil ?_
    rintro ⟨value, ⟨⟩, -⟩

/-- The plan for a field makes the call that is asked for, or none. -/
theorem fieldPlan_of_request? (m : Marking)
    (nested : List Selection → ObjectType → Json → Path → Plan) (parallel : Bool)
    (type : ObjectType) (parent : Json) (path : Path) (group : FieldGroup) :
    match m.request? type parent path group with
    | some (definition, own) =>
      (m.scope parallel).fieldPlan nested type parent path group =
        .call own ((m.scope parallel).afterCall
          { typeName := type.name, fieldName := group.first.name } (nested group.selections)
          definition.type own.path)
    | none => ∃ completion, (m.scope parallel).fieldPlan nested type parent path group =
        .done completion := by
  unfold request? ExecutionScope.fieldPlan
  by_cases isTypename : (group.first.name == "__typename") = true
  · simp [isTypename]
  · simp only [isTypename, scope]
    cases type.field? group.first.name with
    | none => simp
    | some definition =>
      cases hcheck : m.schema.checkSelection definition group.selections with
      | some cause => simp [hcheck]
      | none =>
        cases harguments : Coercion.coerceArguments m.schema m.vars type.name definition
            group.first.arguments with
        | error cause => simp [hcheck, harguments]
        | ok arguments => simp [hcheck, harguments]

/-- The calls of the plan for a field are the one that is asked for and those for its value. -/
theorem mem_calls_fieldPlan_iff {parallel : Bool}
    {nested : List Selection → ObjectType → Json → Path → Plan} {type : ObjectType} {parent : Json}
    {group : FieldGroup}
    (hnested : ∀ type value path, call ∈ (nested group.selections type value path).calls m.outcome ↔
      m.Calls (.object group.selections type value path) call) :
    call ∈ ((m.scope parallel).fieldPlan nested type parent path group).calls m.outcome ↔
      m.Calls (.field type parent path group) call := by
  have plan := m.fieldPlan_of_request? nested parallel type parent path group
  rw [calls_field_iff]
  cases h : m.request? type parent path group with
  | none =>
    rw [h] at plan
    obtain ⟨completion, plan⟩ := plan
    rw [plan]
    refine iff_of_false List.not_mem_nil ?_
    rintro ⟨definition, own, ⟨⟩, -⟩
  | some found =>
    obtain ⟨definition, own⟩ := found
    rw [h] at plan
    simp only at plan
    rw [plan, Plan.calls, List.mem_cons, mem_calls_afterCall_iff hnested]
    constructor
    · exact fun made => ⟨definition, own, rfl, made⟩
    · rintro ⟨_, _, ⟨⟩, made⟩
      exact made

/-- The calls of the plan for an object are those that its visit leads to. -/
theorem mem_calls_selectionPlan_iff (parallel serial : Bool) {depth : Nat}
    (bounded : Selection.depthAll selections ≤ depth) (type : ObjectType) (value : Json)
    (path : Path) :
    call ∈ ((m.scope parallel).selectionPlan depth serial selections type value path).calls
        m.outcome ↔
      m.Calls (.object selections type value path) call := by
  induction depth generalizing serial selections type value path with
  | zero =>
    rw [calls_object_iff, collectFields_eq_nil type.name (Nat.le_zero.1 bounded)]
    exact iff_of_false List.not_mem_nil (by simp)
  | succ depth ih =>
    have fields : ∀ group ∈ collectFields type.name selections,
        (call ∈ ((m.scope parallel).fieldPlan ((m.scope parallel).selectionPlan depth (!parallel))
            type value path group).calls m.outcome ↔
          m.Calls (.field type value path group) call) := by
      intro group member
      have deeper := depthAll_lt_of_mem_collectFields member
      exact mem_calls_fieldPlan_iff (ih (!parallel) (by omega))
    rw [calls_object_iff, ExecutionScope.selectionPlan, Plan.calls, Plan.callsAll_eq_flatMap,
      List.mem_flatMap]
    constructor
    · rintro ⟨part, member, made⟩
      obtain ⟨group, hgroup, rfl⟩ := List.mem_map.1 member
      exact ⟨group, hgroup, (fields group hgroup).1 made⟩
    · rintro ⟨group, hgroup, calls⟩
      exact ⟨_, List.mem_map_of_mem hgroup, (fields group hgroup).2 calls⟩

end Calls

end Marking

/-- The calls of an operation are those that its visits make. -/
theorem Operation.mem_calls_plan_iff (operation : Operation) (schema : Schema) (parallel : Bool)
    (values : Json.Object) (rootType : ObjectType) (outcome : Call → Outcome) (call : Call) :
    let m : Marking :=
      { schema, vars := { definitions := operation.variableDefinitions, values }, outcome }
    call ∈ (operation.plan schema parallel values rootType).calls outcome ↔
      ∃ visit, m.Visits operation rootType visit ∧ m.Makes visit call := by
  intro m
  exact m.mem_calls_selectionPlan_iff parallel _ (Nat.le_refl _) rootType .null []

end GraphQL
