import GraphQL.Proofs.Positions.Divergence
import GraphQL.Proofs.Positions.ErrorAccounting

/-!
# The order of calls

Read from the first part to the last, the plan of an operation has its calls in the order of the
document: what follows a call lies below it, and of calls that diverge the one that takes the step
to the earlier part comes first (`Marking.pairwise_calls_root`). The keys of an object are in the
order of its selections, the items of a list in that of their indices.
-/

set_option autoImplicit false

namespace GraphQL

namespace Position

/-- Depth-first, the position at one path comes before that at another one. Both paths go on from
that of the whole position. -/
def Leads (position : Position) (base first second : Path) : Prop :=
  first.Below second ∨ ∃ path path', first = base ++ path ∧ second = base ++ path' ∧
    position.Precedes path path'

/-- Paths that are in order inside a part are in order in the whole. -/
theorem Leads.inside {position part : Position} {step : PathElement} {base first second : Path}
    (hpart : position.part? step = some part) (h : part.Leads (base.join step) first second) :
    position.Leads base first second := by
  rcases h with below | ⟨path, path', rfl, rfl, precedes⟩
  · exact Or.inl below
  · refine Or.inr ⟨step :: path, step :: path', ?_, ?_, precedes.cons hpart⟩ <;> simp [Path.join]

/-- What is in an earlier part comes before what is in a later one. -/
theorem Leads.across {position : Position} {step step' : PathElement} {i j : Nat}
    {base first second : Path} (hi : position.index? step = some i)
    (hj : position.index? step' = some j) (less : i < j) (hfirst : base.join step <+: first)
    (hsecond : base.join step' <+: second) : position.Leads base first second := by
  obtain ⟨rest, rfl⟩ := hfirst
  obtain ⟨rest', rfl⟩ := hsecond
  refine Or.inr ⟨step :: rest, step' :: rest', by simp [Path.join], by simp [Path.join], ?_⟩
  exact ⟨[], position, step, step', i, j, rfl, hi, hj, less, ⟨rest, rfl⟩, ⟨rest', rfl⟩⟩

/-- The calls are in the order of a position. -/
def Orders (position : Position) (base : Path) (calls : List Call) : Prop :=
  calls.Pairwise fun first second => position.Leads base first.path second.path

/-- The calls of the parts of a position, one part after the other, are in its order. -/
theorem Orders.inner {base : Path} {nonNull : Bool} {shape : Shape} {parts : List Position}
    {plans : List Plan} {outcome : Call → Outcome} (fits : shape.Fits parts.length)
    (length : plans.length = parts.length)
    (each : ∀ (i : Nat) (step : PathElement) (part : Position) (plan : Plan),
      shape.index? step = some i → parts[i]? = some part → plans[i]? = some plan →
        plan.Descends true (base.join step) ∧
          part.Orders (base.join step) (plan.calls outcome)) :
    (Position.inner nonNull shape parts).Orders base (plans.flatMap (·.calls outcome)) := by
  -- the step to a part, and what is known of the plan in its place
  have step_at : ∀ i (hi : i < plans.length), ∃ step part, shape.index? step = some i ∧
      (Position.inner nonNull shape parts).part? step = some part ∧
      plans[i].Descends true (base.join step) ∧
      part.Orders (base.join step) (plans[i].calls outcome) := by
    intro i hi
    have hparts : i < parts.length := length ▸ hi
    obtain ⟨step, hstep⟩ := Shape.exists_step fits hparts
    have hpart := List.getElem?_eq_getElem hparts
    exact ⟨step, parts[i], hstep, Option.bind_eq_some_iff.2 ⟨i, hstep, hpart⟩,
      each i step _ _ hstep hpart (List.getElem?_eq_getElem hi)⟩
  rw [Orders, List.pairwise_flatMap]
  constructor
  · intro plan member
    obtain ⟨i, hi, rfl⟩ := List.getElem_of_mem member
    obtain ⟨step, part, -, hpart, -, ordered⟩ := step_at i hi
    exact ordered.imp fun leads => leads.inside hpart
  · rw [List.pairwise_iff_getElem]
    intro i j hi hj less first hfirst second hsecond
    obtain ⟨step, _, hstep, -, descends, -⟩ := step_at i hi
    obtain ⟨step', _, hstep', -, descends', -⟩ := step_at j hj
    exact .across hstep hstep' less (descends.mem_calls hfirst) (descends'.mem_calls hsecond)

end Position

namespace Marking

/-- Completing a value makes its calls in the order of its position. -/
theorem orders_ofValue (m : Marking) (parallel : Bool) (field : FieldName)
    {nested : Bool → ObjectType → Json → Path → Position} {object : ObjectType → Json → Path → Plan}
    (below : ∀ type value path, (object type value path).Descends false path)
    (hobject : ∀ nonNull type value path, (nested nonNull type value path).Orders path
      ((object type value path).calls m.outcome))
    (nonNull : Bool) (type : TypeRef) (value : Json) (path : Path) :
    (m.ofValue field nested nonNull type value path).Orders path
      (((m.scope parallel).complete field object type value path).calls m.outcome) := by
  fun_induction Marking.ofValue m field nested nonNull type value path with
  | case1 nonNull inner value path ih =>
    rw [ExecutionScope.complete, Plan.calls_map]
    exact ih
  | case4 nonNull item values path ih =>
    rw [ExecutionScope.complete, Plan.calls, Plan.callsAll_eq_flatMap]
    refine .inner trivial (by simp) ?_
    intro i step part plan hstep hpart hplan
    cases step with
    | key name => cases hstep
    | index j =>
      cases hstep
      rw [List.getElem?_mapIdx] at hpart hplan
      obtain ⟨value, hvalue, rfl⟩ := Option.map_eq_some_iff.1 hpart
      rw [hvalue] at hplan
      cases hplan
      -- the calls of an item are at and below its own path, which is that of no other item
      have descends : ((m.scope parallel).complete field object item value
          (path.join (.index i))).Descends false (path.join (.index i)) :=
        ExecutionScope.descends_complete below item value (path.join (.index i))
      simp only
      split
      · exact ⟨descends.own, ih i value⟩
      · rw [Plan.calls_map]
        exact ⟨descends.own.map _, ih i value⟩
  | case8 nonNull name path type members htype =>
    have plan : (m.scope parallel).complete field object (.named name) (.object members) path =
        object type (.object members) path := by
      simp only [ExecutionScope.complete, scope, htype]
    rw [plan]
    exact hobject nonNull type _ path
  | _ => simp_all [ExecutionScope.complete, scope, Plan.calls, Position.Orders]

/-- The calls that follow an outcome are in the order of their positions. -/
theorem orders_ofOutcome (m : Marking) (parallel : Bool) (field : FieldName)
    {nested : Bool → ObjectType → Json → Path → Position} {object : ObjectType → Json → Path → Plan}
    (below : ∀ type value path, (object type value path).Descends false path)
    (hobject : ∀ nonNull type value path, (nested nonNull type value path).Orders path
      ((object type value path).calls m.outcome))
    (type : TypeRef) (path : Path) (outcome : Outcome) :
    (m.ofOutcome field nested type path outcome).Orders path
      (((m.scope parallel).afterCall field object type path outcome).calls m.outcome) := by
  cases outcome with
  | value value =>
    have ordered := m.orders_ofValue parallel field below hobject false type value path
    simp only [ExecutionScope.afterCall, ExecutionScope.completeValue]
    split
    · exact ordered
    · rw [Plan.calls_map]
      exact ordered
  | failed | timedOut | unbound | aborted => exact List.Pairwise.nil

/-- The call of a field comes before those for its value. -/
theorem orders_ofField (m : Marking) (parallel : Bool)
    {nested : List Selection → ObjectType → Json → Path → Plan} {type : ObjectType} {parent : Json}
    {path : Path} {group : FieldGroup}
    (below : ∀ type value path, (nested group.selections type value path).Descends false path)
    (hnested : ∀ nonNull type value path, (m.ofObject group.selections nonNull type value path).Orders
      path ((nested group.selections type value path).calls m.outcome)) :
    (m.ofField (m.ofObject group.selections) type parent path group).Orders
      (path.join (.key group.key))
      (((m.scope parallel).fieldPlan nested type parent path group).calls m.outcome) := by
  unfold ExecutionScope.fieldPlan ofField
  by_cases isTypename : (group.first.name == "__typename") = true
  · rw [if_pos isTypename, if_pos isTypename]
    exact List.Pairwise.nil
  rw [if_neg isTypename, if_neg isTypename]
  cases hdefinition : type.field? group.first.name with
  | none => exact List.Pairwise.nil
  | some definition =>
    cases hcheck : m.schema.checkSelection definition group.selections with
    | some cause =>
      simp only [scope, hcheck]
      exact List.Pairwise.nil
    | none =>
      cases harguments : Coercion.coerceArguments m.schema m.vars type.name definition
          group.first.arguments with
      | error cause =>
        simp only [scope, hcheck, harguments]
        exact List.Pairwise.nil
      | ok arguments =>
        simp only [scope, hcheck, harguments, Plan.calls]
        refine List.pairwise_cons.2 ⟨fun call member => Or.inl ?_, ?_⟩
        · exact (ExecutionScope.descends_afterCall below _ _ _).mem_calls member
        · exact m.orders_ofOutcome parallel _ below hnested _ _ _

/-- The calls of an object are in the order of their positions. -/
theorem orders_ofObject (m : Marking) (parallel serial : Bool) (depth : Nat)
    (selections : List Selection) (nonNull : Bool) (type : ObjectType) (value : Json)
    (path : Path) : (m.ofObject selections nonNull type value path).Orders path
      (((m.scope parallel).selectionPlan depth serial selections type value path).calls
        m.outcome) := by
  induction depth generalizing serial selections nonNull type value path with
  | zero => exact List.Pairwise.nil
  | succ depth ih =>
    rw [ExecutionScope.selectionPlan, Plan.calls, Plan.callsAll_eq_flatMap, ofObject_eq]
    have keys := nodup_keys_collectFields type.name selections
    have descends : ∀ selections type value path, ((m.scope parallel).selectionPlan depth
        (!(m.scope parallel).parallel) selections type value path).Descends false path :=
      ExecutionScope.descends_selectionPlan depth _
    refine .inner ⟨keys, by simp⟩ (by simp) ?_
    intro i step part plan hstep hpart hplan
    cases step with
    | index j => cases hstep
    | key key =>
      rw [List.getElem?_map] at hpart hplan
      obtain ⟨group, hgroup, rfl⟩ := Option.map_eq_some_iff.1 hpart
      rw [hgroup] at hplan
      cases hplan
      have hkey := (Shape.index?_fields_iff keys).1 hstep
      rw [List.getElem?_map, hgroup] at hkey
      cases hkey
      exact ⟨ExecutionScope.descends_fieldPlan descends type value path group,
        m.orders_ofField parallel (descends group.selections) (ih _ group.selections)⟩

/-- The plan of an operation has its calls depth-first in the order of the document. -/
theorem pairwise_calls_root (schema : Schema) (operation : Operation) (values : Json.Object)
    (outcome : Call → Outcome) (rootType : ObjectType) (parallel : Bool) :
    ((operation.plan schema parallel values rootType).calls outcome).Pairwise fun first second =>
      first.path.Below second.path ∨
        (root { schema, vars := { definitions := operation.variableDefinitions, values }, outcome }
          operation rootType).Precedes first.path second.path := by
  have ordered := orders_ofObject
    { schema, vars := { definitions := operation.variableDefinitions, values }, outcome } parallel
    (operation.kind == .mutation || !parallel) (Selection.depthAll operation.selections)
    operation.selections true rootType .null []
  refine ordered.imp ?_
  rintro first second (below | ⟨path, path', hfirst, hsecond, precedes⟩)
  · exact Or.inl below
  · rw [List.nil_append] at hfirst hsecond
    exact Or.inr (hfirst ▸ hsecond ▸ precedes)

end Marking

end GraphQL
