import GraphQL.Proofs.Positions.Executed

/-!
# What positions depend on

The positions of an operation are marked by the outcomes of the calls that it makes, and by those
alone (`Engine.positions_congr`). So two assignments of outcomes to calls lead to the same positions
if they agree on the calls that are made under one of them; what they say of other calls, with
parents or at paths that do not occur, does not matter.
-/

set_option autoImplicit false

namespace GraphQL

namespace Marking

/-- Markings agree on the calls that a plan makes under the first of them. -/
def Agree (m m' : Marking) (plan : Plan) : Prop :=
  ∀ call ∈ plan.calls m.outcome, m'.outcome call = m.outcome call

variable {m m' : Marking}

/-- A plan whose completion is changed makes the same calls. -/
theorem Agree.of_map {f : Completion → Completion} {plan : Plan} (h : m.Agree m' (plan.map f)) :
    m.Agree m' plan := by
  intro call member
  exact h call (by rwa [Plan.calls_map])

/-- A group makes the calls of its parts. -/
theorem Agree.of_group {serial : Bool} {parts : List Plan} {finish : List Completion → Completion}
    (h : m.Agree m' (.group serial parts finish)) {part : Plan} (member : part ∈ parts) :
    m.Agree m' part := by
  intro call made
  refine h call ?_
  rw [Plan.calls, Plan.callsAll_eq_flatMap]
  exact List.mem_flatMap.2 ⟨part, member, made⟩

/-- A call comes before what follows it. -/
theorem Agree.of_call {call : Call} {next : Outcome → Plan} (h : m.Agree m' (.call call next)) :
    m'.outcome call = m.outcome call ∧ m.Agree m' (next (m.outcome call)) :=
  List.forall_mem_cons.1 h

/-- A value is marked alike where the objects in it are. -/
theorem ofValue_congr (schema : m'.schema = m.schema) (parallel : Bool) (field : FieldName)
    {object object' : Bool → ObjectType → Json → Path → Position}
    {plan : ObjectType → Json → Path → Plan}
    (hobject : ∀ nonNull type value path, m.Agree m' (plan type value path) →
      object' nonNull type value path = object nonNull type value path)
    (nonNull : Bool) (type : TypeRef) (value : Json) (path : Path)
    (agree : m.Agree m' ((m.scope parallel).complete field plan type value path)) :
    m'.ofValue field object' nonNull type value path =
      m.ofValue field object nonNull type value path := by
  fun_induction Marking.ofValue m field object nonNull type value path with
  | case1 nonNull inner value path ih =>
    rw [ExecutionScope.complete] at agree
    rw [Marking.ofValue]
    exact ih agree.of_map
  | case4 nonNull item values path ih =>
    rw [ExecutionScope.complete] at agree
    rw [Marking.ofValue]
    congr 1
    apply List.ext_getElem
    · simp only [List.length_mapIdx]
    · intro i hi _
      rw [List.length_mapIdx] at hi
      rw [List.getElem_mapIdx, List.getElem_mapIdx]
      have part := agree.of_group (List.mem_mapIdx.2 ⟨i, hi, rfl⟩)
      refine ih i values[i] ?_
      dsimp only at part
      split at part
      · exact part
      · exact part.of_map
  | case8 nonNull name path type members htype =>
    have completed : (m.scope parallel).complete field plan (.named name) (.object members) path =
        plan type (.object members) path := by
      simp only [ExecutionScope.complete, scope, htype]
    have marked : m'.ofValue field object' nonNull (.named name) (.object members) path =
        object' nonNull type (.object members) path := by
      simp [Marking.ofValue, schema, htype]
    rw [completed] at agree
    rw [marked]
    exact hobject nonNull type _ path agree
  | _ => simp_all [Marking.ofValue]

/-- What follows a call is marked alike where the objects in its value are. -/
theorem ofOutcome_congr (schema : m'.schema = m.schema) (parallel : Bool) (field : FieldName)
    {object object' : Bool → ObjectType → Json → Path → Position}
    {plan : ObjectType → Json → Path → Plan}
    (hobject : ∀ nonNull type value path, m.Agree m' (plan type value path) →
      object' nonNull type value path = object nonNull type value path)
    (type : TypeRef) (path : Path) (outcome : Outcome)
    (agree : m.Agree m' ((m.scope parallel).afterCall field plan type path outcome)) :
    m'.ofOutcome field object' type path outcome = m.ofOutcome field object type path outcome := by
  cases outcome with
  | value value =>
    simp only [ExecutionScope.afterCall, ExecutionScope.completeValue] at agree
    refine ofValue_congr schema parallel field hobject false type value path ?_
    split at agree
    · exact agree
    · exact agree.of_map
  | failed | timedOut | unbound | aborted => rfl

/-- A response key is marked alike where its call is, and the objects below it. -/
theorem ofField_congr (schema : m'.schema = m.schema) (vars : m'.vars = m.vars) (parallel : Bool)
    {object object' : Bool → ObjectType → Json → Path → Position}
    {nested : List Selection → ObjectType → Json → Path → Plan} (type : ObjectType) (parent : Json)
    (path : Path) (group : FieldGroup)
    (hobject : ∀ nonNull type value path, m.Agree m' (nested group.selections type value path) →
      object' nonNull type value path = object nonNull type value path)
    (agree : m.Agree m' ((m.scope parallel).fieldPlan nested type parent path group)) :
    m'.ofField object' type parent path group = m.ofField object type parent path group := by
  unfold ExecutionScope.fieldPlan at agree
  unfold ofField
  rw [schema, vars]
  by_cases isTypename : (group.first.name == "__typename") = true
  · rw [if_pos isTypename, if_pos isTypename]
  rw [if_neg isTypename] at agree ⊢
  rw [if_neg isTypename]
  cases hdefinition : type.field? group.first.name with
  | none => rfl
  | some definition =>
    cases hcheck : m.schema.checkSelection definition group.selections with
    | some cause => simp only [hcheck]
    | none =>
      cases harguments : Coercion.coerceArguments m.schema m.vars type.name definition
          group.first.arguments with
      | error cause => simp only [hcheck, harguments]
      | ok arguments =>
        simp only [hdefinition, scope, hcheck, harguments] at agree
        -- the outcome of the call is the same, and with it what follows the call
        obtain ⟨same, onwards⟩ := agree.of_call
        simp only [hcheck, harguments, same]
        exact ofOutcome_congr schema parallel _ hobject _ _ _ onwards

/-- An object is marked alike where its fields are. -/
theorem ofObject_congr (schema : m'.schema = m.schema) (vars : m'.vars = m.vars)
    (parallel serial : Bool) {depth : Nat} {selections : List Selection}
    (bounded : Selection.depthAll selections ≤ depth) (nonNull : Bool) (type : ObjectType)
    (value : Json) (path : Path)
    (agree : m.Agree m'
      ((m.scope parallel).selectionPlan depth serial selections type value path)) :
    m'.ofObject selections nonNull type value path =
      m.ofObject selections nonNull type value path := by
  rw [ofObject_eq, ofObject_eq]
  congr 1
  -- on the depth of the plan, which bounds how deep the selections nest
  induction depth generalizing serial selections nonNull type value path with
  | zero =>
    rw [collectFields_eq_nil type.name (Nat.le_zero.1 bounded)]
    rfl
  | succ depth ih =>
    refine List.map_congr_left fun group member => ?_
    have deeper := depthAll_lt_of_mem_collectFields member
    refine ofField_congr schema vars parallel type value path group ?_
      (agree.of_group (List.mem_map_of_mem member))
    intro nonNull type value below agree
    rw [ofObject_eq, ofObject_eq]
    congr 1
    exact ih (!parallel) (by omega) nonNull type value below agree

/-- An operation is marked alike where its calls are. -/
theorem root_congr (schema : m'.schema = m.schema) (vars : m'.vars = m.vars)
    (parallel serial : Bool) (operation : Operation) (rootType : ObjectType)
    (agree : m.Agree m' ((m.scope parallel).selectionPlan (Selection.depthAll operation.selections)
      serial operation.selections rootType .null [])) :
    m'.root operation rootType = m.root operation rootType :=
  ofObject_congr schema vars parallel serial (Nat.le_refl _) true rootType .null [] agree

end Marking

namespace Engine

variable {State : Type}

/-- The positions of an operation depend on the outcomes of its calls alone. -/
theorem positions_congr (engine : Engine State) (request : Request) (operation : Operation)
    (rootType : ObjectType) {outcome outcome' : Call → Outcome}
    (agree : ∀ call ∈ engine.calls request operation rootType outcome,
      outcome' call = outcome call) :
    engine.positions request operation rootType outcome' =
      engine.positions request operation rootType outcome := by
  unfold positions
  apply Marking.root_congr
  · rfl
  · rfl
  · exact agree

end Engine

end GraphQL
