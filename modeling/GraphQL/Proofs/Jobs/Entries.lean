import GraphQL.Proofs.Positions.CallPaths

/-!
# Root entries

The job of a mutation is the jobs of its root fields one after the other
(`Operation.start_mutation`). The job of a root field depends on the operation around it through the
variables alone: how deep other selections of the operation nest makes no difference
(`ExecutionScope.start_selectionPlan_depth`).
-/

set_option autoImplicit false

namespace GraphQL

namespace Progress

variable {State α β γ : Type}

/-- The result of what follows a computation can be changed there. -/
theorem map_bind (progress : Progress State α) (next : α → Job State β) (f : β → γ) :
    (progress.bind next).map f = progress.bind fun a => (next a).map f := by
  induction progress with
  | done world result => rfl
  | paused world wake resume ih =>
    rw [bind, bind, map]
    congr 1
    funext later
    exact ih later

/-- Two changes of a result are one. -/
theorem map_map (progress : Progress State α) (f : α → β) (g : β → γ) :
    (progress.map f).map g = progress.map (g ∘ f) := by
  induction progress with
  | done world result => rfl
  | paused world wake resume ih =>
    rw [map, map, map]
    congr 1
    funext later
    exact ih later

/-- A changed result is that of the run, changed. -/
theorem finish_map (f : α → β) (progress : Progress State α) (cancelAt : Option Nat) :
    (progress.map f).finish cancelAt =
      ((progress.finish cancelAt).1, f (progress.finish cancelAt).2) := by
  induction progress generalizing cancelAt with
  | done world result => rfl
  | paused world wake resume ih =>
    simp only [map, finish, ih]
    split
    · rfl
    · split <;> rfl

end Progress

namespace Plan

variable {State : Type} {perform : Call → Job State Outcome}

/-- A plan with a changed completion runs with a changed result. -/
theorem start_map (f : Completion → Completion) (plan : Plan) :
    (plan.map f).start perform = (plan.start perform).map f := by
  induction plan using Plan.induction with
  | done completion => rfl
  | call call next ih =>
    rw [map, start, start]
    funext world
    have later : (fun outcome => ((next outcome).map f).start perform) =
        fun outcome => ((next outcome).start perform).map f := funext ih
    rw [later]
    exact (Progress.map_bind _ _ f).symm
  | group serial parts finish ih =>
    rw [map, start, start]
    split <;> exact funext fun world => (Progress.map_map _ finish f).symm

/-- Groups of parts that run alike run alike. -/
theorem start_group_congr {serial : Bool} {parts parts' : List Plan}
    {finish : List Completion → Completion}
    (h : parts.map (·.start perform) = parts'.map (·.start perform)) :
    (group serial parts finish).start perform = (group serial parts' finish).start perform := by
  rw [start, start, startAll_eq_map, startAll_eq_map, h]

end Plan

namespace ExecutionScope

variable {State : Type} {perform : Call → Job State Outcome} {scope : ExecutionScope}

/-- The plans for a value run alike where those for the objects in it do. -/
theorem start_complete_congr {field : FieldName} {object object' : ObjectType → Json → Path → Plan}
    (h : ∀ type value path,
      (object type value path).start perform = (object' type value path).start perform)
    (type : TypeRef) (value : Json) (path : Path) :
    (scope.complete field object type value path).start perform =
      (scope.complete field object' type value path).start perform := by
  fun_induction ExecutionScope.complete scope field object type value path with
  | case1 inner value path ih =>
    rw [complete, Plan.start_map, Plan.start_map, ih]
  | case3 item values path ih =>
    rw [complete]
    apply Plan.start_group_congr
    apply List.ext_getElem?
    intro i
    rw [List.getElem?_map, List.getElem?_map, List.getElem?_mapIdx, List.getElem?_mapIdx]
    cases values[i]? with
    | none => rfl
    | some value =>
      simp only [Option.map_some, Option.some.injEq]
      split
      · exact ih i value
      · rw [Plan.start_map, Plan.start_map, ih]
  | case7 name path type members htype =>
    have same : scope.complete field object' (.named name) (.object members) path =
        object' type (.object members) path := by
      simp only [complete, htype]
    rw [same]
    exact h type _ path
  | _ => simp_all [complete]

/-- What follows a call runs alike where the plans for the objects in its value do. -/
theorem start_afterCall_congr {field : FieldName} {object object' : ObjectType → Json → Path → Plan}
    (h : ∀ type value path,
      (object type value path).start perform = (object' type value path).start perform)
    (type : TypeRef) (path : Path) (outcome : Outcome) :
    (scope.afterCall field object type path outcome).start perform =
      (scope.afterCall field object' type path outcome).start perform := by
  cases outcome with
  | value value =>
    have same : (scope.complete field object type value path).start perform =
        (scope.complete field object' type value path).start perform :=
      start_complete_congr h type value path
    simp only [afterCall, completeValue]
    split
    · exact same
    · rw [Plan.start_map, Plan.start_map, same]
  | failed | timedOut | unbound | aborted => rfl

/-- The plans for a response key run alike where those for the objects below it do. -/
theorem start_fieldPlan_congr {nested nested' : List Selection → ObjectType → Json → Path → Plan}
    {group : FieldGroup}
    (h : ∀ type value path, (nested group.selections type value path).start perform =
      (nested' group.selections type value path).start perform)
    (type : ObjectType) (parent : Json) (path : Path) :
    (scope.fieldPlan nested type parent path group).start perform =
      (scope.fieldPlan nested' type parent path group).start perform := by
  unfold fieldPlan
  split
  · rfl
  · split
    · rfl
    · split
      · rfl
      · split
        · rfl
        · rw [Plan.start, Plan.start]
          congr 1
          funext outcome
          exact start_afterCall_congr h _ _ outcome

/-- Selections that nest no fields start as a group of no fields. -/
theorem start_selectionPlan_group (serial : Bool) {depth : Nat} {selections : List Selection}
    (bounded : Selection.depthAll selections ≤ depth) (type : ObjectType) (parent : Json)
    (path : Path) :
    (scope.selectionPlan depth serial selections type parent path).start perform =
      (Plan.group serial
        ((collectFields type.name selections).map
          (scope.fieldPlan (scope.selectionPlan (depth - 1) (!scope.parallel)) type parent path))
        (.ofFields ((collectFields type.name selections).map (·.key)))).start perform := by
  cases depth with
  | zero =>
    rw [collectFields_eq_nil type.name (Nat.le_zero.1 bounded)]
    cases serial <;> rfl
  | succ depth => rfl

/-- Any bound on how deep selections nest gives the same job. -/
theorem start_selectionPlan_depth (serial : Bool) {depth depth' : Nat} {selections : List Selection}
    (bounded : Selection.depthAll selections ≤ depth)
    (bounded' : Selection.depthAll selections ≤ depth') (type : ObjectType) (parent : Json)
    (path : Path) :
    (scope.selectionPlan depth serial selections type parent path).start perform =
      (scope.selectionPlan depth' serial selections type parent path).start perform := by
  induction selections using collectFields_induction generalizing serial depth depth' type parent
    path with
  | level selections ih =>
    rw [start_selectionPlan_group serial bounded, start_selectionPlan_group serial bounded']
    apply Plan.start_group_congr
    rw [List.map_map, List.map_map]
    apply List.map_congr_left
    intro group member
    have deeper := depthAll_lt_of_mem_collectFields member
    apply start_fieldPlan_congr
    intro type value below
    exact ih _ group member _ (by omega) (by omega) type value below

/-- What a field that is selected of the root does. -/
def entry (scope : ExecutionScope) (rootType : ObjectType) (group : FieldGroup) : Plan :=
  scope.fieldPlan
    (scope.selectionPlan (Selection.depthAll group.selections) (!scope.parallel)) rootType .null []
    group

/-- The calls for a root field are made at and below its key. -/
theorem descends_entry (rootType : ObjectType) (group : FieldGroup) :
    (scope.entry rootType group).Descends true [.key group.key] :=
  descends_fieldPlan (fun _ => descends_selectionPlan _ _ _) rootType .null [] group

end ExecutionScope

/-- The root fields of a mutation run one after the other. -/
theorem Operation.start_mutation {State : Type} {perform : Call → Job State Outcome}
    {operation : Operation} (mutation : operation.kind = .mutation) (schema : Schema)
    (parallel : Bool) (values : Json.Object) (rootType : ObjectType) :
    (operation.plan schema parallel values rootType).start perform =
      (Plan.group true
        ((collectFields rootType.name operation.selections).map
          (ExecutionScope.entry
            { schema, parallel, vars := { definitions := operation.variableDefinitions, values } }
            rootType))
        (.ofFields ((collectFields rootType.name operation.selections).map (·.key)))).start
          perform := by
  have serial : (operation.kind == .mutation || !parallel) = true := by
    rw [mutation]
    rfl
  rw [plan, serial, ExecutionScope.start_selectionPlan_group true (Nat.le_refl _)]
  apply Plan.start_group_congr
  rw [List.map_map, List.map_map]
  apply List.map_congr_left
  intro group member
  have deeper := depthAll_lt_of_mem_collectFields member
  apply ExecutionScope.start_fieldPlan_congr
  intro type value below
  exact ExecutionScope.start_selectionPlan_depth _ (by omega) (Nat.le_refl _) type value below

end GraphQL
