import GraphQL.Proofs.Jobs.Entries

/-!
# Groups in order and side by side

A plan says of each of its groups whether the parts run one after the other. `Plan.regroup` makes it
say the same of all groups, which changes neither the calls of the plan nor what it comes to. The
plan of an operation whose siblings run concurrently and the one of the same operation whose
siblings run in order differ by no more than that (`Operation.regroup_plan`).
-/

set_option autoImplicit false

namespace GraphQL

namespace Plan

mutual

/-- The plan with all of its groups in order, or all side by side. -/
def regroup (serial : Bool) : Plan → Plan
  | done completion => .done completion
  | call c next => .call c fun outcome => (next outcome).regroup serial
  | group _ parts finish => .group serial (regroupAll serial parts) finish

/-- The plans with all of their groups in order, or all side by side. -/
def regroupAll (serial : Bool) : List Plan → List Plan
  | [] => []
  | plan :: rest => plan.regroup serial :: regroupAll serial rest

end

/-- Plans are regrouped one by one. -/
theorem regroupAll_eq_map (serial : Bool) (plans : List Plan) :
    regroupAll serial plans = plans.map (·.regroup serial) := by
  induction plans with
  | nil => rfl
  | cons plan rest ih => simp [regroupAll, ih]

/-- Changing the completion at the end does not touch the groups. -/
theorem regroup_map (serial : Bool) (f : Completion → Completion) (plan : Plan) :
    (plan.map f).regroup serial = (plan.regroup serial).map f := by
  induction plan using Plan.induction with
  | done completion => rfl
  | call c next ih => simp only [map, regroup, ih]
  | group own parts finish ih => rfl

/-- A plan makes the same calls however its parts are run. -/
@[simp] theorem calls_regroup (serial : Bool) (outcome : Call → Outcome) (plan : Plan) :
    (plan.regroup serial).calls outcome = plan.calls outcome := by
  induction plan using Plan.induction with
  | done completion => rfl
  | call c next ih => simp only [regroup, calls, ih]
  | group own parts finish ih =>
    rw [regroup, calls, calls, regroupAll_eq_map, callsAll_eq_flatMap, callsAll_eq_flatMap,
      List.flatMap_map, List.flatMap_def, List.flatMap_def, List.map_congr_left ih]

end Plan

namespace ExecutionScope

/-- The scope in which siblings run in order, or side by side. -/
def arranged (scope : ExecutionScope) (serial : Bool) : ExecutionScope :=
  { scope with parallel := !serial }

/-- A scope in which siblings run side by side is arranged so already. -/
theorem arranged_of_eq (scope : ExecutionScope) (parallel : scope.parallel = true) :
    scope.arranged false = scope := by
  rw [arranged, Bool.not_false, ← parallel]

variable {scope : ExecutionScope}

/-- Regrouping the plan for a value makes it that of the scope so arranged. -/
theorem regroup_complete (serial : Bool) (field : FieldName)
    (object : ObjectType → Json → Path → Plan) (type : TypeRef) (value : Json) (path : Path) :
    (scope.complete field object type value path).regroup serial =
      (scope.arranged serial).complete field
        (fun type value path => (object type value path).regroup serial) type value path := by
  fun_induction ExecutionScope.complete scope field object type value path with
  | case1 inner value path ih => rw [complete, Plan.regroup_map, ih]
  | case3 item values path ih =>
    simp only [complete, Plan.regroup, Plan.regroupAll_eq_map, arranged, Bool.not_not,
      List.mapIdx_eq_zipIdx_map, List.map_map]
    congr 2
    funext entry
    dsimp only [Function.comp]
    split
    · exact ih entry.2 entry.1
    · rw [Plan.regroup_map, ih]
      rfl
  | case7 name path type members htype =>
    have same : (scope.arranged serial).schema.type? name = some (.object type) := htype
    simp only [complete, same]
  | _ => simp_all [complete, arranged, Plan.regroup]

/-- Regrouping what follows a call makes it that of the scope so arranged. -/
theorem regroup_afterCall (serial : Bool) (field : FieldName)
    (object : ObjectType → Json → Path → Plan) (type : TypeRef) (path : Path) (outcome : Outcome) :
    (scope.afterCall field object type path outcome).regroup serial =
      (scope.arranged serial).afterCall field
        (fun type value path => (object type value path).regroup serial) type path outcome := by
  cases outcome with
  | value value =>
    simp only [afterCall, completeValue]
    split
    · exact regroup_complete serial field object type value path
    · rw [Plan.regroup_map, regroup_complete]
  | failed | timedOut | unbound | aborted => rfl

/-- Regrouping the plan for a response key makes it that of the scope so arranged. -/
theorem regroup_fieldPlan (serial : Bool)
    (nested : List Selection → ObjectType → Json → Path → Plan) (type : ObjectType) (parent : Json)
    (path : Path) (group : FieldGroup) :
    (scope.fieldPlan nested type parent path group).regroup serial =
      (scope.arranged serial).fieldPlan
        (fun selections type value path => (nested selections type value path).regroup serial)
        type parent path group := by
  simp only [fieldPlan, arranged]
  split
  · rfl
  · split
    · rfl
    · split
      · rfl
      · split
        · rfl
        · simp only [Plan.regroup, regroup_afterCall]
          rfl

/-- The plan for an object with all of its groups in order is the one in a scope in which siblings
run in order, and so it is side by side. -/
theorem regroup_selectionPlan (serial : Bool) (depth : Nat) (own : Bool)
    (selections : List Selection) (type : ObjectType) (parent : Json) (path : Path) :
    (scope.selectionPlan depth own selections type parent path).regroup serial =
      (scope.arranged serial).selectionPlan depth serial selections type parent path := by
  induction depth generalizing own selections type parent path with
  | zero => rfl
  | succ depth ih =>
    simp only [selectionPlan, Plan.regroup, Plan.regroupAll_eq_map, List.map_map]
    congr 2
    funext group
    simp only [Function.comp, regroup_fieldPlan, ih, arranged, Bool.not_not]

end ExecutionScope

/-- With its groups in order, the plan of an operation is that of the same operation whose siblings
run in order. -/
theorem Operation.regroup_plan (operation : Operation) (schema : Schema) (parallel : Bool)
    (values : Json.Object) (rootType : ObjectType) :
    (operation.plan schema parallel values rootType).regroup true =
      operation.plan schema false values rootType := by
  rw [plan, ExecutionScope.regroup_selectionPlan, plan, Bool.not_false, Bool.or_true]
  rfl

end GraphQL
