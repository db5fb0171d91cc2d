import GraphQL.Proofs.Jobs.Answers
import GraphQL.Proofs.Positions.Basic
import GraphQL.Proofs.Selections.Collected
import Mathlib.Data.List.Nodup

/-!
# The paths of calls

No two calls of an operation have the same path, whatever the calls end with: the calls for the
value of a field, or for an item of a list, are made at and below its own path, and fields of one
object have different keys. So a call is made only once.
-/

set_option autoImplicit false

namespace GraphQL

namespace Path

/-- A path strictly below another one. -/
def Below (base path : Path) : Prop :=
  ∃ step, base.join step <+: path

/-- A path below another one starts with it. -/
theorem Below.isPrefix {base path : Path} (h : base.Below path) : base <+: path := by
  obtain ⟨step, rest, rfl⟩ := h
  exact ⟨step :: rest, by simp [join]⟩

/-- No path is below itself. -/
theorem Below.ne {base path : Path} (h : base.Below path) : path ≠ base := by
  obtain ⟨step, rest, rfl⟩ := h
  intro same
  have := congrArg List.length same
  simp [join] at this

/-- A path is below another one if and only if it starts with it and is longer. -/
theorem below_iff {base path : Path} : base.Below path ↔ base <+: path ∧ path ≠ base := by
  constructor
  · exact fun h => ⟨h.isPrefix, h.ne⟩
  · rintro ⟨⟨rest, rfl⟩, different⟩
    cases rest with
    | nil => exact absurd (List.append_nil base) different
    | cons step rest => exact ⟨step, rest, by simp [join]⟩

instance (base path : Path) : Decidable (base.Below path) :=
  decidable_of_iff _ below_iff.symm

/-- Only one step leads from a path towards another one. -/
theorem step_eq_of_isPrefix {base path : Path} {step step' : PathElement}
    (h : base.join step <+: path) (h' : base.join step' <+: path) : step = step' := by
  obtain ⟨rest, rfl⟩ := h
  obtain ⟨rest', same⟩ := h'
  simp only [join, List.append_assoc, List.append_cancel_left_eq] at same
  exact (List.cons.inj same).1.symm

end Path

namespace Plan

/-- The calls of a plan lead downwards from a path: if `own` holds there may be one at the path
itself, before all others, and parts that are put together go on by different steps. This holds
whatever the calls end with. -/
inductive Descends : Bool → Path → Plan → Prop
  | done {own : Bool} {base : Path} {completion : Completion} : Descends own base (.done completion)
  | call {base : Path} {call : Call} {next : Outcome → Plan} (place : call.path = base)
    (h : ∀ outcome, Descends false base (next outcome)) : Descends true base (.call call next)
  | group {own : Bool} {base : Path} {serial : Bool} {parts : List Plan}
    {finish : List Completion → Completion} (steps : List PathElement) (distinct : steps.Nodup)
    (length : steps.length = parts.length)
    (h : ∀ (i : Nat) (step : PathElement) (part : Plan), steps[i]? = some step →
      parts[i]? = some part → Descends true (base.join step) part) :
    Descends own base (.group serial parts finish)

/-- The place of the calls that lead downwards from a path. -/
def Reach (own : Bool) (base path : Path) : Prop :=
  if own then base <+: path else base.Below path

/-- The calls that lead downwards from a path have paths that start with it. -/
theorem Reach.isPrefix {own : Bool} {base path : Path} (h : Reach own base path) :
    base <+: path := by
  cases own with
  | true => exact h
  | false => exact Path.Below.isPrefix h

/-- Whatever is at or after a step from a path is below the path. -/
theorem Reach.of_step {own : Bool} {base path : Path} {step : PathElement}
    (h : base.join step <+: path) : Reach own base path := by
  cases own with
  | true => exact Path.Below.isPrefix ⟨step, h⟩
  | false => exact ⟨step, h⟩

namespace Descends

/-- A plan without a call at a path is one that may have it. -/
theorem own {base : Path} {plan : Plan} (h : plan.Descends false base) :
    plan.Descends true base := by
  cases h with
  | done => exact .done
  | group steps distinct length each => exact .group steps distinct length each

/-- What is made of the result has no part in where the calls are. -/
theorem map {own : Bool} {base : Path} {plan : Plan} (h : plan.Descends own base)
    (f : Completion → Completion) : (plan.map f).Descends own base := by
  induction h with
  | done => exact .done
  | call place h ih => exact .call place ih
  | group steps distinct length each ih => exact .group steps distinct length each

end Descends

/-- Whatever the calls of a plan end with, their paths are distinct, and all are in some place. -/
def CallsIn (place : Path → Prop) (plan : Plan) : Prop :=
  ∀ answers completion, plan.Yields answers completion →
    (answers.map fun answer => answer.call.path).Nodup ∧ ∀ answer ∈ answers, place answer.call.path

/-- A call at a path, followed by calls below it. -/
theorem callsIn_call {call : Call} {next : Outcome → Plan}
    (h : ∀ outcome, (next outcome).CallsIn call.path.Below) :
    (Plan.call call next).CallsIn (call.path <+: ·) := by
  intro answers completion yields
  cases yields with
  | @call _ _ outcome made answers _ later =>
    obtain ⟨distinct, below⟩ := h outcome answers completion later
    constructor
    · rw [List.map_cons, List.nodup_cons]
      refine ⟨?_, distinct⟩
      rw [List.mem_map]
      rintro ⟨answer, member, same⟩
      exact (below answer member).ne same
    · intro answer member
      rcases List.mem_cons.1 member with rfl | member
      · exact List.prefix_rfl
      · exact (below answer member).isPrefix

/-- Parts of a group that are reached by different steps. -/
theorem callsIn_group {own serial : Bool} {parts : List Plan}
    {finish : List Completion → Completion} {base : Path} {steps : List PathElement}
    (distinct : steps.Nodup) (length : steps.length = parts.length)
    (h : ∀ (i : Nat) (step : PathElement) (part : Plan), steps[i]? = some step →
      parts[i]? = some part → part.CallsIn (base.join step <+: ·)) :
    (group serial parts finish).CallsIn (Reach own base) := by
  intro answers completion yields
  cases yields with
  | @group _ _ _ results each =>
    obtain ⟨sameLength, each⟩ := List.forall₂_iff_get.1 each
    have reached : ∀ i (hi : i < results.length) (hs : i < steps.length),
        (results[i].1.map fun answer => answer.call.path).Nodup ∧
          ∀ answer ∈ results[i].1, base.join steps[i] <+: answer.call.path := by
      intro i hi hs
      have hp : i < parts.length := length ▸ hs
      exact h i steps[i] parts[i] (List.getElem?_eq_getElem hs) (List.getElem?_eq_getElem hp) _ _
        (each i hp hi)
    constructor
    · rw [List.map_flatMap, List.nodup_flatMap]
      constructor
      · intro result member
        obtain ⟨i, hi, rfl⟩ := List.getElem_of_mem member
        exact (reached i hi (by omega)).1
      · -- a path in two parts would be reached from the base by two steps
        rw [List.pairwise_iff_getElem]
        intro i j hi hj less path hpath hpath'
        obtain ⟨answer, member, rfl⟩ := List.mem_map.1 hpath
        obtain ⟨answer', member', same⟩ := List.mem_map.1 hpath'
        have below := (reached i hi (by omega)).2 answer member
        have below' := (reached j hj (by omega)).2 answer' member'
        have := (List.Nodup.getElem_inj_iff distinct).1
          (Path.step_eq_of_isPrefix below (same ▸ below'))
        omega
    · intro answer member
      obtain ⟨result, hresult, member⟩ := List.mem_flatMap.1 member
      obtain ⟨i, hi, rfl⟩ := List.getElem_of_mem hresult
      exact .of_step ((reached i hi (by omega)).2 answer member)

/-- The calls that lead downwards from a path are in their place, and no two have the same path. -/
theorem Descends.callsIn {own : Bool} {base : Path} {plan : Plan} (h : plan.Descends own base) :
    plan.CallsIn (Reach own base) := by
  induction h with
  | done =>
    intro answers _ yields
    cases yields
    exact ⟨List.nodup_nil, by simp⟩
  | call place h ih =>
    subst place
    exact callsIn_call ih
  | group steps distinct length each ih => exact callsIn_group distinct length ih

end Plan

namespace ExecutionScope

variable {scope : ExecutionScope}

/-- The calls for a value are made below its path. -/
theorem descends_complete {field : FieldName} {object : ObjectType → Json → Path → Plan}
    (hobject : ∀ type value path, (object type value path).Descends false path) (type : TypeRef)
    (value : Json) (path : Path) :
    (scope.complete field object type value path).Descends false path := by
  fun_induction ExecutionScope.complete scope field object type value path with
  | case1 inner value path ih => exact ih.map _
  | case3 item values path ih =>
    refine .group ((List.range values.length).map .index) ?_ (by simp) ?_
    · exact List.nodup_range.map fun i j same => PathElement.index.inj same
    · intro i step part hstep hpart
      rw [List.getElem?_mapIdx] at hpart
      obtain ⟨value, hvalue, rfl⟩ := Option.map_eq_some_iff.1 hpart
      have hi := (List.getElem?_eq_some_iff.1 hvalue).1
      simp only [List.getElem?_map, List.getElem?_range hi, Option.map_some,
        Option.some.injEq] at hstep
      subst hstep
      simp only
      split
      · exact (ih i value).own
      · exact (ih i value).own.map _
  | case7 name path type members htype => exact hobject type _ path
  | _ => exact .done

/-- After the call of a field the calls lead downwards from the path of the field. -/
theorem descends_afterCall {field : FieldName} {object : ObjectType → Json → Path → Plan}
    (hobject : ∀ type value path, (object type value path).Descends false path) (type : TypeRef)
    (path : Path) (outcome : Outcome) :
    (scope.afterCall field object type path outcome).Descends false path := by
  cases outcome with
  | value value =>
    have below : (scope.complete field object type value path).Descends false path :=
      descends_complete hobject type value path
    simp only [afterCall, completeValue]
    split
    · exact below
    · exact below.map _
  | failed | timedOut | unbound | aborted => exact .done

/-- The calls for a field are made at and below its path. -/
theorem descends_fieldPlan {nested : List Selection → ObjectType → Json → Path → Plan}
    (hnested : ∀ selections type value path,
      (nested selections type value path).Descends false path)
    (type : ObjectType) (parent : Json) (path : Path) (group : FieldGroup) :
    (scope.fieldPlan nested type parent path group).Descends true (path.join (.key group.key)) := by
  unfold fieldPlan
  split
  · exact .done
  · split
    · exact .done
    · split
      · exact .done
      · split
        · exact .done
        · exact .call rfl fun outcome => descends_afterCall (hnested _) _ _ outcome

/-- The calls for an object are made below its path. -/
theorem descends_selectionPlan (depth : Nat) (serial : Bool) (selections : List Selection)
    (type : ObjectType) (parent : Json) (path : Path) :
    (scope.selectionPlan depth serial selections type parent path).Descends false path := by
  induction depth generalizing serial selections type parent path with
  | zero => exact .done
  | succ depth ih =>
    refine .group ((collectFields type.name selections).map fun group => .key group.key) ?_
      (by simp) ?_
    · have keys := nodup_keys_collectFields type.name selections
      have steps := keys.map fun key key' (same : PathElement.key key = .key key') =>
        PathElement.key.inj same
      rwa [List.map_map] at steps
    · intro i step part hstep hpart
      rw [List.getElem?_map] at hstep hpart
      obtain ⟨group, hgroup, rfl⟩ := Option.map_eq_some_iff.1 hpart
      rw [hgroup] at hstep
      cases hstep
      exact descends_fieldPlan (ih _) type parent path group

end ExecutionScope

/-- The calls of an operation lead downwards from the root. -/
theorem Operation.descends_plan (operation : Operation) (schema : Schema) (parallel : Bool)
    (values : Json.Object) (rootType : ObjectType) :
    (operation.plan schema parallel values rootType).Descends false [] :=
  ExecutionScope.descends_selectionPlan _ _ _ _ _ _

/-- A plan whose calls lead downwards makes each call once, whatever its calls end with. -/
theorem Plan.Descends.nodup_calls {own : Bool} {base : Path} {plan : Plan}
    (h : plan.Descends own base) {answers : List Answer} {completion : Completion}
    (yields : plan.Yields answers completion) : (answers.map (·.call)).Nodup := by
  have distinct := (h.callsIn answers completion yields).1
  have paths : (answers.map fun answer => answer.call.path) =
      (answers.map (·.call)).map Call.path := by
    rw [List.map_map]
    rfl
  rw [paths] at distinct
  exact distinct.of_map

/-- No two calls of an operation have the same path, whatever its calls end with. -/
theorem Operation.nodup_paths_plan (operation : Operation) (schema : Schema) (parallel : Bool)
    (values : Json.Object) (rootType : ObjectType) {answers : List Answer} {completion : Completion}
    (yields : (operation.plan schema parallel values rootType).Yields answers completion) :
    (answers.map fun answer => answer.call.path).Nodup :=
  ((operation.descends_plan schema parallel values rootType).callsIn answers completion yields).1

/-- An operation makes each call once, whatever its calls end with. -/
theorem Operation.nodup_calls_plan (operation : Operation) (schema : Schema) (parallel : Bool)
    (values : Json.Object) (rootType : ObjectType) {answers : List Answer} {completion : Completion}
    (yields : (operation.plan schema parallel values rootType).Yields answers completion) :
    (answers.map (·.call)).Nodup :=
  (operation.descends_plan schema parallel values rootType).nodup_calls yields

end GraphQL
