import GraphQL.Engine
import GraphQL.Proofs.Jobs.Invariants
import GraphQL.Proofs.Positions.CallPaths
import GraphQL.Proofs.Schemas.Closed

/-!
# What operations may do to the shared state

Resolvers that do not write leave the state that they share as it is, and as long as none of them
cancels the operation, only a cancellation from outside does. Which resolvers an operation calls is
a matter of types: the calls for an object are of its own fields and of the fields of objects that
its fields lead to, whatever is selected and whatever the calls end with
(`ExecutionScope.callsOnly_selectionPlan`). So an operation whose root leads only to types whose
resolvers do not write is a mere observer (`Plan.CallsOnly.finish_unwritten`).
-/

set_option autoImplicit false

namespace GraphQL

namespace Action

variable {State : Type}

/-- An action that does not cancel the operation, and writes the state only where it may. -/
def Restrained (mayWrite : Prop) : Action State → Prop
  | done _ => True
  | read next => ∀ state, (next state).Restrained mayWrite
  | write _ next => mayWrite ∧ next.Restrained mayWrite
  | wait _ next => next.Restrained mayWrite
  | cancel _ => False

/-- An action that may write under a condition may do so under a weaker one. -/
theorem Restrained.mono {mayWrite mayWrite' : Prop} (imp : mayWrite → mayWrite')
    {action : Action State} (h : action.Restrained mayWrite) : action.Restrained mayWrite' := by
  induction action with
  | done result => trivial
  | read next ih => exact fun state => ih state (h state)
  | write state next ih => exact ⟨imp h.1, ih h.2⟩
  | wait milliseconds next ih => exact ih h
  | cancel next ih => exact h

end Action

/-- What holds of a world holds on, whatever happens to calls; where the state may be written, it
holds on when that is done as well. -/
structure World.Lasting {State : Type} (mayWrite : Prop) (inv : World State → Prop) : Prop where
  record : ∀ {world}, inv world → ∀ event, inv (world.record event)
  abort : ∀ {world}, inv world → inv { world with aborted := true }
  write : mayWrite → ∀ {world}, inv world → ∀ state, inv (world.write state)
  time : ∀ {world}, inv world → ∀ instant, inv { world with now := instant }

section

variable {State : Type} {mayWrite : Prop} {inv : World State → Prop}

/-- Such an invariant is kept by a call that is restrained. -/
theorem Action.Restrained.safe (lasting : World.Lasting mayWrite inv) {call : Call}
    (deadline : Option Deadline) {action : Action State} (restrained : action.Restrained mayWrite)
    (world : World State) (holds : inv world) :
    (action.run call deadline world).KeepsFrom world inv fun _ _ => True := by
  have settled : ∀ (world : World State) (outcome : Outcome), inv world →
      (settle call outcome world).KeepsFrom world inv fun _ _ => True := fun world outcome holds =>
    ⟨⟨List.prefix_append _ _, id⟩, lasting.record holds _, trivial⟩
  have aborted : ∀ world : World State, inv world →
      (Action.abort call world).KeepsFrom world inv fun _ _ => True := fun world holds =>
    ⟨⟨List.prefix_append _ _, id⟩, lasting.record (lasting.abort holds) _, trivial⟩
  induction action generalizing world deadline with
  | done result => cases result <;> exact settled world _ holds
  | read next ih => exact ih world.state deadline (restrained world.state) world holds
  | write state next ih =>
    have grows : world.Grows (world.write state) := ⟨List.prefix_rfl, id⟩
    have further := lasting.write restrained.1 holds state
    exact (ih deadline restrained.2 (world.write state) further).of_grows grows
  | cancel next ih => exact restrained.elim
  | wait milliseconds next ih =>
    by_cases zero : milliseconds = 0
    · simp only [run, if_pos zero]
      exact ih deadline restrained world holds
    cases deadline with
    | none =>
      simp only [run, if_neg zero]
      refine Progress.keepsFrom_paused holds fun later _ holds => ?_
      split
      · exact aborted later holds
      · exact ih none restrained later holds
    | some limit =>
      simp only [run, if_neg zero]
      split
      · exact settled world _ holds
      · refine Progress.keepsFrom_paused holds fun later _ holds => ?_
        split
        · exact aborted later holds
        · split
          · exact ih (some limit) restrained later holds
          · exact settled later _ holds

namespace Registry

/-- Whatever is bound to the field of a call is restrained. -/
def Restrains (registry : Registry State) (mayWrite : Prop) (call : Call) : Prop :=
  ∀ binding, registry.lookup? call.typeName call.fieldName = some binding →
    (binding.resolver call).Restrained mayWrite

/-- The resolver of a call that may write under a condition may do so under a weaker one. -/
theorem Restrains.mono {registry : Registry State} {call : Call} {mayWrite' : Prop}
    (imp : mayWrite → mayWrite') (h : registry.Restrains mayWrite call) :
    registry.Restrains mayWrite' call :=
  fun binding found => (h binding found).mono imp

/-- A call of a resolver that is restrained keeps what lasts. -/
theorem Restrains.safe {registry : Registry State} {call : Call}
    (restrains : registry.Restrains mayWrite call) (lasting : World.Lasting mayWrite inv)
    (timeout : Option Duration) (world : World State) :
    (registry.perform timeout call).Safe world inv := by
  intro later _ holds
  unfold perform lookup
  cases found : registry.lookup? call.typeName call.fieldName with
  | none => exact ⟨⟨List.prefix_append _ _, id⟩, lasting.record holds _, trivial⟩
  | some binding =>
    simp only
    split
    · exact ⟨⟨List.prefix_append _ _, id⟩, lasting.record (lasting.abort holds) _, trivial⟩
    · have grows : later.Grows (later.record (.started call)) := ⟨List.prefix_append _ _, id⟩
      exact ((restrains binding found).safe lasting _ _ (lasting.record holds _)).of_grows grows

end Registry

end

namespace Plan

/-- Whatever the calls of a plan end with, all of them are of some sort. -/
inductive CallsOnly (sort : Call → Prop) : Plan → Prop
  | done {completion : Completion} : CallsOnly sort (.done completion)
  | call {call : Call} {next : Outcome → Plan} (here : sort call)
    (later : ∀ outcome, CallsOnly sort (next outcome)) : CallsOnly sort (.call call next)
  | group {serial : Bool} {parts : List Plan} {finish : List Completion → Completion}
    (each : ∀ part ∈ parts, CallsOnly sort part) : CallsOnly sort (.group serial parts finish)

/-- Any plan makes calls of any sort. -/
theorem callsOnly_any (plan : Plan) : plan.CallsOnly fun _ => True := by
  induction plan using Plan.induction with
  | done completion => exact .done
  | call call next ih => exact .call trivial ih
  | group serial parts finish ih => exact .group ih

namespace CallsOnly

variable {State : Type} {sort : Call → Prop} {plan : Plan}

/-- Changing the completion at the end makes no other calls. -/
theorem map (only : plan.CallsOnly sort) (f : Completion → Completion) :
    (plan.map f).CallsOnly sort := by
  induction only with
  | done => exact .done
  | call here later ih => exact .call here ih
  | group each => exact .group each

/-- A plan keeps what each of its calls keeps. -/
theorem safe {inv : World State → Prop} {perform : Call → Job State Outcome}
    (only : plan.CallsOnly sort)
    (each : ∀ call, sort call → ∀ world, (perform call).Safe world inv) (world : World State) :
    (plan.start perform).Safe world inv := by
  induction only generalizing world with
  | done => exact Job.safe_pure world _
  | call here later ih =>
    exact Job.Safe.bind (each _ here world) fun outcome => ih outcome world
  | group parts ih => exact safe_group fun part member => ih part member world

variable {registry : Registry State} {world : World State}

/-- What restrained calls keep holds in the end. -/
theorem finish (only : plan.CallsOnly sort) {mayWrite : Prop}
    (restrains : ∀ call, sort call → registry.Restrains mayWrite call) (timeout : Option Duration)
    (inv : World State → Prop) (lasting : World.Lasting mayWrite inv) (holds : inv world) :
    inv ((plan.start (registry.perform timeout) world).finish none).1 := by
  have safe := only.safe (fun call here => (restrains call here).safe lasting timeout) world
  refine (safe world (World.Grows.refl world) holds).finish ?_ ?_
  · exact fun later wake holds _ _ => lasting.time holds wake
  · rintro _ _ ⟨⟩

/-- Calls that do not cancel the operation leave it uncancelled. -/
theorem finish_uncancelled (only : plan.CallsOnly sort)
    (restrains : ∀ call, sort call → registry.Restrains True call) (timeout : Option Duration)
    (uncancelled : world.cancelled = false) :
    ((plan.start (registry.perform timeout) world).finish none).1.cancelled = false :=
  only.finish restrains timeout (fun world => world.cancelled = false)
    ⟨fun holds _ => holds, fun holds => holds, fun _ _ holds _ => holds, fun holds _ => holds⟩
    uncancelled

/-- Calls that do not write leave the state as it is, and never write another one. -/
theorem finish_unwritten (only : plan.CallsOnly sort)
    (restrains : ∀ call, sort call → registry.Restrains False call) (timeout : Option Duration)
    (world : World State) :
    let left := ((plan.start (registry.perform timeout) world).finish none).1
    left.state = world.state ∧ left.states = world.states :=
  only.finish restrains timeout
    (fun later => later.state = world.state ∧ later.states = world.states)
    ⟨fun holds _ => holds, fun holds => holds, fun never => never.elim, fun holds _ => holds⟩
    ⟨rfl, rfl⟩

end CallsOnly

end Plan

/-- Object types among which fields lead to no other object types. -/
def Schema.ClosedAmong (schema : Schema) (inside : ObjectType → Prop) : Prop :=
  ∀ type, inside type → ∀ definition ∈ type.fields, ∀ target,
    schema.object? definition.type.innermost = some target → inside target

namespace ExecutionScope

variable {scope : ExecutionScope} {inside : ObjectType → Prop} {sort : Call → Prop}

/-- The calls for a value are those for the objects of its type. -/
theorem callsOnly_complete {field : FieldName} {object : ObjectType → Json → Path → Plan}
    (type : TypeRef) (value : Json) (path : Path)
    (hobject : ∀ target, scope.schema.object? type.innermost = some target →
      ∀ parent path, (object target parent path).CallsOnly sort) :
    (scope.complete field object type value path).CallsOnly sort := by
  fun_induction ExecutionScope.complete scope field object type value path with
  | case1 inner value path ih => exact (ih hobject).map _
  | case3 item values path ih =>
    refine .group fun part member => ?_
    obtain ⟨i, hi, rfl⟩ := List.mem_mapIdx.1 member
    have only := ih i values[i] hobject
    dsimp only
    split
    · exact only
    · exact only.map _
  | case7 name path type members htype =>
    exact hobject type (Schema.object?_eq_some_iff.2 htype) _ path
  | _ => exact .done

/-- What follows a call makes calls of the sort that the objects in its value do. -/
theorem callsOnly_afterCall {field : FieldName} {object : ObjectType → Json → Path → Plan}
    (type : TypeRef) (path : Path) (outcome : Outcome)
    (hobject : ∀ target, scope.schema.object? type.innermost = some target →
      ∀ parent path, (object target parent path).CallsOnly sort) :
    (scope.afterCall field object type path outcome).CallsOnly sort := by
  cases outcome with
  | value value =>
    have only : (scope.complete field object type value path).CallsOnly sort :=
      callsOnly_complete type value path hobject
    simp only [afterCall, completeValue]
    split
    · exact only
    · exact only.map _
  | failed | timedOut | unbound | aborted => exact .done

/-- A response key makes a call of its type, and those that the objects below do. -/
theorem callsOnly_fieldPlan {nested : List Selection → ObjectType → Json → Path → Plan}
    (type : ObjectType) (parent : Json) (path : Path) (group : FieldGroup)
    (here : ∀ call : Call, call.typeName = type.name → sort call)
    (hnested : ∀ definition ∈ type.fields, ∀ target,
      scope.schema.object? definition.type.innermost = some target →
        ∀ parent path, (nested group.selections target parent path).CallsOnly sort) :
    (scope.fieldPlan nested type parent path group).CallsOnly sort := by
  unfold fieldPlan
  split
  · exact .done
  · split
    · exact .done
    · next definition found =>
      have declared : definition ∈ type.fields := List.mem_of_find?_eq_some found
      split
      · exact .done
      · split
        · exact .done
        · exact .call (here _ rfl) fun outcome =>
            callsOnly_afterCall _ _ outcome (hnested definition declared)

/-- The calls for an object of one of some types that lead to no others are of fields of these. -/
theorem callsOnly_selectionPlan (closed : scope.schema.ClosedAmong inside) (depth : Nat)
    (serial : Bool) (selections : List Selection) {type : ObjectType} (here : inside type)
    (parent : Json) (path : Path) :
    (scope.selectionPlan depth serial selections type parent path).CallsOnly fun call =>
      ∃ type, inside type ∧ call.typeName = type.name := by
  induction depth generalizing serial selections type parent path with
  | zero => exact .done
  | succ depth ih =>
    refine .group fun part member => ?_
    obtain ⟨group, -, rfl⟩ := List.mem_map.1 member
    refine callsOnly_fieldPlan type parent path group (fun call same => ⟨type, here, same⟩) ?_
    intro definition declared target found parent path
    exact ih _ _ (closed type here definition declared target found) parent path

end ExecutionScope

end GraphQL
