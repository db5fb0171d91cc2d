import GraphQL.Proofs.Jobs.Invariants
import GraphQL.Proofs.Positions.CallPaths

/-!
# Where the parents of calls come from

A call is made for a field of an object. That object is the root of the operation, or it was found
in the value that another call had ended with by then: the value itself or, where the value is a
list, one of its elements. The path of the call says which: it goes on from the path of the other
call by the indices that lead to the object, and by the response key of the field
(`Engine.run_inTurn`).
-/

set_option autoImplicit false

namespace GraphQL

/-- The object at a path, of which a call is made: the root of the operation if nothing came before
it, or an object in the value that some call ended with. -/
def Produces : Option (Call × Outcome) → Path → Json → Prop
  | none, path, parent => path = [] ∧ parent = .null
  | some (above, outcome), path, parent => ∃ (value : Json) (indices : List Nat)
      (members : Json.Object), outcome = .value value ∧
      path = above.path ++ indices.map .index ∧ parent = .object members ∧
      value.at? (indices.map .index) = some parent

/-- By what happened so far, the object at some path was produced. -/
def Produced (events : List Event) (path : Path) (parent : Json) : Prop :=
  ∃ origin, Produces origin path parent ∧
    ∀ above outcome, origin = some (above, outcome) → .ended above outcome ∈ events

/-- Each call was made for a field of an object that had been produced before. -/
inductive InTurn : List Event → Prop
  | nil : InTurn []
  | ended {events : List Event} {call : Call} {outcome : Outcome} (h : InTurn events) :
    InTurn (events ++ [.ended call outcome])
  | started {events : List Event} {call : Call} {path : Path} {key : String} (h : InTurn events)
    (place : call.path = path.join (.key key)) (produced : Produced events path call.parent) :
    InTurn (events ++ [.started call])

/-- An event of a history with one more is the last one or comes earlier. -/
theorem eq_append_of_append_singleton {events before after : List Event} {last event : Event}
    (split : events ++ [last] = before ++ event :: after) :
    (before = events ∧ event = last) ∨ ∃ rest, events = before ++ event :: rest := by
  rcases List.eq_nil_or_concat after with rfl | ⟨rest, final, rfl⟩
  · obtain ⟨same, final⟩ := List.append_inj' split rfl
    exact .inl ⟨same.symm, (List.singleton_inj.1 final).symm⟩
  · have longer : events ++ [last] = (before ++ event :: rest) ++ [final] := by simpa using split
    exact .inr ⟨rest, (List.append_inj' longer rfl).1⟩

/-- When a call was made, its parent had been produced. -/
theorem InTurn.produced {events before after : List Event} {call : Call} (h : InTurn events)
    (split : events = before ++ .started call :: after) :
    ∃ path key, call.path = path.join (.key key) ∧ Produced before path call.parent := by
  induction h generalizing after with
  | nil => exact absurd split (by simp)
  | ended h ih =>
    rcases eq_append_of_append_singleton split with ⟨-, last⟩ | ⟨rest, earlier⟩
    · cases last
    · exact ih earlier
  | started h place produced ih =>
    rcases eq_append_of_append_singleton split with ⟨rfl, last⟩ | ⟨rest, earlier⟩
    · cases last
      exact ⟨_, _, place, produced⟩
    · exact ih earlier

namespace Action

variable {State : Type} {inv : List Event → Prop} {call : Call}

/-- A call whose end is known keeps what its end keeps. -/
theorem settle_keepsFrom
    (ended : ∀ events outcome, inv events → inv (events ++ [.ended call outcome]))
    (outcome : Outcome) (world : World State) (holds : inv world.history) :
    (settle call outcome world).KeepsFrom world (fun world => inv world.history)
      fun world outcome => .ended call outcome ∈ world.history := by
  refine ⟨⟨List.prefix_append _ _, id⟩, ended _ _ holds, ?_⟩
  exact List.mem_append_right _ (List.mem_singleton_self _)

/-- A call that is given up keeps what its end keeps. -/
theorem abort_keepsFrom
    (ended : ∀ events outcome, inv events → inv (events ++ [.ended call outcome]))
    (world : World State) (holds : inv world.history) :
    (abort call world).KeepsFrom world (fun world => inv world.history)
      fun world outcome => .ended call outcome ∈ world.history := by
  have grows : world.Grows { world with aborted := true } := ⟨List.prefix_rfl, id⟩
  exact Progress.KeepsFrom.of_grows grows
    (settle_keepsFrom ended .aborted { world with aborted := true } holds)

/-- A call that is made keeps what its end keeps, and tells of its end. -/
theorem run_keepsFrom
    (ended : ∀ events outcome, inv events → inv (events ++ [.ended call outcome]))
    (deadline : Option Deadline) (action : Action State) (world : World State)
    (holds : inv world.history) :
    (action.run call deadline world).KeepsFrom world (fun world => inv world.history)
      fun world outcome => .ended call outcome ∈ world.history := by
  induction action generalizing world deadline with
  | done result =>
    cases result with
    | ok value => exact settle_keepsFrom ended _ world holds
    | error error => exact settle_keepsFrom ended _ world holds
  | read next ih => exact ih world.state deadline world holds
  | write state next ih =>
    have grows : world.Grows (world.write state) := ⟨List.prefix_rfl, id⟩
    exact (ih deadline (world.write state) holds).of_grows grows
  | cancel next ih =>
    have grows : world.Grows { world with cancelled := true } := ⟨List.prefix_rfl, fun _ => rfl⟩
    exact (ih deadline { world with cancelled := true } holds).of_grows grows
  | wait milliseconds next ih =>
    by_cases zero : milliseconds = 0
    · simp only [run, if_pos zero]
      exact ih deadline world holds
    cases deadline with
    | none =>
      simp only [run, if_neg zero]
      refine Progress.keepsFrom_paused holds fun later _ holds => ?_
      split
      · exact abort_keepsFrom ended later holds
      · exact ih none later holds
    | some limit =>
      simp only [run, if_neg zero]
      split
      · exact settle_keepsFrom ended _ world holds
      · refine Progress.keepsFrom_paused holds fun later _ holds => ?_
        split
        · exact abort_keepsFrom ended later holds
        · split
          · exact ih (some limit) later holds
          · exact settle_keepsFrom ended _ later holds

end Action

/-- What was produced stays so. -/
theorem Produced.mono {events more : List Event} {path : Path} {parent : Json}
    (h : Produced events path parent) (grows : events <+: more) : Produced more path parent := by
  obtain ⟨origin, produces, ended⟩ := h
  exact ⟨origin, produces, fun above outcome same => grows.subset (ended above outcome same)⟩

namespace Registry

variable {State : Type}

/-- A call that is made for a field of an object that was produced is made in its turn. -/
theorem perform_keepsFrom (registry : Registry State) (timeout : Option Duration) {call : Call}
    {path : Path} {key : String} (place : call.path = path.join (.key key)) (world : World State)
    (produced : Produced world.history path call.parent) (holds : InTurn world.history) :
    (registry.perform timeout call world).KeepsFrom world (fun world => InTurn world.history)
      fun world outcome => .ended call outcome ∈ world.history := by
  have ended : ∀ events outcome, InTurn events → InTurn (events ++ [.ended call outcome]) :=
    fun _ _ h => h.ended
  unfold perform
  split
  · exact Action.settle_keepsFrom ended _ world holds
  · split
    · exact Action.abort_keepsFrom ended world holds
    · have grows : world.Grows (world.record (.started call)) := ⟨List.prefix_append _ _, id⟩
      exact (Action.run_keepsFrom ended _ _ (world.record (.started call))
        (holds.started place produced)).of_grows grows

end Registry

namespace Plan

/-- The calls of a plan are made for fields of objects that come from some origin, and what follows
a call comes from its outcome. -/
inductive Grounded : Option (Call × Outcome) → Plan → Prop
  | done {origin : Option (Call × Outcome)} {completion : Completion} :
    Grounded origin (.done completion)
  | call {origin : Option (Call × Outcome)} {call : Call} {next : Outcome → Plan} {path : Path}
    {key : String} (place : call.path = path.join (.key key))
    (produces : Produces origin path call.parent)
    (h : ∀ outcome, Grounded (some (call, outcome)) (next outcome)) :
    Grounded origin (.call call next)
  | group {origin : Option (Call × Outcome)} {serial : Bool} {parts : List Plan}
    {finish : List Completion → Completion} (h : ∀ part ∈ parts, Grounded origin part) :
    Grounded origin (.group serial parts finish)

/-- Changing the completion at the end makes no other calls. -/
theorem Grounded.map {origin : Option (Call × Outcome)} {plan : Plan} (h : plan.Grounded origin)
    (f : Completion → Completion) : (plan.map f).Grounded origin := by
  induction h with
  | done => exact .done
  | call place produces h ih => exact .call place produces ih
  | group h => exact .group h

variable {State : Type}

/-- The calls of such a plan are made in their turn, once the plan's origin is there. -/
theorem Grounded.safe (registry : Registry State) (timeout : Option Duration)
    {origin : Option (Call × Outcome)} {plan : Plan} (h : plan.Grounded origin)
    (world : World State)
    (ended : ∀ above outcome, origin = some (above, outcome) →
      .ended above outcome ∈ world.history) :
    (plan.start (registry.perform timeout)).Safe world fun world => InTurn world.history := by
  induction h generalizing world with
  | done => exact Job.safe_pure world _
  | @call origin call next path key place produces h ih =>
    intro later grows holds
    have produced : Produced world.history path call.parent := ⟨origin, produces, ended⟩
    refine (registry.perform_keepsFrom timeout place later (produced.mono grows.history)
      holds).bind ?_
    intro last outcome _ holds known
    refine ih outcome last ?_ last (World.Grows.refl last) holds
    rintro above outcome ⟨⟩
    exact known
  | group h ih => exact safe_group fun part member => ih part member world ended

end Plan

namespace ExecutionScope

variable {scope : ExecutionScope}

/-- The plan for a value that a call ended with comes from that value. -/
theorem grounded_complete {field : FieldName} {object : ObjectType → Json → Path → Plan}
    {above : Call} {returned : Json}
    (hobject : ∀ type parent path, Produces (some (above, .value returned)) path parent →
      (object type parent path).Grounded (some (above, .value returned)))
    (type : TypeRef) (value : Json) (indices : List Nat)
    (here : returned.at? (indices.map .index) = some value) {path : Path}
    (place : path = above.path ++ indices.map .index) :
    (scope.complete field object type value path).Grounded (some (above, .value returned)) := by
  fun_induction ExecutionScope.complete scope field object type value path generalizing indices with
  | case1 inner value path ih => exact (ih indices here place).map _
  | case3 item values path ih =>
    refine .group fun part member => ?_
    obtain ⟨i, hi⟩ := List.mem_iff_getElem?.1 member
    rw [List.getElem?_mapIdx] at hi
    obtain ⟨value, hvalue, rfl⟩ := Option.map_eq_some_iff.1 hi
    have below : returned.at? ((indices ++ [i]).map .index) = some value := by
      rw [List.map_append, Json.at?_append, here]
      simp [Json.at?, Json.part?, hvalue]
    have further : path.join (.index i) = above.path ++ (indices ++ [i]).map .index := by
      rw [place, Path.join, List.map_append, List.append_assoc]
      rfl
    have grounded := ih i value (indices ++ [i]) below further
    dsimp only
    split
    · exact grounded
    · exact grounded.map _
  | case7 name path type members htype =>
    exact hobject type _ path ⟨returned, indices, members, rfl, place, rfl, here⟩
  | _ => exact .done

/-- The calls that follow a call come from its outcome. -/
theorem grounded_afterCall {field : FieldName} {object : ObjectType → Json → Path → Plan}
    (call : Call)
    (hobject : ∀ origin type parent path, Produces origin path parent →
      (object type parent path).Grounded origin) (type : TypeRef) (outcome : Outcome) :
    (scope.afterCall field object type call.path outcome).Grounded (some (call, outcome)) := by
  cases outcome with
  | value value =>
    have grounded : (scope.complete field object type value call.path).Grounded
        (some (call, .value value)) :=
      grounded_complete (fun type parent path => hobject _ type parent path) type value [] rfl
        (List.append_nil _).symm
    simp only [afterCall, completeValue]
    split
    · exact grounded
    · exact grounded.map _
  | failed | timedOut | unbound | aborted => exact .done

/-- The calls for a response key come from the origin of the object. -/
theorem grounded_fieldPlan {nested : List Selection → ObjectType → Json → Path → Plan}
    (hnested : ∀ selections origin type parent path, Produces origin path parent →
      (nested selections type parent path).Grounded origin)
    {origin : Option (Call × Outcome)} (type : ObjectType) {parent : Json} {path : Path}
    (produces : Produces origin path parent) (group : FieldGroup) :
    (scope.fieldPlan nested type parent path group).Grounded origin := by
  unfold fieldPlan
  split
  · exact .done
  · split
    · exact .done
    · split
      · exact .done
      · split
        · exact .done
        · refine .call rfl produces fun outcome => ?_
          exact grounded_afterCall { parent, path := path.join (.key group.key), .. } (hnested _) _
            outcome

/-- The calls for the selections of an object come from the origin of the object. -/
theorem grounded_selectionPlan (depth : Nat) (serial : Bool) (selections : List Selection)
    (origin : Option (Call × Outcome)) (type : ObjectType) (parent : Json) (path : Path)
    (produces : Produces origin path parent) :
    (scope.selectionPlan depth serial selections type parent path).Grounded origin := by
  induction depth generalizing serial selections origin type parent path with
  | zero => exact .done
  | succ depth ih =>
    refine .group fun part member => ?_
    obtain ⟨group, -, rfl⟩ := List.mem_map.1 member
    exact grounded_fieldPlan (ih _) type produces group

end ExecutionScope

/-- The calls of an operation come from its root. -/
theorem Operation.grounded_plan (operation : Operation) (schema : Schema) (parallel : Bool)
    (values : Json.Object) (rootType : ObjectType) :
    (operation.plan schema parallel values rootType).Grounded none :=
  ExecutionScope.grounded_selectionPlan _ _ _ none rootType .null [] ⟨rfl, rfl⟩

/-- In every run of an operation each call is made for a field of an object that was produced
before. -/
theorem Engine.run_inTurn {State : Type} (engine : Engine State) {plan : Plan}
    (grounded : plan.Grounded none) (state : State) (cancelAt : Option Nat) :
    InTurn (engine.run plan state cancelAt).1.history := by
  have safe := grounded.safe engine.registry engine.configuration.resolverTimeout
    { state, cancelled := cancelAt == some 0 } (by rintro _ _ ⟨⟩)
  exact (safe _ (World.Grows.refl _) .nil).finish (fun _ _ holds _ _ => holds)
    fun _ _ _ holds => holds

end GraphQL
