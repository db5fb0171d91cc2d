import GraphQL.Proofs.Positions.Executed
import GraphQL.Proofs.Positions.Replacement

/-!
# Outcomes that differ at one path

What follows from a change of outcomes that concerns the call at one path only. The calls that are
made are the same but for those strictly below the path (`Plan.Descends.filter_calls`), and the
positions of the response are the same but for the one at the path (`Marking.root_sameBut`). Each
call is made for a position at its own path, and one that is given up leaves that position failed,
without an error (`Marking.hosts_root`).
-/

set_option autoImplicit false

namespace GraphQL

namespace Plan

/-- The calls that a plan makes are where it leads. -/
theorem Descends.mem_calls {own : Bool} {base : Path} {plan : Plan} (h : plan.Descends own base)
    {outcome : Call → Outcome} {call : Call} (member : call ∈ plan.calls outcome) :
    Reach own base call.path := by
  induction h with
  | done => cases member
  | @call base first next place h ih =>
    rcases List.mem_cons.1 member with rfl | member
    · exact place ▸ List.prefix_rfl
    · exact (ih _ member).isPrefix
  | @group own base serial parts finish steps distinct length each ih =>
    rw [calls, callsAll_eq_flatMap] at member
    obtain ⟨part, hpart, member⟩ := List.mem_flatMap.1 member
    obtain ⟨i, hi, rfl⟩ := List.getElem_of_mem hpart
    have hs : i < steps.length := length ▸ hi
    exact .of_step (ih i _ _ (List.getElem?_eq_getElem hs) (List.getElem?_eq_getElem hi) member)

/-- Outcomes that agree but for the call at one path lead to the same calls, in the same order, but
for those strictly below that path. -/
theorem Descends.filter_calls {own : Bool} {base : Path} {plan : Plan} (h : plan.Descends own base)
    {first second : Call → Outcome} {place : Path}
    (agree : ∀ call, call.path ≠ place → first call = second call) :
    (plan.calls first).filter (fun call => ¬ place.Below call.path) =
      (plan.calls second).filter fun call => ¬ place.Below call.path := by
  induction h with
  | done => rfl
  | @call base call next at_base h ih =>
    rw [calls, calls, List.filter_cons, List.filter_cons]
    have later : ((next (first call)).calls first).filter (fun call => ¬ place.Below call.path) =
        ((next (second call)).calls second).filter fun call => ¬ place.Below call.path := by
      by_cases here : call.path = place
      · -- all that follows the call at the path is strictly below it
        have below : ∀ outcome outcomes, ((next outcome).calls outcomes).filter
            (fun call => ¬ place.Below call.path) = [] := by
          intro outcome outcomes
          rw [List.filter_eq_nil_iff]
          intro other member
          have inside := (h outcome).mem_calls member
          rw [← at_base, here] at inside
          have below : place.Below other.path := inside
          simpa using below
        rw [below, below]
      · rw [agree call here]
        exact ih _
    rw [later]
  | @group own base serial parts finish steps distinct length each ih =>
    rw [calls, calls, callsAll_eq_flatMap, callsAll_eq_flatMap, List.filter_flatMap,
      List.filter_flatMap, List.flatMap_def, List.flatMap_def]
    congr 1
    apply List.map_congr_left
    intro part member
    obtain ⟨i, hi, rfl⟩ := List.getElem_of_mem member
    have hs : i < steps.length := length ▸ hi
    exact ih i _ _ (List.getElem?_eq_getElem hs) (List.getElem?_eq_getElem hi)

end Plan

/-- Of the calls of an operation that have some property, the same are made. -/
theorem Operation.filter_calls_plan (operation : Operation) (schema : Schema) (parallel : Bool)
    (values : Json.Object) (rootType : ObjectType) {first second : Call → Outcome} {place : Path}
    (agree : ∀ call, call.path ≠ place → first call = second call) (p : Call → Bool) :
    (((operation.plan schema parallel values rootType).calls first).filter p).filter
        (fun call => ¬ place.Below call.path) =
      (((operation.plan schema parallel values rootType).calls second).filter p).filter
        fun call => ¬ place.Below call.path := by
  have descends := operation.descends_plan schema parallel values rootType
  have swap : ∀ calls : List Call, (calls.filter p).filter (fun call => ¬ place.Below call.path) =
      (calls.filter fun call => ¬ place.Below call.path).filter p :=
    fun calls => List.filter_comm _ _ calls
  rw [swap, swap, descends.filter_calls agree]

namespace Position

/-- The positions at some path are the same but for the one at another path, if that is at or below
it and is reached. -/
def SameBut (place base : Path) (old new : Position) : Prop :=
  old = new ∨ ∃ rest, place = base ++ rest ∧ ReplacedAt rest old new

/-- Positions with parts are the same but for one, if their parts are. -/
theorem SameBut.inner {place base : Path} {nonNull : Bool} {shape : Shape}
    {parts parts' : List Position} (fits : shape.Fits parts.length)
    (length : parts'.length = parts.length)
    (h : ∀ (i : Nat) (step : PathElement) (part part' : Position), shape.index? step = some i →
      parts[i]? = some part → parts'[i]? = some part' → SameBut place (base.join step) part part') :
    SameBut place base (.inner nonNull shape parts) (.inner nonNull shape parts') := by
  have partner : ∀ {i : Nat} {part : Position}, parts[i]? = some part →
      ∃ part', parts'[i]? = some part' := by
    intro i part hpart
    have hi := (List.getElem?_eq_some_iff.1 hpart).1
    exact ⟨_, List.getElem?_eq_getElem (by omega)⟩
  by_cases same : ∀ (i : Nat) (part part' : Position), parts[i]? = some part →
      parts'[i]? = some part' → part = part'
  · left
    congr 1
    apply List.ext_getElem?
    intro i
    cases hpart : parts[i]? with
    | none => rw [eq_comm, List.getElem?_eq_none_iff, length, ← List.getElem?_eq_none_iff, hpart]
    | some part =>
      obtain ⟨part', hpart'⟩ := partner hpart
      rw [hpart', same i part part' hpart hpart']
  -- some part differs; the path leads through it, and so through no other one
  simp only [not_forall] at same
  obtain ⟨i, part, part', hpart, hpart', different⟩ := same
  have hi := (List.getElem?_eq_some_iff.1 hpart).1
  obtain ⟨step, hstep⟩ := Shape.exists_step fits hi
  obtain ⟨rest, through, replaced⟩ :=
    (h i step part part' hstep hpart hpart').resolve_left different
  have others : parts' = parts.set i part' := by
    apply List.ext_getElem?
    intro j
    by_cases here : i = j
    · subst here
      simp [hi, hpart']
    rw [List.getElem?_set_ne here]
    cases hother : parts[j]? with
    | none => rw [List.getElem?_eq_none_iff, length, ← List.getElem?_eq_none_iff, hother]
    | some other =>
      obtain ⟨other', hother'⟩ := partner hother
      obtain ⟨step', hstep'⟩ := Shape.exists_step fits (List.getElem?_eq_some_iff.1 hother).1
      rcases h j step' other other' hstep' hother hother' with same | ⟨rest', through', -⟩
      · rw [hother', same]
      · have on : base.join step <+: place := ⟨rest, through.symm⟩
        have on' : base.join step' <+: place := ⟨rest', through'.symm⟩
        obtain rfl := Path.step_eq_of_isPrefix on on'
        rw [hstep] at hstep'
        exact absurd (Option.some.inj hstep') here
  right
  refine ⟨step :: rest, ?_, ?_⟩
  · rw [through, Path.join, List.append_assoc, List.singleton_append]
  · rw [others]
    exact .inside hstep hpart replaced

/-- The positions at some path have one for a call, at the path of the call. If the call is given
up, that position is failed without an error. -/
def Hosts (base : Path) (call : Call) (outcome : Outcome) (position : Position) : Prop :=
  ∃ rest below, call.path = base ++ rest ∧ position.at? rest = some below ∧
    (outcome = .aborted → ∃ nonNull, below = .failed nonNull none)

/-- What one of the parts has, the position with these parts has. -/
theorem Hosts.inner {base : Path} {call : Call} {outcome : Outcome} {nonNull : Bool} {shape : Shape}
    {parts : List Position} {i : Nat} {step : PathElement} {part : Position}
    (place : shape.index? step = some i) (hpart : parts[i]? = some part)
    (h : part.Hosts (base.join step) call outcome) :
    (Position.inner nonNull shape parts).Hosts base call outcome := by
  obtain ⟨rest, below, path, hbelow, given⟩ := h
  refine ⟨step :: rest, below, ?_, (at?_cons (part?_inner_eq place hpart)).trans hbelow, given⟩
  rw [path, Path.join, List.append_assoc, List.singleton_append]

end Position

namespace Marking

/-- A position is as nullable as it is asked to be and its type says. -/
theorem nonNull_ofValue (m : Marking) (field : FieldName)
    {object : Bool → ObjectType → Json → Path → Position}
    (hobject : ∀ nonNull type value path, (object nonNull type value path).nonNull = nonNull)
    (nonNull : Bool) (type : TypeRef) (value : Json) (path : Path) :
    (m.ofValue field object nonNull type value path).nonNull = (nonNull || type.isNonNull) := by
  fun_induction Marking.ofValue m field object nonNull type value path with
  | case1 nonNull inner value path ih => rw [ih, TypeRef.isNonNull, Bool.or_true, Bool.true_or]
  | case2 type path notNonNull => rfl
  | case3 type nonNull path nullable notNonNull =>
    rw [eq_false_of_ne_true nullable, TypeRef.isNonNull_eq_false notNonNull]
    rfl
  | case8 nonNull name path type members htype =>
    exact (hobject _ _ _ _).trans (Bool.or_false _).symm
  | _ => exact (Bool.or_false _).symm

/-- Values are marked by the schema, and by how the objects in them are. -/
theorem sameBut_ofValue {m m' : Marking} (schema : m'.schema = m.schema) {place : Path}
    (field : FieldName) {object object' : Bool → ObjectType → Json → Path → Position}
    (hobject : ∀ nonNull type value path, Position.SameBut place path
      (object nonNull type value path) (object' nonNull type value path))
    (nonNull : Bool) (type : TypeRef) (value : Json) (path : Path) :
    Position.SameBut place path (m.ofValue field object nonNull type value path)
      (m'.ofValue field object' nonNull type value path) := by
  fun_induction Marking.ofValue m field object nonNull type value path with
  | case1 nonNull inner value path ih =>
    rw [Marking.ofValue]
    exact ih
  | case4 nonNull item values path ih =>
    rw [Marking.ofValue]
    refine .inner trivial (by simp) ?_
    intro i step part part' hstep hpart hpart'
    cases step with
    | key name => cases hstep
    | index j =>
      cases hstep
      rw [List.getElem?_mapIdx] at hpart hpart'
      obtain ⟨value, hvalue, rfl⟩ := Option.map_eq_some_iff.1 hpart
      rw [hvalue] at hpart'
      cases hpart'
      exact ih i value
  | case8 nonNull name path type members htype =>
    have marked : m'.ofValue field object' nonNull (.named name) (.object members) path =
        object' nonNull type (.object members) path := by
      simp [Marking.ofValue, schema, htype]
    rw [marked]
    exact hobject nonNull type _ path
  | _ => exact Or.inl (by simp_all [Marking.ofValue])

/-- Markings that agree but for the call at one path mark the positions of a field alike, but for
the one at that path. -/
theorem sameBut_ofField {m m' : Marking} (schema : m'.schema = m.schema) (vars : m'.vars = m.vars)
    {place : Path} (agree : ∀ call, call.path ≠ place → m'.outcome call = m.outcome call)
    {object object' : Bool → ObjectType → Json → Path → Position}
    (hnonNull : ∀ nonNull type value path, (object nonNull type value path).nonNull = nonNull)
    (hnonNull' : ∀ nonNull type value path, (object' nonNull type value path).nonNull = nonNull)
    (hobject : ∀ nonNull type value path, Position.SameBut place path
      (object nonNull type value path) (object' nonNull type value path))
    (type : ObjectType) (parent : Json) (path : Path) (group : FieldGroup) :
    Position.SameBut place (path.join (.key group.key)) (m.ofField object type parent path group)
      (m'.ofField object' type parent path group) := by
  unfold ofField
  rw [schema, vars]
  split
  · exact Or.inl rfl
  simp only
  split
  · exact Or.inl rfl
  next definition declared =>
  split
  · exact Or.inl rfl
  split
  · exact Or.inl rfl
  next arguments coerced =>
  -- the position of a call is as nullable as the type of its field, whatever the outcome
  have nonNull : ∀ (m : Marking) object outcome,
      (∀ nonNull type value path, (object nonNull type value path).nonNull = nonNull) →
      (m.ofOutcome { typeName := type.name, fieldName := group.first.name } object definition.type
        (path.join (.key group.key)) outcome).nonNull = definition.type.isNonNull := by
    intro m object outcome hobject
    cases outcome with
    | value value => exact (m.nonNull_ofValue _ hobject false _ _ _).trans (Bool.false_or _)
    | failed | timedOut | unbound | aborted => rfl
  by_cases here : path.join (.key group.key) = place
  · refine Or.inr ⟨[], by rw [here, List.append_nil], .here ?_⟩
    rw [nonNull m' object' _ hnonNull', nonNull m object _ hnonNull]
  · rw [agree _ here]
    cases m.outcome _ with
    | value value => exact sameBut_ofValue schema _ hobject false _ _ _
    | failed | timedOut | unbound | aborted => exact Or.inl rfl

/-- Whether the position of an object may be null is as given. -/
theorem nonNull_ofObject (m : Marking) (selections : List Selection) (nonNull : Bool)
    (type : ObjectType) (value : Json) (path : Path) :
    (m.ofObject selections nonNull type value path).nonNull = nonNull := by
  rw [ofObject_eq]
  rfl

/-- Where outcomes differ at one path alone, the positions of an object are the same but for the one
there. -/
theorem sameBut_ofObject {m m' : Marking} (schema : m'.schema = m.schema) (vars : m'.vars = m.vars)
    {place : Path} (agree : ∀ call, call.path ≠ place → m'.outcome call = m.outcome call)
    (selections : List Selection) (nonNull : Bool) (type : ObjectType) (value : Json)
    (path : Path) : Position.SameBut place path (m.ofObject selections nonNull type value path)
      (m'.ofObject selections nonNull type value path) := by
  induction selections using collectFields_induction generalizing nonNull type value path with
  | level selections ih =>
    rw [ofObject_eq, ofObject_eq]
    have keys := nodup_keys_collectFields type.name selections
    refine .inner ⟨keys, by simp⟩ (by simp) ?_
    intro i step part part' hstep hpart hpart'
    cases step with
    | index j => cases hstep
    | key key =>
      rw [List.getElem?_map] at hpart hpart'
      obtain ⟨group, hgroup, rfl⟩ := Option.map_eq_some_iff.1 hpart
      rw [hgroup] at hpart'
      cases hpart'
      have hkey := (Shape.index?_fields_iff keys).1 hstep
      rw [List.getElem?_map, hgroup] at hkey
      cases hkey
      exact sameBut_ofField schema vars agree (m.nonNull_ofObject _) (m'.nonNull_ofObject _)
        (ih type.name group (List.mem_of_getElem? hgroup)) type value path group

/-- Outcomes that agree but for the call at one path lead to the same positions, but for the one at
that path. -/
theorem root_sameBut {m m' : Marking} (schema : m'.schema = m.schema) (vars : m'.vars = m.vars)
    {place : Path} (agree : ∀ call, call.path ≠ place → m'.outcome call = m.outcome call)
    (operation : Operation) (rootType : ObjectType) :
    Position.SameBut place [] (m.root operation rootType) (m'.root operation rootType) :=
  sameBut_ofObject schema vars agree _ _ _ _ _

/-- Each call for a value has its position, if each call for an object in it has. -/
theorem hosts_ofValue (m : Marking) (parallel : Bool) (field : FieldName)
    {nested : Bool → ObjectType → Json → Path → Position} {object : ObjectType → Json → Path → Plan}
    {call : Call}
    (hobject : ∀ nonNull type value path, call ∈ (object type value path).calls m.outcome →
      (nested nonNull type value path).Hosts path call (m.outcome call))
    (nonNull : Bool) (type : TypeRef) (value : Json) (path : Path)
    (made : call ∈ ((m.scope parallel).complete field object type value path).calls m.outcome) :
    (m.ofValue field nested nonNull type value path).Hosts path call (m.outcome call) := by
  fun_induction Marking.ofValue m field nested nonNull type value path with
  | case1 nonNull inner value path ih =>
    rw [ExecutionScope.complete, Plan.calls_map] at made
    exact ih made
  | case4 nonNull item values path ih =>
    rw [ExecutionScope.complete, Plan.calls, Plan.callsAll_eq_flatMap] at made
    obtain ⟨plan, hplan, made⟩ := List.mem_flatMap.1 made
    obtain ⟨i, hi, rfl⟩ := List.mem_mapIdx.1 hplan
    have here : call ∈ ((m.scope parallel).complete field object item values[i]
        (path.join (.index i))).calls m.outcome := by
      simp only at made
      split at made
      · exact made
      · rwa [Plan.calls_map] at made
    have place : Shape.items.index? (.index i) = some i := rfl
    exact .inner place (by simp [hi]) (ih i _ here)
  | case8 nonNull name path type members htype =>
    have plan : (m.scope parallel).complete field object (.named name) (.object members) path =
        object type (.object members) path := by
      simp only [ExecutionScope.complete, scope, htype]
    rw [plan] at made
    exact hobject nonNull type _ path made
  | _ => simp_all [ExecutionScope.complete, scope, Plan.calls]

/-- Each call for the value that a call ended with has its position. -/
theorem hosts_ofOutcome (m : Marking) (parallel : Bool) (field : FieldName)
    {nested : Bool → ObjectType → Json → Path → Position} {object : ObjectType → Json → Path → Plan}
    {call : Call}
    (hobject : ∀ nonNull type value path, call ∈ (object type value path).calls m.outcome →
      (nested nonNull type value path).Hosts path call (m.outcome call))
    (type : TypeRef) (path : Path) (outcome : Outcome)
    (made : call ∈ ((m.scope parallel).afterCall field object type path outcome).calls m.outcome) :
    (m.ofOutcome field nested type path outcome).Hosts path call (m.outcome call) := by
  cases outcome with
  | value value =>
    simp only [ExecutionScope.afterCall, ExecutionScope.completeValue] at made
    refine m.hosts_ofValue parallel field hobject false type value path ?_
    split at made
    · exact made
    · rwa [Plan.calls_map] at made
  | failed | timedOut | unbound | aborted => cases made

/-- The call of a field has the position of the field, and the calls below have theirs in it. -/
theorem hosts_ofField (m : Marking) (parallel : Bool)
    {nested : List Selection → ObjectType → Json → Path → Plan} {type : ObjectType} {parent : Json}
    {path : Path} {group : FieldGroup} {call : Call}
    (hnested : ∀ nonNull type value below,
      call ∈ (nested group.selections type value below).calls m.outcome →
        (m.ofObject group.selections nonNull type value below).Hosts below call (m.outcome call))
    (made : call ∈ ((m.scope parallel).fieldPlan nested type parent path group).calls m.outcome) :
    (m.ofField (m.ofObject group.selections) type parent path group).Hosts
      (path.join (.key group.key)) call (m.outcome call) := by
  unfold ExecutionScope.fieldPlan at made
  unfold ofField
  by_cases isTypename : (group.first.name == "__typename") = true
  · rw [if_pos isTypename] at made
    cases made
  rw [if_neg isTypename] at made ⊢
  cases hdefinition : type.field? group.first.name with
  | none =>
    rw [hdefinition] at made
    cases made
  | some definition =>
    cases hcheck : m.schema.checkSelection definition group.selections with
    | some cause =>
      simp only [hdefinition, scope, hcheck] at made
      cases made
    | none =>
      cases harguments : Coercion.coerceArguments m.schema m.vars type.name definition
          group.first.arguments with
      | error cause =>
        simp only [hdefinition, scope, hcheck, harguments] at made
        cases made
      | ok arguments =>
        simp only [hdefinition, scope, hcheck, harguments, Plan.calls] at made
        simp only [hcheck, harguments]
        rcases List.mem_cons.1 made with rfl | made
        · -- the call of the field itself
          refine ⟨[], _, (List.append_nil _).symm, rfl, fun given => ?_⟩
          rw [given]
          exact ⟨_, rfl⟩
        · exact m.hosts_ofOutcome parallel _ hnested _ _ _ made

/-- Each call for an object has its position. -/
theorem hosts_ofObject (m : Marking) (parallel serial : Bool) (depth : Nat)
    (selections : List Selection) (nonNull : Bool) (type : ObjectType) (value : Json) (path : Path)
    {call : Call}
    (made : call ∈
      ((m.scope parallel).selectionPlan depth serial selections type value path).calls m.outcome) :
    (m.ofObject selections nonNull type value path).Hosts path call (m.outcome call) := by
  induction depth generalizing serial selections nonNull type value path with
  | zero => cases made
  | succ depth ih =>
    rw [ExecutionScope.selectionPlan, Plan.calls, Plan.callsAll_eq_flatMap] at made
    obtain ⟨plan, hplan, made⟩ := List.mem_flatMap.1 made
    obtain ⟨i, hi, rfl⟩ := List.getElem_of_mem hplan
    rw [List.length_map] at hi
    rw [List.getElem_map] at made
    have keys := nodup_keys_collectFields type.name selections
    have place : (Shape.fields ((collectFields type.name selections).map (·.key))).index?
        (.key (collectFields type.name selections)[i].key) = some i :=
      (Shape.index?_fields_iff keys).2 (by simp [hi])
    rw [ofObject_eq]
    exact .inner place (by simp [hi])
      (m.hosts_ofField parallel (fun nonNull => ih _ _ nonNull) made)

/-- Each call that an operation makes has a position at its path. -/
theorem hosts_root (schema : Schema) (operation : Operation) (values : Json.Object)
    (outcome : Call → Outcome) (rootType : ObjectType) (parallel : Bool) {call : Call}
    (made : call ∈ (operation.plan schema parallel values rootType).calls outcome) :
    (root { schema, vars := { definitions := operation.variableDefinitions, values }, outcome }
      operation rootType).Hosts [] call (outcome call) :=
  hosts_ofObject
    { schema, vars := { definitions := operation.variableDefinitions, values }, outcome } parallel
    _ _ _ _ _ _ _ made

end Marking

namespace Engine

variable {State State' : Type}

/-- The nearest place at or above the end of a path that may be null, in the response to a request
whose calls have some outcomes. There is none if nulls propagate from there to the whole data. -/
def nearest? (engine : Engine State) (request : Request) (outcome : Call → Outcome) (path : Path) :
    Option Path :=
  match engine.select request with
  | .error _ => none
  | .ok (operation, rootType) =>
    (engine.positions request operation rootType outcome).nearest? path

/-- The nearest place that may be null is the one among the positions of the operation. -/
theorem nearest?_of_select {engine : Engine State} {request : Request} {operation : Operation}
    {rootType : ObjectType} (selected : engine.select request = .ok (operation, rootType))
    (outcome : Call → Outcome) : engine.nearest? request outcome =
      (engine.positions request operation rootType outcome).nearest? := by
  funext path
  simp only [nearest?, selected]

/-- The positions of an operation are well-formed, and failed without an error only if a call is
given up. -/
theorem wellFormed_positions (engine : Engine State) (request : Request) (operation : Operation)
    (rootType : ObjectType) (outcome : Call → Outcome) :
    (engine.positions request operation rootType outcome).WellFormed
      (∃ call, outcome call = .aborted) [] :=
  Marking.wellFormed_root
    { schema := engine.schema
      vars := { definitions := operation.variableDefinitions, values := request.variableValues }
      outcome }
    operation rootType

/-- Where outcomes differ at one path alone, the positions of an operation are the same but for the
one there. -/
theorem positions_sameBut {first : Engine State} {second : Engine State'}
    (schema : second.schema = first.schema) {outcome outcome' : Call → Outcome} {place : Path}
    (agree : ∀ call, call.path ≠ place → outcome' call = outcome call) (request : Request)
    (operation : Operation) (rootType : ObjectType) :
    Position.SameBut place [] (first.positions request operation rootType outcome)
      (second.positions request operation rootType outcome') := by
  unfold positions
  apply Marking.root_sameBut
  · exact schema
  · rfl
  · exact agree

end Engine

end GraphQL
