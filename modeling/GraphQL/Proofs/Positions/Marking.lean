import GraphQL.Execution.Complete
import GraphQL.Proofs.Positions.Basic
import GraphQL.Proofs.Selections.Collected

/-!
# Marking the positions of an operation

Once the outcome of every call is known, each position of the response can be marked on its own:
its step fails, or it gives a value, or a list or an object of further positions. No null propagates
here. `Marking.ofObject` goes down the selections of the operation, each level of fields nesting
less deep than the one above, and needs no bound besides.

The main statement is `Marking.complete_root`: letting the nulls propagate afterwards, in the tree
of marked positions, gives what the plan of the operation comes to.
-/

set_option autoImplicit false

namespace GraphQL

/-- What the positions of an operation are marked by: the schema, the variables, and what became of
each call. -/
structure Marking where
  schema : Schema
  vars : Variables
  outcome : Call → Outcome

namespace Marking

/-- The scope of an execution, for which positions are marked. -/
def scope (m : Marking) (parallel : Bool) : ExecutionScope :=
  { schema := m.schema, vars := m.vars, parallel }

/-- A position whose own step fails. -/
def failure {α : Type} [Reportable α] (nonNull : Bool) (path : Path) (cause : α) : Position :=
  .failed nonNull (some (Reportable.report path cause))

/-- The position of a value: a null fails where the type is non-null, and so does a value that the
type cannot represent. `object` marks the objects. -/
def ofValue (m : Marking) (field : FieldName) (object : Bool → ObjectType → Json → Path → Position)
    (nonNull : Bool) : TypeRef → Json → Path → Position
  | .nonNull inner, value, path => ofValue m field object true inner value path
  | _, .null, path =>
    if nonNull then failure true path (ExecutionError.nonNullViolation field)
    else .leaf false .null
  | .list item, .array values, path =>
    .inner nonNull .items
      (values.mapIdx fun i value => ofValue m field object false item value (path.join (.index i)))
  | .list item, value, path =>
    failure nonNull path (ExecutionError.invalidValue field (.list item) value)
  | .builtin scalar, value, path =>
    match scalar.output? value with
    | some output => .leaf nonNull output
    | none => failure nonNull path (ExecutionError.invalidValue field (.builtin scalar) value)
  | .named name, value, path =>
    match m.schema.type? name, value with
    | some (.object type), .object members => object nonNull type (.object members) path
    | some (.enum type), .string symbol =>
      if type.values.contains symbol then .leaf nonNull (.string symbol)
      else failure nonNull path (ExecutionError.invalidValue field (.named name) (.string symbol))
    | some (.scalar _), value => .leaf nonNull value
    | _, value => failure nonNull path (ExecutionError.invalidValue field (.named name) value)

/-- The position of a field whose call had some outcome. -/
def ofOutcome (m : Marking) (field : FieldName)
    (object : Bool → ObjectType → Json → Path → Position) (type : TypeRef) (path : Path) :
    Outcome → Position
  | .value value => m.ofValue field object false type value path
  | .failed error => .failed type.isNonNull (some (error.report path))
  | .timedOut after => failure type.isNonNull path (ExecutionError.timeout field after)
  | .unbound cause => failure type.isNonNull path (ExecutionError.binding cause)
  | .aborted => .failed type.isNonNull none

/-- The position of a response key. The step of a field that the type does not declare fails, as
that of a nullable position; so does the step of a field with a sub-selection that its type does not
take, and of one whose arguments do not coerce. -/
def ofField (m : Marking) (object : Bool → ObjectType → Json → Path → Position) (type : ObjectType)
    (parent : Json) (parentPath : Path) (group : FieldGroup) : Position :=
  let path := parentPath.join (.key group.key)
  if group.first.name == "__typename" then .leaf true (.string type.name)
  else
    let field : FieldName := { typeName := type.name, fieldName := group.first.name }
    match type.field? group.first.name with
    | none => failure false path (ExecutionError.unknownField field)
    | some definition =>
      match m.schema.checkSelection definition group.selections with
      | some cause => failure definition.type.isNonNull path cause
      | none =>
        match Coercion.coerceArguments m.schema m.vars type.name definition
            group.first.arguments with
        | .error cause => failure definition.type.isNonNull path cause
        | .ok arguments =>
          m.ofOutcome field object definition.type path (m.outcome
            { parent, arguments, path, typeName := type.name, fieldName := group.first.name })

/-- The position of an object, of which some selections are made. -/
def ofObject (m : Marking) (selections : List Selection) (nonNull : Bool) (type : ObjectType)
    (parent : Json) (path : Path) : Position :=
  .inner nonNull (.fields ((collectFields type.name selections).map (·.key)))
    ((collectFields type.name selections).attach.map fun group =>
      m.ofField (m.ofObject group.1.selections) type parent path group.1)
termination_by Selection.depthAll selections
decreasing_by exact depthAll_lt_of_mem_collectFields group.2

/-- The position of the whole data of an operation. It has no position around it that could be null
in its place. -/
def root (m : Marking) (operation : Operation) (rootType : ObjectType) : Position :=
  m.ofObject operation.selections true rootType .null []

/-- The position of an object has the positions of its fields as parts, under their keys. -/
theorem ofObject_eq (m : Marking) (selections : List Selection) (nonNull : Bool)
    (type : ObjectType) (parent : Json) (path : Path) :
    m.ofObject selections nonNull type parent path =
      .inner nonNull (.fields ((collectFields type.name selections).map (·.key)))
        ((collectFields type.name selections).map fun group =>
          m.ofField (m.ofObject group.selections) type parent path group) := by
  rw [ofObject]
  congr 1
  exact List.attach_map_val (f := fun group =>
    m.ofField (m.ofObject group.selections) type parent path group)

end Marking

namespace Completion

/-- What a position comes to: a null fails where the type is non-null, and stops elsewhere. -/
def settle (field : FieldName) (path : Path) (nonNull : Bool) (c : Completion) : Completion :=
  if nonNull then c.require field path else c.absorb

/-- What is not null may stand where null may not. -/
theorem require_of_ne {field : FieldName} {path : Path} {c : Completion}
    (h : c.value ≠ some .null) : c.require field path = c := by
  unfold require
  split
  · next isNull => exact absurd isNull h
  · rfl

/-- To refuse null again makes no difference. -/
theorem require_require (field : FieldName) (path : Path) (c : Completion) :
    (c.require field path).require field path = c.require field path := by
  apply require_of_ne
  unfold require
  split
  · simp
  · next present => exact present

end Completion

namespace Marking

/-- Positions come to what plans do, if each one of them does. -/
theorem completeAll_eq_evalAll {α : Type} (outcome : Call → Outcome) (items : List α)
    (position : Nat → α → Position) (plan : Nat → α → Plan)
    (h : ∀ i item, (position i item).complete = (plan i item).eval outcome) :
    Position.completeAll (items.mapIdx position) = Plan.evalAll outcome (items.mapIdx plan) := by
  rw [Position.completeAll_eq_map, Plan.evalAll_eq_map]
  apply List.ext_getElem?
  intro i
  cases hi : items[i]? <;> simp [List.getElem?_mapIdx, hi, h]

/-- No built-in scalar writes null. -/
theorem output?_ne_null {scalar : BuiltinScalar} {value output : Json}
    (h : scalar.output? value = some output) : output ≠ .null := by
  rintro rfl
  unfold BuiltinScalar.output? at h
  split at h <;> simp [Json.ofInt] at h

/-- A position with parts comes to what its parts do together, settled as its own type says. -/
theorem complete_inner (field : FieldName) (path : Path) (nonNull : Bool) (shape : Shape)
    (parts : List Position) :
    (Position.inner nonNull shape parts).complete =
      (shape.assemble (Position.completeAll parts)).settle field path nonNull := by
  cases nonNull with
  | true =>
    have present : (shape.assemble (Position.completeAll parts)).value ≠ some .null := by
      rw [Shape.value_assemble, Ne, Option.map_eq_some_iff]
      rintro ⟨values, -, isNull⟩
      exact Shape.build_ne_null shape values isNull
    exact (Completion.require_of_ne present).symm
  | false => rfl

/-- A value comes to what it does at its type, settled as the type says. -/
theorem eval_completeValue (scope : ExecutionScope) (outcome : Call → Outcome) (field : FieldName)
    (object : ObjectType → Json → Path → Plan) (type : TypeRef) (value : Json) (path : Path) :
    (scope.completeValue field object type value path).eval outcome =
      ((scope.complete field object type value path).eval outcome).settle field path
        type.isNonNull := by
  cases type with
  | nonNull inner =>
    rw [ExecutionScope.completeValue, ExecutionScope.complete]
    simp only [TypeRef.isNonNull, if_true, Plan.eval_map, Completion.settle,
      Completion.require_require]
  | builtin scalar => exact Plan.eval_map _ _ _
  | named name => exact Plan.eval_map _ _ _
  | list item => exact Plan.eval_map _ _ _

/-- A value that is present is settled as it is. -/
theorem complete_leaf {plan : Plan} {outcome : Call → Outcome} {field : FieldName} {path : Path}
    {nonNull : Bool} {type : TypeRef} {value : Json} (ends : type.isNonNull = false)
    (present : value ≠ .null) (hplan : plan = .done (.ok value)) :
    (Position.leaf nonNull value).complete =
      (plan.eval outcome).settle field path (nonNull || type.isNonNull) := by
  rw [hplan, ends, Bool.or_false]
  cases nonNull with
  | true =>
    have settled : (Completion.ok value).value ≠ some .null := by
      simpa [Completion.ok] using present
    exact (Completion.require_of_ne settled).symm
  | false => rfl

/-- A value that its type cannot represent is settled by a failure of the position. -/
theorem complete_invalid {plan : Plan} {outcome : Call → Outcome} {field : FieldName} {path : Path}
    {nonNull : Bool} {type : TypeRef} {value : Json} (ends : type.isNonNull = false)
    (hplan : plan = .done (.invalid field path type value)) :
    (failure nonNull path (ExecutionError.invalidValue field type value)).complete =
      (plan.eval outcome).settle field path (nonNull || type.isNonNull) := by
  rw [hplan, ends, Bool.or_false]
  cases nonNull <;> rfl

/-- The position of a value comes to what completing the value does, settled where the type ends. -/
theorem complete_ofValue (m : Marking) (parallel : Bool) (field : FieldName)
    {nested : Bool → ObjectType → Json → Path → Position}
    {object : ObjectType → Json → Path → Plan}
    (hobject : ∀ nonNull type value path, (nested nonNull type value path).complete =
      ((object type value path).eval m.outcome).settle field path nonNull)
    (nonNull : Bool) (type : TypeRef) (value : Json) (path : Path) :
    (m.ofValue field nested nonNull type value path).complete =
      (((m.scope parallel).complete field object type value path).eval m.outcome).settle field path
        (nonNull || type.isNonNull) := by
  -- along the marking of the value; `nonNull` tells of the markers that were taken off before
  fun_induction Marking.ofValue m field nested nonNull type value path with
  | case1 nonNull inner value path ih =>
    rw [ih, ExecutionScope.complete, Plan.eval_map]
    simp only [TypeRef.isNonNull, Bool.or_true, Bool.true_or, Completion.settle, if_true,
      Completion.require_require]
  | case2 type path notNonNull =>
    rw [ExecutionScope.complete]
    · rfl
    · exact notNonNull
  | case3 type nonNull path nullable notNonNull =>
    rw [TypeRef.isNonNull_eq_false notNonNull, eq_false_of_ne_true nullable,
      ExecutionScope.complete]
    · rfl
    · exact notNonNull
  | case4 nonNull item values path ih =>
    have items := completeAll_eq_evalAll m.outcome values _
      (fun i value =>
        (m.scope parallel).completeValue field object item value (path.join (.index i)))
      fun i value => (ih i value).trans (eval_completeValue _ _ _ _ item value _).symm
    simp only [complete_inner field path, items, TypeRef.isNonNull, Bool.or_false]
    rfl
  | case5 nonNull item value path present notArray =>
    apply complete_invalid rfl
    rw [ExecutionScope.complete] <;> assumption
  | case6 nonNull scalar value path present output houtput =>
    apply complete_leaf rfl (output?_ne_null houtput)
    rw [ExecutionScope.complete, houtput]
    assumption
  | case7 nonNull scalar value path present houtput =>
    apply complete_invalid rfl
    rw [ExecutionScope.complete, houtput]
    assumption
  | case8 nonNull name path type members htype =>
    have plan : (m.scope parallel).complete field object (.named name) (.object members) path =
        object type (.object members) path := by
      simp only [ExecutionScope.complete, scope, htype]
    simp only [plan, TypeRef.isNonNull, Bool.or_false]
    exact hobject nonNull type _ path
  | case9 nonNull name path type symbol htype declared =>
    apply complete_leaf rfl Json.noConfusion
    simp only [ExecutionScope.complete, scope, htype, declared, if_true]
  | case10 nonNull name path type symbol htype undeclared =>
    apply complete_invalid rfl
    simp only [ExecutionScope.complete, scope, htype, undeclared]
    rfl
  | case11 nonNull name path scalar value htype present =>
    apply complete_leaf rfl present
    rw [ExecutionScope.complete] <;> assumption
  | case12 nonNull name path value notObject notEnum notScalar present =>
    apply complete_invalid rfl
    exact ExecutionScope.complete.eq_9 _ _ _ _ _ _ notScalar notObject notEnum present

/-- An object that may be null comes to null where one that may not comes to no value. -/
theorem complete_ofObject_settle (m : Marking) (selections : List Selection) (field : FieldName)
    (path : Path) (nonNull : Bool) (type : ObjectType) (value : Json) (below : Path) :
    (m.ofObject selections nonNull type value below).complete =
      (m.ofObject selections true type value below).complete.settle field path nonNull := by
  rw [ofObject_eq, ofObject_eq]
  exact complete_inner field path nonNull _ _

/-- The position of a response key comes to what its fields do. -/
theorem complete_ofField (m : Marking) (parallel : Bool)
    {nested : List Selection → ObjectType → Json → Path → Plan} (type : ObjectType) (parent : Json)
    (path : Path) (group : FieldGroup)
    (hnested : ∀ type value below, (m.ofObject group.selections true type value below).complete =
      (nested group.selections type value below).eval m.outcome) :
    (m.ofField (m.ofObject group.selections) type parent path group).complete =
      ((m.scope parallel).fieldPlan nested type parent path group).eval m.outcome := by
  unfold ofField ExecutionScope.fieldPlan
  by_cases isTypename : (group.first.name == "__typename") = true
  · rw [if_pos isTypename, if_pos isTypename]
    rfl
  rw [if_neg isTypename, if_neg isTypename]
  cases type.field? group.first.name with
  | none => rfl
  | some definition =>
    have failed : ∀ error, (Position.failed definition.type.isNonNull (some error)).complete =
        .missing definition.type [error] := fun _ => rfl
    cases hcheck : m.schema.checkSelection definition group.selections with
    | some cause => simp only [scope, hcheck, Plan.eval, failure, failed]
    | none =>
      cases harguments : Coercion.coerceArguments m.schema m.vars type.name definition
          group.first.arguments with
      | error cause => simp only [scope, hcheck, harguments, Plan.eval, failure, failed]
      | ok arguments =>
        simp only [scope, hcheck, harguments, Plan.eval]
        cases m.outcome _ with
        | value value =>
          refine (complete_ofValue m parallel _ ?_ false _ value _).trans
            (eval_completeValue (m.scope parallel) m.outcome _ _ _ value _).symm
          intro nonNull type value below
          rw [complete_ofObject_settle m _ _ below, hnested]
        | failed error => rfl
        | timedOut after => rfl
        | unbound cause => rfl
        | aborted => rfl

/-- The position of an object comes to what its selections do. -/
theorem complete_ofObject (m : Marking) (parallel serial : Bool) {depth : Nat}
    {selections : List Selection} (bounded : Selection.depthAll selections ≤ depth)
    (type : ObjectType) (value : Json) (below : Path) :
    (m.ofObject selections true type value below).complete =
      ((m.scope parallel).selectionPlan depth serial selections type value below).eval
        m.outcome := by
  induction depth generalizing serial selections type value below with
  | zero =>
    rw [ofObject_eq, collectFields_eq_nil type.name (Nat.le_zero.1 bounded)]
    rfl
  | succ depth ih =>
    have fields : Position.completeAll ((collectFields type.name selections).map fun group =>
          m.ofField (m.ofObject group.selections) type value below group) =
        Plan.evalAll m.outcome ((collectFields type.name selections).map
          ((m.scope parallel).fieldPlan
            ((m.scope parallel).selectionPlan depth (!parallel)) type value below)) := by
      rw [Position.completeAll_eq_map, Plan.evalAll_eq_map, List.map_map, List.map_map]
      apply List.map_congr_left
      intro group member
      have deeper := depthAll_lt_of_mem_collectFields member
      exact complete_ofField m parallel type value below group (ih (!parallel) (by omega))
    rw [ofObject_eq, Position.complete, fields]
    rfl

/-- The position of an operation comes to what its plan does, also when the plan runs its parts one
after the other. -/
theorem complete_root (schema : Schema) (operation : Operation) (values : Json.Object)
    (outcome : Call → Outcome) (rootType : ObjectType) (parallel : Bool) :
    (root { schema, vars := { definitions := operation.variableDefinitions, values }, outcome }
        operation rootType).complete =
      (operation.plan schema parallel values rootType).eval outcome :=
  complete_ofObject
    { schema, vars := { definitions := operation.variableDefinitions, values }, outcome } parallel _
    (Nat.le_refl _) rootType .null []

/-- A failed position with its error is well-formed. -/
theorem wellFormed_failure {α : Type} [Reportable α] (aborted : Prop) (nonNull : Bool) (path : Path)
    (cause : α) : (failure nonNull path cause).WellFormed aborted path :=
  .failed rfl

/-- The positions of a value are well-formed if those of the objects in it are. -/
theorem wellFormed_ofValue (m : Marking) {aborted : Prop} (field : FieldName)
    {object : Bool → ObjectType → Json → Path → Position}
    (hobject : ∀ nonNull type value path, (object nonNull type value path).WellFormed aborted path)
    (nonNull : Bool) (type : TypeRef) (value : Json) (path : Path) :
    (m.ofValue field object nonNull type value path).WellFormed aborted path := by
  fun_induction Marking.ofValue m field object nonNull type value path with
  | case1 nonNull inner value path ih => exact ih
  | case4 nonNull item values path ih =>
    refine .inner trivial ?_
    intro step part hpart
    obtain ⟨i, hstep, hi⟩ := Position.part?_inner_eq_some hpart
    cases step with
    | key name => cases hstep
    | index j =>
      cases hstep
      rw [List.getElem?_mapIdx] at hi
      obtain ⟨value, -, rfl⟩ := Option.map_eq_some_iff.1 hi
      exact ih i value
  | case8 nonNull name path type members htype => exact hobject nonNull type _ path
  | case2 | case5 | case7 | case10 | case12 => exact wellFormed_failure aborted _ _ _
  | case3 | case6 | case9 | case11 => exact .leaf

/-- The positions of what a call ended with are well-formed. -/
theorem wellFormed_ofOutcome (m : Marking) {aborted : Prop} (field : FieldName)
    {object : Bool → ObjectType → Json → Path → Position}
    (hobject : ∀ nonNull type value path, (object nonNull type value path).WellFormed aborted path)
    (type : TypeRef) (path : Path) {outcome : Outcome} (h : outcome = .aborted → aborted) :
    (m.ofOutcome field object type path outcome).WellFormed aborted path := by
  cases outcome with
  | value value => exact m.wellFormed_ofValue field hobject false type value path
  | failed error => exact .failed rfl
  | timedOut after => exact wellFormed_failure aborted _ path _
  | unbound cause => exact wellFormed_failure aborted _ path _
  | aborted => exact .aborted (h rfl)

/-- The position of a field is well-formed if those of the objects below it are. -/
theorem wellFormed_ofField (m : Marking) {object : Bool → ObjectType → Json → Path → Position}
    (hobject : ∀ nonNull type value path,
      (object nonNull type value path).WellFormed (∃ call, m.outcome call = .aborted) path)
    (type : ObjectType) (parent : Json) (path : Path) (group : FieldGroup) :
    (m.ofField object type parent path group).WellFormed (∃ call, m.outcome call = .aborted)
      (path.join (.key group.key)) := by
  unfold ofField
  split
  · exact .leaf
  · split
    · exact wellFormed_failure _ _ _ _
    · split
      · exact wellFormed_failure _ _ _ _
      · split
        · exact wellFormed_failure _ _ _ _
        · exact m.wellFormed_ofOutcome _ hobject _ _ fun h => ⟨_, h⟩

/-- The positions of an object are well-formed, and failed without an error only if a call is given
up. -/
theorem wellFormed_ofObject (m : Marking) (selections : List Selection) (nonNull : Bool)
    (type : ObjectType) (value : Json) (path : Path) :
    (m.ofObject selections nonNull type value path).WellFormed (∃ call, m.outcome call = .aborted)
      path := by
  induction selections using collectFields_induction generalizing nonNull type value path with
  | level selections ih =>
    rw [ofObject_eq]
    refine .inner ⟨nodup_keys_collectFields _ _, by simp⟩ ?_
    intro step part hpart
    obtain ⟨i, hstep, hi⟩ := Position.part?_inner_eq_some hpart
    cases step with
    | index j => cases hstep
    | key key =>
      rw [List.getElem?_map] at hi
      obtain ⟨group, hgroup, rfl⟩ := Option.map_eq_some_iff.1 hi
      have hkey := (Shape.index?_fields_iff (nodup_keys_collectFields _ _)).1 hstep
      rw [List.getElem?_map, hgroup] at hkey
      cases hkey
      exact m.wellFormed_ofField (ih type.name group (List.mem_of_getElem? hgroup)) type value path
        group

/-- The positions of an operation are in their places, and some are given up only if a call is. -/
theorem wellFormed_root (m : Marking) (operation : Operation) (rootType : ObjectType) :
    (m.root operation rootType).WellFormed (∃ call, m.outcome call = .aborted) [] :=
  m.wellFormed_ofObject _ _ _ _ _

end Marking

end GraphQL
