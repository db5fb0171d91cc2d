import GraphQL.Proofs.Visits.Basic
import GraphQL.Proofs.Positions.ErrorAccounting

/-!
# Where errors come from

Every position of a response is that of some visit, and every error that a response reports at a
path is due to what some visit finds wrong there: a field that cannot be called, a call that ended
without a value, or a value that its type does not allow.
-/

set_option autoImplicit false

namespace GraphQL

open Relation (ReflTransGen)

/-- What can be wrong with a step of an execution. -/
inductive Fault where
  | failed (error : FieldError)
  | execution (cause : ExecutionError)
  | coercion (cause : CoercionError)

/-- The error that is reported for a fault. -/
def Fault.report (path : Path) : Fault → ResponseError
  | failed error => error.report path
  | execution cause => Reportable.report path cause
  | coercion cause => Reportable.report path cause

namespace Marking

variable {m : Marking}

/-- A visit finds something wrong. -/
inductive Finds (m : Marking) : Visit → Fault → Prop
  | unknownField {type : ObjectType} {parent : Json} {path : Path} {group : FieldGroup}
    (h : type.field? group.first.name = none) :
    Finds m (.field type parent path group)
      (.execution (.unknownField { typeName := type.name, fieldName := group.first.name }))
  | selection {type : ObjectType} {parent : Json} {path : Path} {group : FieldGroup}
    {definition : FieldDefinition} {cause : ExecutionError}
    (h : m.schema.checkSelection definition group.selections = some cause) :
    Finds m (.field type parent path group) (.execution cause)
  | arguments {type : ObjectType} {parent : Json} {path : Path} {group : FieldGroup}
    {definition : FieldDefinition} {cause : CoercionError}
    (h : Coercion.coerceArguments m.schema m.vars type.name definition group.first.arguments =
      .error cause) :
    Finds m (.field type parent path group) (.coercion cause)
  | failed {type : ObjectType} {parent : Json} {path : Path} {group : FieldGroup}
    {definition : FieldDefinition} {call : Call} {error : FieldError}
    (h : m.request? type parent path group = some (definition, call))
    (ended : m.outcome call = .failed error) :
    Finds m (.field type parent path group) (.failed error)
  | timedOut {type : ObjectType} {parent : Json} {path : Path} {group : FieldGroup}
    {definition : FieldDefinition} {call : Call} {after : Duration}
    (h : m.request? type parent path group = some (definition, call))
    (ended : m.outcome call = .timedOut after) :
    Finds m (.field type parent path group)
      (.execution (.timeout { typeName := type.name, fieldName := group.first.name } after))
  | unbound {type : ObjectType} {parent : Json} {path : Path} {group : FieldGroup}
    {definition : FieldDefinition} {call : Call} {cause : BindingError}
    (h : m.request? type parent path group = some (definition, call))
    (ended : m.outcome call = .unbound cause) :
    Finds m (.field type parent path group) (.execution (.binding cause))
  | null {field : FieldName} {selections : List Selection} {type : TypeRef} {path : Path} :
    Finds m (.value field selections type .null path) (.execution (.nonNullViolation field))
  | value {field : FieldName} {selections : List Selection} {type : TypeRef} {value : Json}
    {path : Path} :
    Finds m (.value field selections type value path) (.execution (.invalidValue field type value))

/-- The position of a visit; `nonNull` says whether it may be null. -/
def position (m : Marking) (nonNull : Bool) : Visit → Position
  | .object selections type parent path => m.ofObject selections nonNull type parent path
  | .field type parent path group =>
    m.ofField (m.ofObject group.selections) type parent path group
  | .value field selections type value path =>
    m.ofValue field (m.ofObject selections) nonNull type value path

/-- A position is that of a visit: if it fails, then by what a visit at its path finds wrong, and
the positions in it are those of further visits. -/
structure Explains (m : Marking) (visit : Visit) (position : Position) : Prop where
  failed : ∀ nonNull error, position = .failed nonNull (some error) →
    ∃ later fault, m.Reaches visit later ∧ later.path = visit.path ∧ m.Finds later fault ∧
      error = fault.report visit.path
  part : ∀ step part, position.part? step = some part →
    ∃ later nonNull, m.Reaches visit later ∧ later.path = visit.path.join step ∧
      part = m.position nonNull later

namespace Explains

variable {visit : Visit} {nonNull : Bool}

/-- A value explains itself. -/
theorem leaf {value : Json} : m.Explains visit (.leaf nonNull value) := by
  refine ⟨?_, ?_⟩
  · rintro _ _ ⟨⟩
  · rintro _ _ ⟨⟩

/-- A call that was given up reports nothing. -/
theorem aborted : m.Explains visit (.failed nonNull none) := by
  refine ⟨?_, ?_⟩
  · rintro _ _ ⟨⟩
  · rintro _ _ ⟨⟩

/-- A failure is explained by what the visit itself finds wrong. -/
theorem fault {fault : Fault} (finds : m.Finds visit fault) :
    m.Explains visit (.failed nonNull (some (fault.report visit.path))) := by
  refine ⟨?_, ?_⟩
  · rintro _ _ ⟨⟩
    exact ⟨visit, fault, .refl, rfl, finds, rfl⟩
  · rintro _ _ ⟨⟩

/-- A visit has the position of one that it leads to at the same path. -/
theorem of_leads {next : Visit} {position : Position} (leads : m.Leads visit next)
    (same : next.path = visit.path) (h : m.Explains next position) :
    m.Explains visit position := by
  refine ⟨?_, ?_⟩
  · intro nonNull error failed
    obtain ⟨later, fault, reached, here, finds, reported⟩ := h.failed nonNull error failed
    exact ⟨later, fault, .head leads reached, here.trans same, finds, same ▸ reported⟩
  · intro step part hpart
    obtain ⟨later, nonNull, reached, there, position⟩ := h.part step part hpart
    exact ⟨later, nonNull, .head leads reached, same ▸ there, position⟩

end Explains

/-- The position of a value is explained by its visit, if those of the objects in it are by
theirs. -/
theorem explains_ofValue {field : FieldName} {selections : List Selection}
    (hobject : ∀ nonNull type value path, m.Explains (.object selections type value path)
      (m.ofObject selections nonNull type value path))
    (nonNull : Bool) (type : TypeRef) (value : Json) (path : Path) :
    m.Explains (.value field selections type value path)
      (m.ofValue field (m.ofObject selections) nonNull type value path) := by
  fun_induction Marking.ofValue m field (m.ofObject selections) nonNull type value path with
  | case1 nonNull inner value path ih => exact ih.of_leads .nonNull rfl
  | case2 type path notNonNull => exact .fault .null
  | case4 nonNull item values path ih =>
    refine ⟨?_, ?_⟩
    · rintro _ _ ⟨⟩
    · intro step part hpart
      obtain ⟨i, hstep, hi⟩ := Position.part?_inner_eq_some hpart
      cases step with
      | key name => cases hstep
      | index j =>
        cases hstep
        rw [List.getElem?_mapIdx] at hi
        obtain ⟨value, hvalue, rfl⟩ := Option.map_eq_some_iff.1 hi
        exact ⟨_, false, .single (.item hvalue), rfl, rfl⟩
  | case8 nonNull name path type members htype =>
    exact (hobject nonNull type _ path).of_leads (.object htype) rfl
  | case5 | case7 | case10 | case12 => exact .fault .value
  | case3 | case6 | case9 | case11 => exact .leaf

/-- What follows a call is explained by the visit of its field. -/
theorem explains_ofOutcome {type : ObjectType} {parent : Json} {path : Path} {group : FieldGroup}
    (hobject : ∀ nonNull type value path, m.Explains (.object group.selections type value path)
      (m.ofObject group.selections nonNull type value path))
    {definition : FieldDefinition} {call : Call}
    (h : m.request? type parent path group = some (definition, call)) :
    m.Explains (.field type parent path group)
      (m.ofOutcome { typeName := type.name, fieldName := group.first.name }
        (m.ofObject group.selections) definition.type call.path (m.outcome call)) := by
  have here : call.path = (Visit.field type parent path group).path := path_of_request? h
  cases ended : m.outcome call with
  | value value =>
    exact (explains_ofValue hobject false definition.type value call.path).of_leads
      (.outcome h ended) here
  | failed error =>
    rw [here]
    exact .fault (.failed h ended)
  | timedOut after =>
    rw [here]
    exact .fault (.timedOut h ended)
  | unbound cause =>
    rw [here]
    exact .fault (.unbound h ended)
  | aborted => exact .aborted

/-- The position of a field is explained by its visit, if those of the objects below are by
theirs. -/
theorem explains_ofField {type : ObjectType} {parent : Json} {path : Path} {group : FieldGroup}
    (hobject : ∀ nonNull type value path, m.Explains (.object group.selections type value path)
      (m.ofObject group.selections nonNull type value path)) :
    m.Explains (.field type parent path group)
      (m.ofField (m.ofObject group.selections) type parent path group) := by
  unfold ofField
  split
  · exact .leaf
  · next notTypename =>
    split
    · next unknown => exact .fault (.unknownField unknown)
    · next definition known =>
      split
      · next cause hselection => exact .fault (.selection hselection)
      · next hselection =>
        split
        · next cause hcause => exact .fault (.arguments hcause)
        · next arguments harguments =>
          refine explains_ofOutcome hobject ?_
          simp [request?, notTypename, known, hselection, harguments]

/-- The position of an object is explained by its visit. -/
theorem explains_ofObject (selections : List Selection) (nonNull : Bool) (type : ObjectType)
    (value : Json) (path : Path) :
    m.Explains (.object selections type value path)
      (m.ofObject selections nonNull type value path) := by
  rw [ofObject_eq]
  refine ⟨?_, ?_⟩
  · rintro _ _ ⟨⟩
  · intro step part hpart
    obtain ⟨i, hstep, hi⟩ := Position.part?_inner_eq_some hpart
    cases step with
    | index j => cases hstep
    | key key =>
      rw [List.getElem?_map] at hi
      obtain ⟨group, hgroup, rfl⟩ := Option.map_eq_some_iff.1 hi
      have hkey := (Shape.index?_fields_iff (nodup_keys_collectFields _ _)).1 hstep
      rw [List.getElem?_map, hgroup] at hkey
      cases hkey
      exact ⟨_, false, .single (.field (List.mem_of_getElem? hgroup)), rfl, rfl⟩

/-- The position of every visit is explained by it. -/
theorem explains_position (nonNull : Bool) (visit : Visit) :
    m.Explains visit (m.position nonNull visit) := by
  cases visit with
  | object selections type parent path => exact explains_ofObject selections nonNull type parent path
  | field type parent path group => exact explains_ofField (explains_ofObject group.selections)
  | value field selections type value path =>
    exact explains_ofValue (explains_ofObject selections) nonNull type value path

/-- What is found at a path below a visit is the position of a visit that it reaches. -/
theorem exists_visit_of_at? {visit : Visit} {nonNull : Bool} {path : Path} {position : Position}
    (h : (m.position nonNull visit).at? path = some position) :
    ∃ later nonNull', m.Reaches visit later ∧ later.path = visit.path ++ path ∧
      position = m.position nonNull' later := by
  induction path generalizing visit nonNull with
  | nil =>
    cases h
    exact ⟨visit, nonNull, .refl, (List.append_nil _).symm, rfl⟩
  | cons step rest ih =>
    obtain ⟨part, hpart, hrest⟩ := Option.bind_eq_some_iff.1 h
    obtain ⟨next, nonNull', reached, there, rfl⟩ := (explains_position nonNull visit).part step part hpart
    obtain ⟨later, nonNull'', onwards, below, same⟩ := ih hrest
    refine ⟨later, nonNull'', reached.trans onwards, ?_, same⟩
    rw [below, there, Path.join, List.append_assoc, List.singleton_append]

end Marking

end GraphQL
