import GraphQL.Execution.Error

/-!
# Plans

What an operation does, as a tree: calls of resolvers, each with what follows for every outcome,
and groups of parts that run one after the other or side by side. A plan says nothing about time
or shared state. `Plan.eval` reads it when the outcome of every call is known beforehand;
`GraphQL.Plan.start` runs it.
-/

set_option autoImplicit false

namespace GraphQL

/-- The outcome of a call. -/
inductive Outcome where
  | value (value : Json)
  | failed (error : FieldError)
  | timedOut (after : Duration)
  | aborted
  | unbound (cause : BindingError)

/-- What a position of the response comes to: its value and the errors at and below it. Without a
value the position is null and may not be, so that the position around it becomes null in turn. -/
structure Completion where
  value : Option Json
  errors : List ResponseError := []
  deriving DecidableEq, Repr

namespace Completion

/-- A position with a value. -/
def ok (value : Json) : Completion :=
  { value := some value }

/-- The object of completed fields, given with their keys in order. -/
def ofFields (keys : List String) (parts : List Completion) : Completion :=
  { value := (parts.mapM Completion.value).map fun values => .object (keys.zip values)
    errors := parts.flatMap (·.errors) }

/-- The list of completed items. -/
def ofItems (parts : List Completion) : Completion :=
  { value := (parts.mapM Completion.value).map .array
    errors := parts.flatMap (·.errors) }

/-- At a position that may be null, a null that propagates from below stops. -/
def absorb (c : Completion) : Completion :=
  { c with value := some (c.value.getD .null) }

/-- A list of values is complete if each of them is there. -/
theorem mapM_value_eq_none_iff (parts : List Completion) :
    parts.mapM Completion.value = none ↔ ∃ part ∈ parts, part.value = none := by
  induction parts with
  | nil => simp
  | cons part rest ih =>
    cases h : part.value with
    | none => simp [List.mapM_cons, h]
    | some value => cases hr : rest.mapM Completion.value <;> simp_all [List.mapM_cons]

/-- The values of a list that is complete are those of its items, in order. -/
theorem mapM_value_eq_some_iff (parts : List Completion) (values : List Json) :
    parts.mapM Completion.value = some values ↔ parts.map (·.value) = values.map some := by
  induction parts generalizing values with
  | nil => cases values <;> simp
  | cons part rest ih =>
    cases values with
    | nil => cases h : part.value <;> simp [List.mapM_cons, h, Option.bind_eq_some_iff]
    | cons value values =>
      cases h : part.value with
      | none => simp [List.mapM_cons, h]
      | some first =>
        simp only [List.mapM_cons, List.map_cons, h, List.cons.injEq, Option.some.injEq, ← ih]
        simp [Option.bind_eq_some_iff, and_comm, and_assoc]

/-- An object is without a value if one of its fields is. -/
theorem value_ofFields_eq_none_iff (keys : List String) (parts : List Completion) :
    (ofFields keys parts).value = none ↔ ∃ part ∈ parts, part.value = none := by
  simp [ofFields, mapM_value_eq_none_iff]

/-- A list is without a value if one of its items is. -/
theorem value_ofItems_eq_none_iff (parts : List Completion) :
    (ofItems parts).value = none ↔ ∃ part ∈ parts, part.value = none := by
  simp [ofItems, mapM_value_eq_none_iff]

/-- At a position that may not be null, a null is an error and propagates. -/
def require (field : FieldName) (path : Path) (c : Completion) : Completion :=
  match c.value with
  | some .null =>
    { value := none
      errors := c.errors ++ [Reportable.report path (ExecutionError.nonNullViolation field)] }
  | _ => c

end Completion

/-- What an operation does. -/
inductive Plan where
  | done (completion : Completion)
  | call (call : Call) (next : Outcome → Plan)
  | group (serial : Bool) (parts : List Plan) (finish : List Completion → Completion)

namespace Plan

/-- Induction on plans; a group has the hypothesis for each of its parts. -/
@[elab_as_elim]
theorem induction {motive : Plan → Prop} (done : ∀ completion, motive (.done completion))
    (call : ∀ call next, (∀ outcome, motive (next outcome)) → motive (.call call next))
    (group : ∀ serial parts finish, (∀ part ∈ parts, motive part) →
      motive (.group serial parts finish))
    (plan : Plan) : motive plan := by
  refine @Plan.rec motive (fun parts => ∀ part ∈ parts, motive part) done call group ?_ ?_ plan
  · intro part member
    cases member
  · intro first rest hfirst hrest part member
    rcases List.mem_cons.1 member with rfl | member
    · exact hfirst
    · exact hrest part member

/-- The plan whose completion is changed at the end. -/
def map (f : Completion → Completion) : Plan → Plan
  | done completion => .done (f completion)
  | call c next => .call c fun outcome => (next outcome).map f
  | group serial parts finish => .group serial parts (f ∘ finish)

mutual

/-- The completion of a plan when every call has a given outcome. -/
def eval (outcome : Call → Outcome) : Plan → Completion
  | done completion => completion
  | call c next => (next (outcome c)).eval outcome
  | group _ parts finish => finish (evalAll outcome parts)

/-- The completions of plans when every call has a given outcome. -/
def evalAll (outcome : Call → Outcome) : List Plan → List Completion
  | [] => []
  | plan :: rest => plan.eval outcome :: evalAll outcome rest

end

/-- The completions of plans are those of each. -/
theorem evalAll_eq_map (outcome : Call → Outcome) (plans : List Plan) :
    evalAll outcome plans = plans.map (·.eval outcome) := by
  induction plans with
  | nil => rfl
  | cons plan rest ih => simp [evalAll, ih]

/-- Changing the completion at the end changes the completion. -/
@[simp] theorem eval_map (outcome : Call → Outcome) (f : Completion → Completion) (plan : Plan) :
    (plan.map f).eval outcome = f (plan.eval outcome) := by
  induction plan using Plan.induction with
  | done completion => rfl
  | call c next ih => exact ih (outcome c)
  | group serial parts finish ih => rfl

mutual

/-- The calls of a plan when every call has a given outcome, each before what follows it. -/
def calls (outcome : Call → Outcome) : Plan → List Call
  | done _ => []
  | call c next => c :: (next (outcome c)).calls outcome
  | group _ parts _ => callsAll outcome parts

/-- The calls of plans when every call has a given outcome. -/
def callsAll (outcome : Call → Outcome) : List Plan → List Call
  | [] => []
  | plan :: rest => plan.calls outcome ++ callsAll outcome rest

end

/-- The calls of plans are those of each, in order. -/
theorem callsAll_eq_flatMap (outcome : Call → Outcome) (plans : List Plan) :
    callsAll outcome plans = plans.flatMap (·.calls outcome) := by
  induction plans with
  | nil => rfl
  | cons plan rest ih => simp [callsAll, ih]

/-- Changing the completion at the end makes no other calls. -/
@[simp] theorem calls_map (outcome : Call → Outcome) (f : Completion → Completion) (plan : Plan) :
    (plan.map f).calls outcome = plan.calls outcome := by
  induction plan using Plan.induction with
  | done completion => rfl
  | call c next ih => simp only [map, calls, ih]
  | group serial parts finish ih => rfl

end Plan

end GraphQL
