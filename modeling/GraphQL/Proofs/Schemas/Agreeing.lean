import GraphQL.Engine

/-!
# Schemas that agree

Types are looked up by name wherever one is needed. So schemas that have the same roots and the same
type under every name are told apart by nothing that an engine does: inputs are read alike,
operations are selected and planned alike, and requests are answered alike
(`Schema.Agrees.execute_eq`). In which order the types stand makes no difference.
-/

set_option autoImplicit false

namespace GraphQL

namespace Schema

/-- Two schemas have the same roots, and the same type under every name. -/
structure Agrees (first second : Schema) : Prop where
  type? : second.type? = first.type?
  queryRoot : second.queryRoot = first.queryRoot
  mutationRoot : second.mutationRoot = first.mutationRoot

namespace Agrees

variable {first second : Schema}

/-- Agreement goes both ways. -/
theorem symm (agrees : first.Agrees second) : second.Agrees first :=
  ⟨agrees.type?.symm, agrees.queryRoot.symm, agrees.mutationRoot.symm⟩

/-- Schemas that agree have the same object types. -/
theorem object? (agrees : first.Agrees second) : second.object? = first.object? := by
  funext name
  rw [Schema.object?, agrees.type?, Schema.object?]

/-- Schemas that agree have the same root type for each kind of operation. -/
theorem root? (agrees : first.Agrees second) : second.root? = first.root? := by
  funext kind
  cases kind with
  | query => exact congrArg some agrees.queryRoot
  | mutation => exact agrees.mutationRoot
  | subscription => rfl

/-- Whether a field may have sub-selections is the same in schemas that agree. -/
theorem checkSelection (agrees : first.Agrees second) :
    second.checkSelection = first.checkSelection := by
  funext definition selections
  simp only [Schema.checkSelection, agrees.object?]

section Inputs

open Coercion

/-- Literals are read alike. -/
theorem literalAt (agrees : first.Agrees second) (scope : Scope)
    (deeper : TypeRef → Literal → InputPath → Coerced Json) :
    Coercion.literalAt second scope deeper = Coercion.literalAt first scope deeper := by
  funext type
  induction type with
  | builtin => funext literal path; cases literal <;> rfl
  | list => funext literal path; cases literal <;> rfl
  | named name => funext literal path; cases literal <;> simp only [Coercion.literalAt, agrees.type?]
  | nonNull inner ih =>
    funext literal path
    cases literal with
    | var | null => rfl
    | _ => simp only [Coercion.literalAt, ih]

/-- Constants are read alike in schemas that agree. -/
theorem coerceConstant (agrees : first.Agrees second) (levels : Nat) :
    Coercion.coerceConstant second levels = Coercion.coerceConstant first levels := by
  induction levels with
  | zero => rfl
  | succ levels ih =>
    funext type literal path
    rw [Coercion.coerceConstant, Coercion.coerceConstant, agrees.literalAt, ih]

/-- JSON values are read alike. -/
theorem jsonAt (agrees : first.Agrees second) (deeper : TypeRef → Json → InputPath → Coerced Json)
    (default : TypeRef → Literal → InputPath → Coerced Json) :
    Coercion.jsonAt second deeper default = Coercion.jsonAt first deeper default := by
  funext type
  induction type with
  | builtin => funext value path; cases value <;> rfl
  | list => funext value path; cases value <;> rfl
  | named name => funext value path; cases value <;> simp only [Coercion.jsonAt, agrees.type?]
  | nonNull inner ih =>
    funext value path
    cases value with
    | null => rfl
    | _ => simp only [Coercion.jsonAt, ih]

/-- Values of variables are read alike in schemas that agree. -/
theorem coerceJson (agrees : first.Agrees second) (levels : Nat) :
    Coercion.coerceJson second levels = Coercion.coerceJson first levels := by
  induction levels with
  | zero => rfl
  | succ levels ih =>
    funext type value path
    rw [Coercion.coerceJson, Coercion.coerceJson, agrees.jsonAt, ih, agrees.coerceConstant]

/-- A variable has the same value at a type in schemas that agree. -/
theorem typed (agrees : first.Agrees second) (vars : Variables) :
    vars.typed second = vars.typed first := by
  funext name type path
  simp only [Variables.typed, agrees.coerceJson, agrees.coerceConstant]

/-- Literals are read alike in schemas that agree. -/
theorem coerceLiteral (agrees : first.Agrees second) (vars : Variables) (levels : Nat) :
    Coercion.coerceLiteral second vars levels = Coercion.coerceLiteral first vars levels := by
  induction levels with
  | zero => rfl
  | succ levels ih =>
    funext type literal path
    rw [Coercion.coerceLiteral, Coercion.coerceLiteral, agrees.literalAt, ih, Variables.scope,
      agrees.typed, Variables.scope]

/-- Arguments are read alike. -/
theorem coerceArguments (agrees : first.Agrees second) (vars : Variables) :
    Coercion.coerceArguments second vars = Coercion.coerceArguments first vars := by
  have declared : coerceDeclared second vars = coerceDeclared first vars := by
    funext supplied arguments
    induction arguments with
    | nil => rfl
    | cons argument rest ih =>
      simp only [coerceDeclared, coerceArgument, ih, agrees.coerceLiteral, agrees.typed]
  funext typeName field supplied
  rw [Coercion.coerceArguments, declared, Coercion.coerceArguments]

end Inputs

section Plans

variable (vars : Variables) (parallel : Bool)

/-- Values are completed alike. -/
theorem complete (agrees : first.Agrees second) (field : FieldName)
    (object : ObjectType → Json → Path → Plan) :
    ExecutionScope.complete { schema := second, vars, parallel } field object =
      ExecutionScope.complete { schema := first, vars, parallel } field object := by
  funext type
  induction type with
  | builtin => funext value path; cases value <;> rfl
  | named name =>
    funext value path
    cases value <;> simp only [ExecutionScope.complete, agrees.type?]
  | list item ih =>
    funext value path
    cases value with
    | array values => simp only [ExecutionScope.complete, ih]
    | _ => rfl
  | nonNull inner ih =>
    funext value path
    simp only [ExecutionScope.complete, ih]

/-- Fields do the same, if objects do. -/
theorem fieldPlan (agrees : first.Agrees second)
    (nested : List Selection → ObjectType → Json → Path → Plan) :
    ExecutionScope.fieldPlan { schema := second, vars, parallel } nested =
      ExecutionScope.fieldPlan { schema := first, vars, parallel } nested := by
  have after : ExecutionScope.afterCall { schema := second, vars, parallel } =
      ExecutionScope.afterCall { schema := first, vars, parallel } := by
    funext field object type path outcome
    cases outcome with
    | value value =>
      simp only [ExecutionScope.afterCall, ExecutionScope.completeValue, agrees.complete]
    | failed | timedOut | unbound | aborted => rfl
  funext type parent path group
  simp only [ExecutionScope.fieldPlan, agrees.checkSelection, agrees.coerceArguments, after]

/-- Selections do the same to an object. -/
theorem selectionPlan (agrees : first.Agrees second) (depth : Nat) :
    ExecutionScope.selectionPlan { schema := second, vars, parallel } depth =
      ExecutionScope.selectionPlan { schema := first, vars, parallel } depth := by
  induction depth with
  | zero => rfl
  | succ depth ih =>
    funext serial selections type parent path
    simp only [ExecutionScope.selectionPlan, ih, agrees.fieldPlan]

/-- Operations have the same plan. -/
theorem plan (agrees : first.Agrees second) (operation : Operation) (values : Json.Object)
    (rootType : ObjectType) : operation.plan second parallel values rootType =
      operation.plan first parallel values rootType := by
  rw [Operation.plan, agrees.selectionPlan, Operation.plan]

end Plans

/-- Requests are answered alike, in state and in time. -/
theorem execute_eq {State : Type} {engine other : Engine State}
    (agrees : engine.schema.Agrees other.schema) (registry : other.registry = engine.registry)
    (configuration : other.configuration = engine.configuration) : other.execute = engine.execute := by
  have select : other.select = engine.select := by
    funext request
    simp only [Engine.select, agrees.root?, agrees.object?, configuration]
  funext request state cancelAt
  simp only [Engine.execute, select, agrees.plan, configuration, Engine.run, registry]

end Agrees

end Schema

end GraphQL
