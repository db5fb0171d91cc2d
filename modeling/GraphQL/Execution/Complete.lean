import GraphQL.Coercion.Basic
import GraphQL.Execution.Collect
import GraphQL.Execution.Plan

/-!
# The plan of an operation

`Operation.plan` says what executing an operation does: which resolvers are called with what, and
how the values that they return become the response. A value is completed against the type of its
field: scalars are checked, lists item by item, objects by the fields that are selected of them. A
null where the type forbids it is reported once, where it is met, and then makes the positions
around it null up to the nearest one that may be.
-/

set_option autoImplicit false

namespace GraphQL

/-- What the execution of an operation depends on, besides the resolvers. -/
structure ExecutionScope where
  schema : Schema
  vars : Variables
  parallel : Bool

namespace Completion

/-- A position that could not be computed is null: here if its type allows it, else around it. -/
def missing (type : TypeRef) (errors : List ResponseError) : Completion :=
  { value := if type.isNonNull then none else some .null, errors }

/-- A value that its type cannot represent. -/
def invalid (field : FieldName) (path : Path) (type : TypeRef) (value : Json) : Completion :=
  { value := none
    errors := [Reportable.report path (ExecutionError.invalidValue field type value)] }

end Completion

/-- A value written as a built-in scalar, if it can be. -/
def BuiltinScalar.output? : BuiltinScalar → Json → Option Json
  | .string, .string s => some (.string s)
  | .int, value => value.int32?.map .ofInt
  | .float, .number n => some (.number n)
  | .boolean, .bool b => some (.bool b)
  | .id, .string s => some (.string s)
  | .id, .number (.int i) => some (.string (toString i))
  | _, _ => none

/-- Fields of object type need a sub-selection, other fields must not have one. -/
def Schema.checkSelection (schema : Schema) (definition : FieldDefinition)
    (selections : List Selection) : Option ExecutionError :=
  match schema.object? definition.type.innermost, selections with
  | some _, [] => some (.missingSelection definition.name definition.type)
  | none, _ :: _ => some (.unexpectedSelection definition.name definition.type)
  | _, _ => none

namespace ExecutionScope

/-- Completes a value that may be null even if its type is not: whoever asks for the value has to
settle a null. `object` says what becomes of an object. -/
def complete (scope : ExecutionScope) (field : FieldName)
    (object : ObjectType → Json → Path → Plan) : TypeRef → Json → Path → Plan
  | .nonNull inner, value, path =>
    (complete scope field object inner value path).map (.require field path)
  | _, .null, _ => .done (.ok .null)
  | .list item, .array values, path =>
    .group (!scope.parallel)
      (values.mapIdx fun i value =>
        let plan := complete scope field object item value (path.join (.index i))
        if item.isNonNull then plan else plan.map .absorb)
      .ofItems
  | .list item, value, path => .done (.invalid field path (.list item) value)
  | .builtin scalar, value, path =>
    match scalar.output? value with
    | some value => .done (.ok value)
    | none => .done (.invalid field path (.builtin scalar) value)
  | .named name, value, path =>
    match scope.schema.type? name, value with
    | some (.object type), .object members => object type (.object members) path
    | some (.enum type), .string symbol =>
      if type.values.contains symbol then .done (.ok (.string symbol))
      else .done (.invalid field path (.named name) (.string symbol))
    | some (.scalar _), value => .done (.ok value)
    | _, value => .done (.invalid field path (.named name) value)

/-- Completes a value; a null that propagates stops here if the type allows it. -/
def completeValue (scope : ExecutionScope) (field : FieldName)
    (object : ObjectType → Json → Path → Plan) (type : TypeRef) (value : Json) (path : Path) :
    Plan :=
  let plan := scope.complete field object type value path
  if type.isNonNull then plan else plan.map .absorb

/-- What follows a call: its value is completed, and any other outcome leaves the field without a
value. An aborted call leaves no error. -/
def afterCall (scope : ExecutionScope) (field : FieldName)
    (object : ObjectType → Json → Path → Plan) (type : TypeRef) (path : Path) : Outcome → Plan
  | .value value => scope.completeValue field object type value path
  | .failed error => .done (.missing type [error.report path])
  | .timedOut after =>
    .done (.missing type [Reportable.report path (ExecutionError.timeout field after)])
  | .unbound cause =>
    .done (.missing type [Reportable.report path (ExecutionError.binding cause)])
  | .aborted => .done (.missing type [])

/-- What a group of fields with one response key does. `nested` says what becomes of the objects
that its value holds, given the sub-selections of the group. -/
def fieldPlan (scope : ExecutionScope)
    (nested : List Selection → ObjectType → Json → Path → Plan) (type : ObjectType)
    (parent : Json) (parentPath : Path) (group : FieldGroup) : Plan :=
  let path := parentPath.join (.key group.key)
  if group.first.name == "__typename" then .done (.ok (.string type.name))
  else
    let field : FieldName := { typeName := type.name, fieldName := group.first.name }
    match type.field? group.first.name with
    | none =>
      .done { value := some .null,
              errors := [Reportable.report path (ExecutionError.unknownField field)] }
    | some definition =>
      match scope.schema.checkSelection definition group.selections with
      | some error => .done (.missing definition.type [Reportable.report path error])
      | none =>
        match Coercion.coerceArguments scope.schema scope.vars type.name definition
            group.first.arguments with
        | .error error => .done (.missing definition.type [Reportable.report path error])
        | .ok arguments =>
          .call { parent, arguments, path, typeName := type.name,
                  fieldName := group.first.name }
            (scope.afterCall field (nested group.selections) definition.type path)

/-- What a selection set does to an object, for selections whose fields nest at most `depth` deep.
Selections that nest no fields at all select nothing. -/
def selectionPlan (scope : ExecutionScope) (depth : Nat) (serial : Bool)
    (selections : List Selection) (type : ObjectType) (parent : Json) (path : Path) : Plan :=
  match depth with
  | 0 => .done (.ok (.object []))
  | depth + 1 =>
    let groups := collectFields type.name selections
    .group serial
      (groups.map (scope.fieldPlan (selectionPlan scope depth (!scope.parallel)) type parent path))
      (.ofFields (groups.map (·.key)))

end ExecutionScope

/-- What executing an operation on a root type does. The root fields of a mutation run one after
the other. -/
def Operation.plan (schema : Schema) (parallel : Bool) (values : Json.Object)
    (rootType : ObjectType) (operation : Operation) : Plan :=
  let scope : ExecutionScope :=
    { schema, parallel, vars := { definitions := operation.variableDefinitions, values } }
  scope.selectionPlan (Selection.depthAll operation.selections)
    (operation.kind == .mutation || !parallel) operation.selections rootType .null []

end GraphQL
