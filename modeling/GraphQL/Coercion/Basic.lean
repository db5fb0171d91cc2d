import GraphQL.Coercion.Error
import GraphQL.Document.Basic

/-!
# Input coercion

Reads argument literals and the values of variables at the types that are declared for them, and
gives the JSON values that resolvers get. A variable is read where it is used, at the type of the
argument, list item or input field that it stands for.

Values come from four sources: a literal, the JSON value of a variable, the default of a variable
and the default of an argument or input field. Defaults are constants, so they are read first and
without variables (`coerceConstant`); JSON values need constants for the fields they leave out
(`coerceJson`); literals of a request need both (`coerceLiteral`). Each of the three recurses on
the number of lists and input objects that may still be entered.
-/

set_option autoImplicit false

namespace GraphQL

/-- How many lists and input objects a value may be nested in. -/
def maxInputDepth : Nat := 64

/-- The result of reading an input. -/
abbrev Coerced (α : Type) := Except CoercionError α

namespace Coercion

section Scalars

/-- An integer text as a 32-bit integer. -/
def int32Text? (text : String) : Option Int :=
  (Decimal.intOfText? text).filter fun i => decide (Json.intMin ≤ i ∧ i ≤ Json.intMax)

/-- A numeral as a finite double. -/
def doubleText? (text : String) : Option Double :=
  (Decimal.ofText? text).bind Double.ofDecimal?

/-- A literal read as a built-in scalar. -/
def builtinLiteral? : BuiltinScalar → Literal → Option Json
  | .string, .string s => some (.string s)
  | .int, .int text => (int32Text? text).map .ofInt
  | .float, .int text | .float, .float text =>
    (doubleText? text).map fun d => .number (.float d)
  | .boolean, .bool b => some (.bool b)
  | .id, .string s | .id, .int s => some (.string s)
  | _, _ => none

/-- A JSON value read as a built-in scalar. -/
def builtinJson? : BuiltinScalar → Json → Option Json
  | .string, .string s => some (.string s)
  | .int, value => value.int32?.map .ofInt
  | .float, value => value.double?.map fun d => .number (.float d)
  | .boolean, .bool b => some (.bool b)
  | .id, .string s => some (.string s)
  | .id, .number (.int i) => some (.string (toString i))
  | _, _ => none

end Scalars

/-- How literals get at variables: read at a type and at a place, or taken as they are. A variable
that has no value and needs none gives `none` at a type. -/
structure Scope where
  typed : String → TypeRef → InputPath → Coerced (Option Json)
  raw : String → Coerced Json

/-- The scope of constants: no variable is defined. -/
def Scope.constants : Scope where
  typed name _ _ := .error (.undefinedVariable name)
  raw name := .error (.undefinedVariable name)

mutual

/-- A literal of a declared scalar: any literal will do, and variables are put in as they are. What
holds no variable is taken in its JSON form at once; only the rest is gone through part by part. -/
def literalJson (raw : String → Coerced Json) (literal : Literal) : Coerced Json :=
  match literal.toJson? with
  | some value => .ok value
  | none =>
    match literal with
    | .var name => raw name
    | .list items => do return .array (← itemsJson raw items)
    | .object fields => do return .object (Json.Object.ofList (← fieldsJson raw fields))
    | _ => .ok .null

/-- The items of a list of a declared scalar. -/
def itemsJson (raw : String → Coerced Json) : List Literal → Coerced (List Json)
  | [] => .ok []
  | item :: rest => do
    let item ← literalJson raw item
    let rest ← itemsJson raw rest
    return item :: rest

/-- The fields of an object of a declared scalar. -/
def fieldsJson (raw : String → Coerced Json) :
    List (String × Literal) → Coerced (List (String × Json))
  | [] => .ok []
  | (name, value) :: rest => do
    let value ← literalJson raw value
    let rest ← fieldsJson raw rest
    return (name, value) :: rest

end

section Shapes

variable {Value : Type}

/-- Reads the items of a list, each at its index. -/
def items (item : Value → InputPath → Coerced Json) (path : InputPath) :
    Nat → List Value → Coerced (List Json)
  | _, [] => .ok []
  | i, value :: rest => do
    let value ← item value (path.join (.index i))
    let rest ← items item path (i + 1) rest
    return value :: rest

/-- Reads the fields of an input object in the order of their declaration. A field that is not
supplied has its default, or is left out if it may be null. -/
def inputFields (supplied : InputValueDefinition → InputPath → Coerced (Option Json))
    (default : TypeRef → Literal → InputPath → Coerced Json) (path : InputPath) :
    List InputValueDefinition → Coerced Json.Object
  | [] => .ok []
  | field :: rest => do
    let value ←
      match ← supplied field (path.join (.key field.name)) with
      | some value => pure (some value)
      | none =>
        match field.default with
        | some literal => some <$> default field.type literal (path.join (.key field.name))
        | none =>
          if field.type.isNonNull then
            .error (.missingInputField path field.name field.type)
          else pure none
    let rest ← inputFields supplied default path rest
    match value with
    | some value => return (field.name, value) :: rest
    | none => return rest

/-- A symbol read as a value of an enum type. -/
def enumSymbol (type : EnumType) (symbol : String) (path : InputPath) : Coerced Json :=
  if type.values.contains symbol then .ok (.string symbol)
  else .error (.unknownEnumValue path type.name symbol)

end Shapes

section Literals

/-- The value that an object literal supplies for a field. A variable without a value leaves the
field to its default, and is null if there is none. -/
def literalField (scope : Scope) (deeper : TypeRef → Literal → InputPath → Coerced Json)
    (fields : List (String × Literal)) (field : InputValueDefinition) (path : InputPath) :
    Coerced (Option Json) :=
  match (fields.find? fun supplied => supplied.1 == field.name).map Prod.snd with
  | none => .ok none
  | some (.var name) => do
    match ← scope.typed name field.type path with
    | some value => return some value
    | none => return if field.default.isSome then none else some .null
  | some literal => do return some (← deeper field.type literal path)

/-- Reads a literal at a type; `deeper` reads the values inside it. -/
def literalAt (schema : Schema) (scope : Scope)
    (deeper : TypeRef → Literal → InputPath → Coerced Json) :
    TypeRef → Literal → InputPath → Coerced Json
  | type, .var name, path => do return (← scope.typed name type path).getD .null
  | .nonNull inner, .null, path => .error (.nullValue path (.nonNull inner))
  | .nonNull inner, literal, path => literalAt schema scope deeper inner literal path
  | _, .null, _ => .ok .null
  | .list item, .list values, path => do
    return .array (← items (deeper item) path 0 values)
  | .list item, literal, path => .error (.invalidValue path (.list item) literal.describe)
  | .builtin scalar, literal, path =>
    match builtinLiteral? scalar literal with
    | some value => .ok value
    | none => .error (.invalidValue path (.builtin scalar) literal.describe)
  | .named name, literal, path =>
    match schema.type? name, literal with
    | some (.enum type), .enum symbol => enumSymbol type symbol path
    | some (.inputObject type), .object fields => do
      return .object (← inputFields (literalField scope deeper fields) deeper path type.fields)
    | some (.scalar _), literal => literalJson scope.raw literal
    | _, literal => .error (.invalidValue path (.named name) literal.describe)

/-- Reads a literal without variables. -/
def coerceConstant (schema : Schema) : Nat → TypeRef → Literal → InputPath → Coerced Json
  | 0, _, _, path => .error (.tooDeep path)
  | levels + 1, type, literal, path =>
    literalAt schema .constants (coerceConstant schema levels) type literal path

end Literals

section Values

/-- Reads a JSON value at a type; `deeper` reads the values inside it and `default` the defaults of
fields that an object leaves out. Members that are no declared fields are ignored. -/
def jsonAt (schema : Schema) (deeper : TypeRef → Json → InputPath → Coerced Json)
    (default : TypeRef → Literal → InputPath → Coerced Json) :
    TypeRef → Json → InputPath → Coerced Json
  | .nonNull inner, .null, path => .error (.nullValue path (.nonNull inner))
  | .nonNull inner, value, path => jsonAt schema deeper default inner value path
  | _, .null, _ => .ok .null
  | .list item, .array values, path => do
    return .array (← items (deeper item) path 0 values)
  | .list item, value, path => .error (.invalidValue path (.list item) value.compact)
  | .builtin scalar, value, path =>
    match builtinJson? scalar value with
    | some value => .ok value
    | none => .error (.invalidValue path (.builtin scalar) value.compact)
  | .named name, value, path =>
    match schema.type? name, value with
    | some (.enum type), .string symbol => enumSymbol type symbol path
    | some (.inputObject type), .object members => do
      let supplied := fun (field : InputValueDefinition) path =>
        match Json.Object.get? members field.name with
        | some value => do return some (← deeper field.type value path)
        | none => .ok none
      return .object (← inputFields supplied default path type.fields)
    | some (.scalar _), value => .ok value
    | _, value => .error (.invalidValue path (.named name) value.compact)

/-- Reads a JSON value. -/
def coerceJson (schema : Schema) : Nat → TypeRef → Json → InputPath → Coerced Json
  | 0, _, _, path => .error (.tooDeep path)
  | levels + 1, type, value, path =>
    jsonAt schema (coerceJson schema levels) (coerceConstant schema levels) type value path

end Values

/-- The levels that a value has when reading starts: one for the value itself, and one for each
list or input object around a value inside it. -/
def allLevels : Nat := maxInputDepth + 1

end Coercion

/-- The variables of an operation: their declarations, and the values that the request gives. -/
structure Variables where
  definitions : List VariableDefinition := []
  values : Json.Object := []

namespace Variables

open Coercion

/-- The declaration of a variable. -/
def definition (vars : Variables) (name : String) : Coerced VariableDefinition :=
  match vars.definitions.find? fun definition => definition.name == name with
  | some definition => .ok definition
  | none => .error (.undefinedVariable name)

/-- The value of a variable where some type is expected: the one that the request gives, else the
default, else nothing, if both its own type and the expected one may be null. -/
def typed (vars : Variables) (schema : Schema) (name : String) (type : TypeRef)
    (path : InputPath) : Coerced (Option Json) := do
  let definition ← vars.definition name
  match Json.Object.get? vars.values name with
  | some value => return some (← coerceJson schema allLevels type value path)
  | none =>
    match definition.default with
    | some literal => return some (← coerceConstant schema allLevels type literal path)
    | none =>
      if definition.type.isNonNull || type.isNonNull then
        .error (.missingVariable name definition.type)
      else return none

/-- The value of a variable inside a declared scalar, as the request or the default gives it. -/
def raw (vars : Variables) (name : String) : Coerced Json := do
  let definition ← vars.definition name
  match Json.Object.get? vars.values name with
  | some value => return value
  | none =>
    match definition.default with
    | some literal => return (literal.toJson?).getD .null
    | none =>
      if definition.type.isNonNull then .error (.missingVariable name definition.type)
      else return .null

/-- The scope of the literals of an operation. -/
def scope (vars : Variables) (schema : Schema) : Scope where
  typed := vars.typed schema
  raw := vars.raw

end Variables

namespace Coercion

/-- Reads a literal of an operation. -/
def coerceLiteral (schema : Schema) (vars : Variables) :
    Nat → TypeRef → Literal → InputPath → Coerced Json
  | 0, _, _, path => .error (.tooDeep path)
  | levels + 1, type, literal, path =>
    literalAt schema (vars.scope schema) (coerceLiteral schema vars levels) type literal
      path

/-- Reads the default of an argument or an input field of a schema. -/
def coerceDefault (schema : Schema) (name : String) (type : TypeRef) (literal : Literal) :
    Coerced Json :=
  coerceConstant schema allLevels type literal (.root name)

/-- The value of one declared argument, if it has any. A variable without a value leaves the
argument to its default, and is null if there is none. -/
def coerceArgument (schema : Schema) (vars : Variables) (supplied : List (String × Literal))
    (argument : InputValueDefinition) : Coerced (Option Json) :=
  let path := InputPath.root argument.name
  let read := fun literal => coerceLiteral schema vars allLevels argument.type literal path
  match (supplied.find? fun entry => entry.1 == argument.name).map Prod.snd, argument.default with
  | some (.var name), default => do
    match ← vars.typed schema name argument.type path, default with
    | some value, _ => return some value
    | none, some literal => return some (← read literal)
    | none, none => return some .null
  | some literal, _ => do return some (← read literal)
  | none, some literal => do return some (← read literal)
  | none, none =>
    if argument.type.isNonNull then .error (.missingArgument argument.name argument.type)
    else .ok none

/-- The values of declared arguments, in order. -/
def coerceDeclared (schema : Schema) (vars : Variables) (supplied : List (String × Literal)) :
    List InputValueDefinition → Coerced Json.Object
  | [] => .ok []
  | argument :: rest => do
    let value ← coerceArgument schema vars supplied argument
    let rest ← coerceDeclared schema vars supplied rest
    match value with
    | some value => return (argument.name, value) :: rest
    | none => return rest

/-- Reads the arguments that are supplied to a field. The result has declared arguments only, in
the order of their declaration; one that is not supplied, may be null and has no default is left
out. -/
def coerceArguments (schema : Schema) (vars : Variables) (typeName : String)
    (field : FieldDefinition) (supplied : List (String × Literal)) : Coerced Json.Object :=
  match supplied.find? fun entry => (field.argument? entry.1).isNone with
  | some (argument, _) => .error (.unknownArgument argument typeName field.name)
  | none => coerceDeclared schema vars supplied field.arguments

end Coercion

end GraphQL
