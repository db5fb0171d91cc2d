import GraphQL.Registry.Resolver
import GraphQL.Schema.Basic
import GraphQL.Text.Quoted

/-!
# The registry of resolvers

A registry binds resolvers to fields of object types. A pair of a type and a field is bound at
most once, and the first binding stays. `Registry.validate` compares a registry with a schema:
every field is bound, every binding is of a declared field and accepts all of its arguments.
-/

set_option autoImplicit false

namespace GraphQL

/-- Why resolvers do not fit. -/
inductive BindingError where
  | notFound (typeName fieldName : String)
  | duplicate (typeName fieldName : String)
  | unknownField (typeName fieldName : String)
  | missingArgument (typeName fieldName argument : String)
  deriving DecidableEq, Repr

namespace BindingError

/-- What the error says. -/
def message : BindingError → String
  | notFound typeName fieldName => s!"no resolver is bound to '{typeName}.{fieldName}'"
  | duplicate typeName fieldName => s!"a resolver is already bound to '{typeName}.{fieldName}'"
  | unknownField typeName fieldName =>
    s!"a resolver is bound to '{typeName}.{fieldName}' which is not an object field of the schema"
  | missingArgument typeName fieldName argument =>
    s!"the resolver bound to '{typeName}.{fieldName}' does not accept the declared argument "
      ++ s!"'{argument}'"

end BindingError

/-- A resolver and what it is bound as: the field, the arguments that it accepts, and whether it
may fail or return null. -/
structure Binding (State : Type) where
  typeName : String
  fieldName : String
  arguments : List String := []
  fallible : Bool := false
  nullable : Bool := false
  resolver : Resolver State

namespace Binding

variable {State : Type}

/-- The binding that reads the property of the parent with the name of the field. -/
def property (typeName fieldName : String) : Binding State :=
  { typeName, fieldName, nullable := true, resolver := .property fieldName }

/-- Whether a binding is of some field. -/
def isOf (binding : Binding State) (typeName fieldName : String) : Bool :=
  binding.typeName == typeName && binding.fieldName == fieldName

/-- What a binding is, without its resolver. -/
def describe (binding : Binding State) : String :=
  let truth := fun b : Bool => if b then "true" else "false"
  "ResolverBinding \x7b type_name: " ++ Text.quoted binding.typeName
    ++ ", field_name: " ++ Text.quoted binding.fieldName
    ++ ", arguments: " ++ Text.quotedList binding.arguments
    ++ ", fallible: " ++ truth binding.fallible
    ++ ", nullable: " ++ truth binding.nullable ++ ", .. \x7d"

end Binding

/-- Bindings, those of one type side by side, types and fields in the order in which they were
bound first. -/
structure Registry (State : Type) where
  bindings : List (Binding State) := []

namespace Registry

variable {State : Type}

/-- The binding of a field. -/
def lookup? (registry : Registry State) (typeName fieldName : String) :
    Option (Binding State) :=
  registry.bindings.find? fun binding => binding.isOf typeName fieldName

/-- The binding of a field, or why there is none. -/
def lookup (registry : Registry State) (typeName fieldName : String) :
    Except BindingError (Binding State) :=
  match registry.lookup? typeName fieldName with
  | some binding => .ok binding
  | none => .error (.notFound typeName fieldName)

/-- The number of bindings. -/
def size (registry : Registry State) : Nat :=
  registry.bindings.length

/-- Whether nothing is bound. -/
def isEmpty (registry : Registry State) : Bool :=
  registry.bindings.isEmpty

/-- Puts a binding after the last one of its type, or at the end. -/
def place (binding : Binding State) : List (Binding State) → List (Binding State)
  | [] => [binding]
  | first :: rest =>
    if first.typeName == binding.typeName
        && !rest.any fun other => other.typeName == binding.typeName then
      first :: binding :: rest
    else first :: place binding rest

/-- Placing a binding adds it to the others. -/
theorem mem_place (binding other : Binding State) (bindings : List (Binding State)) :
    other ∈ place binding bindings ↔ other = binding ∨ other ∈ bindings := by
  induction bindings with
  | nil => simp [place]
  | cons first rest ih =>
    simp only [place]
    split
    · simp only [List.mem_cons]
      exact or_left_comm
    · simp only [List.mem_cons, ih]
      exact or_left_comm

/-- Placing a binding adds one. -/
theorem length_place (binding : Binding State) (bindings : List (Binding State)) :
    (place binding bindings).length = bindings.length + 1 := by
  induction bindings with
  | nil => rfl
  | cons first rest ih =>
    simp only [place]
    split <;> simp [ih]

/-- Adds a binding, unless its field is bound. -/
def bind (registry : Registry State) (binding : Binding State) :
    Except BindingError (Registry State) :=
  if (registry.lookup? binding.typeName binding.fieldName).isSome then
    .error (.duplicate binding.typeName binding.fieldName)
  else .ok { bindings := place binding registry.bindings }

/-- Binds fields of a type to the properties of their names, up to the first that is bound. The
bindings made before a failure stay. -/
def bindProperties (registry : Registry State) (typeName : String) :
    List String → Registry State × Except BindingError Unit
  | [] => (registry, .ok ())
  | fieldName :: rest =>
    match registry.bind (.property typeName fieldName) with
    | .ok registry => registry.bindProperties typeName rest
    | .error e => (registry, .error e)

/-- Adds bindings in order. -/
def bindAll (registry : Registry State) : List (Binding State) →
    Except BindingError (Registry State)
  | [] => .ok registry
  | binding :: rest => do
    let registry ← registry.bind binding
    registry.bindAll rest

/-- A binding is of a declared field and accepts all of its arguments. -/
def checkBinding (schema : Schema) (binding : Binding State) : Except BindingError Unit :=
  match (schema.object? binding.typeName).bind fun type => type.field? binding.fieldName with
  | none => .error (.unknownField binding.typeName binding.fieldName)
  | some field =>
    match field.arguments.find? fun argument => !binding.arguments.contains argument.name with
    | some argument =>
      .error (.missingArgument binding.typeName binding.fieldName argument.name)
    | none => .ok ()

/-- The registry fits the schema. -/
def validate (registry : Registry State) (schema : Schema) : Except BindingError Unit := do
  registry.bindings.forM (checkBinding schema)
  schema.objectTypes.forM fun type => type.fields.forM fun field => do
    let _ ← registry.lookup type.name field.name

end Registry

end GraphQL
