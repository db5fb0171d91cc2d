import GraphQL.Json.Basic

/-!
# Type references

A type reference names a type and wraps it in lists and non-null markers. Named types are kept by
name and looked up in a schema when they are needed, which is what lets object types refer to each
other. The five scalars that every schema has are told apart from declared types.
-/

set_option autoImplicit false

namespace GraphQL

/-- The scalars that every schema has. -/
inductive BuiltinScalar where
  | string
  | int
  | float
  | boolean
  | id
  deriving DecidableEq, Repr

namespace BuiltinScalar

/-- The name of a built-in scalar in schemas and documents. -/
def name : BuiltinScalar → String
  | string => "String"
  | int => "Int"
  | float => "Float"
  | boolean => "Boolean"
  | id => "ID"

/-- All built-in scalars, in the order in which schemas list them. -/
def all : List BuiltinScalar :=
  [string, int, float, boolean, id]

/-- The built-in scalar of a name. -/
def ofName? (name : String) : Option BuiltinScalar :=
  all.find? fun s => s.name == name

/-- The word for a built-in scalar in the serialized form of a type reference. -/
def tag : BuiltinScalar → String
  | id => "Id"
  | s => s.name

/-- The built-in scalar of a word in a serialized type reference. -/
def ofTag? (tag : String) : Option BuiltinScalar :=
  all.find? fun s => s.tag == tag

end BuiltinScalar

/-- A type as fields, arguments and variables refer to it. -/
inductive TypeRef where
  | builtin (scalar : BuiltinScalar)
  | named (name : String)
  | list (item : TypeRef)
  | nonNull (inner : TypeRef)
  deriving DecidableEq, Repr

namespace TypeRef

/-- The reference to the type of a name, without wrappers. -/
def ofName (name : String) : TypeRef :=
  match BuiltinScalar.ofName? name with
  | some scalar => .builtin scalar
  | none => .named name

/-- The text of a type reference in a document. -/
def render : TypeRef → String
  | builtin scalar => scalar.name
  | named name => name
  | list item => "[" ++ item.render ++ "]"
  | nonNull inner => inner.render ++ "!"

/-- The name of the innermost type. -/
def innermost : TypeRef → String
  | builtin scalar => scalar.name
  | named name => name
  | list item => item.innermost
  | nonNull inner => inner.innermost

/-- Whether the outermost wrapper is a non-null marker. -/
def isNonNull : TypeRef → Bool
  | nonNull _ => true
  | _ => false

/-- A type without a non-null marker at its head may be null. -/
theorem isNonNull_eq_false {type : TypeRef} (h : ∀ inner, type = .nonNull inner → False) :
    type.isNonNull = false := by
  cases type with
  | nonNull inner => exact absurd rfl (h inner)
  | builtin | named | list => rfl

/-- The serialized form: a word, or an object whose one key says which wrapper it is. -/
def toJson : TypeRef → Json
  | builtin scalar => .string scalar.tag
  | named name => .object [("Named", .string name)]
  | list item => .object [("List", item.toJson)]
  | nonNull inner => .object [("NonNull", inner.toJson)]

/-- Reads a serialized type reference. -/
def ofJson? : Json → Option TypeRef
  | .string tag => (BuiltinScalar.ofTag? tag).map .builtin
  | .object [(key, value)] =>
    if key == "Named" then value.string?.map .named
    else if key == "List" then (ofJson? value).map .list
    else if key == "NonNull" then (ofJson? value).map .nonNull
    else none
  | _ => none

/-- Reading a type reference gives back what was written. -/
@[simp] theorem ofJson?_toJson (type : TypeRef) : ofJson? type.toJson = some type := by
  induction type with
  | builtin scalar => cases scalar <;> decide
  | named name => simp [toJson, ofJson?, Json.string?]
  | list item ih => simp [toJson, ofJson?, ih]
  | nonNull inner ih => simp [toJson, ofJson?, ih]

end TypeRef

end GraphQL
