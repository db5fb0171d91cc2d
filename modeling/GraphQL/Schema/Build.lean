import GraphQL.Coercion.Basic
import GraphQL.Document.Parser
import GraphQL.Schema.Error

/-!
# From documents to schemas

`Schema.ofDocument` collects the definitions of a document and checks what they say together: the
roots are object types, every reference names a type that may stand there, and every default value
can be read at its type. `Schema.parse` does the same from a text. Errors are found in a fixed
order: those of a single definition first, definition by definition, then roots, references and
defaults, each in the order of the types.
-/

set_option autoImplicit false

namespace GraphQL

/-- The nesting that documents may have unless a configuration says otherwise. -/
def defaultRecursionLimit : Nat := 500

namespace Schema

/-- The outcome of a check. -/
abbrev Checked (α : Type) := Except SchemaError α

/-- The first name that was there before, after the names in `seen`. -/
def firstRepeated (seen : List String) : List String → Option String
  | [] => none
  | name :: rest => if seen.contains name then some name else firstRepeated (name :: seen) rest

/-- No name is repeated if all are distinct and none was there before. -/
theorem firstRepeated_eq_none_iff (seen names : List String) :
    firstRepeated seen names = none ↔ names.Nodup ∧ ∀ name ∈ names, name ∉ seen := by
  induction names generalizing seen with
  | nil => simp [firstRepeated]
  | cons name rest ih =>
    by_cases h : name ∈ seen
    · simp [firstRepeated, h]
    · simp only [firstRepeated, List.contains_eq_mem, h, decide_false, Bool.false_eq_true,
        if_false, ih, List.mem_cons, not_or, List.nodup_cons, forall_eq_or_imp, not_false_iff,
        true_and]
      constructor
      · rintro ⟨distinct, fresh⟩
        exact ⟨⟨fun member => (fresh name member).1 rfl, distinct⟩, fun n hn => (fresh n hn).2⟩
      · rintro ⟨⟨first, distinct⟩, fresh⟩
        exact ⟨distinct, fun n hn => ⟨fun e => first (e ▸ hn), fresh n hn⟩⟩

/-- No name is repeated just if all are distinct. -/
theorem firstRepeated_nil_eq_none_iff {names : List String} :
    firstRepeated [] names = none ↔ names.Nodup := by
  simp [firstRepeated_eq_none_iff]

/-- The definitions read so far: types in order, and the roots of a schema block. -/
structure Draft where
  types : List TypeDefinition := []
  roots : Option (List (OperationKind × String)) := none

namespace Draft

/-- Adds a type, unless its name is taken. -/
def addType (draft : Draft) (type : TypeDefinition) : Checked Draft :=
  if (BuiltinScalar.ofName? type.name).isSome || draft.types.any (·.name == type.name) then
    .error (.duplicateType type.name)
  else .ok { draft with types := draft.types ++ [type] }

/-- The fields of an object type have distinct names, and so have the arguments of each. -/
def checkFields (typeName : String) (seen : List String) : List FieldDefinition → Checked Unit
  | [] => .ok ()
  | field :: rest =>
    match firstRepeated [] (field.arguments.map (·.name)) with
    | some argument => .error (.duplicateArgument typeName field.name argument)
    | none =>
      if seen.contains field.name then .error (.duplicateField typeName field.name)
      else checkFields typeName (field.name :: seen) rest

/-- Adds a definition. -/
def add (draft : Draft) : Definition → Checked Draft
  | .schema roots =>
    if draft.roots.isSome then .error (.unsupported .secondSchema)
    else if roots.any (·.1 == .subscription) then .error (.unsupported .subscriptionRoot)
    else .ok { draft with roots := some roots }
  | .object type => do
    checkFields type.name [] type.fields
    draft.addType (.object type)
  | .enum type =>
    match firstRepeated [] type.values with
    | some value => .error (.duplicateEnumValue type.name value)
    | none => draft.addType (.enum type)
  | .inputObject type =>
    match firstRepeated [] (type.fields.map (·.name)) with
    | some field => .error (.duplicateField type.name field)
    | none => draft.addType (.inputObject type)
  | .scalar name => draft.addType (.scalar name)
  | .directive => .ok draft
  | .interface name => .error (.unsupported (.interface name))
  | .union name => .error (.unsupported (.union name))
  | .operation _ | .fragment _ => .error (.unsupported .executable)
  | .extension => .error (.unsupported .extension)

/-- Adds definitions in order. -/
def addAll (draft : Draft) : List Definition → Checked Draft
  | [] => .ok draft
  | definition :: rest => do
    let draft ← draft.add definition
    draft.addAll rest

end Draft

/-- The last root that a schema block gives for a kind of operation. -/
def lastRoot? (roots : List (OperationKind × String)) (kind : OperationKind) : Option String :=
  ((roots.filter fun root => root.1 == kind).getLast?).map Prod.snd

/-- The schema that a draft stands for: the built-in scalars and the declared types. Without a
schema block the roots are the types named after the kinds of operation. -/
def ofDraft (draft : Draft) : Checked Schema :=
  let types := BuiltinScalar.all.map .builtin ++ draft.types
  match draft.roots with
  | some roots =>
    match lastRoot? roots .query with
    | some queryRoot => .ok { types, queryRoot, mutationRoot := lastRoot? roots .mutation }
    | none => .error .missingQueryRoot
  | none =>
    let mutationRoot := if types.any (·.name == "Mutation") then some "Mutation" else none
    .ok { types, queryRoot := "Query", mutationRoot }

/-- The query root is a declared object type, and so is the mutation root if there is one. -/
def checkRoots (schema : Schema) : Checked Unit := do
  match schema.type? schema.queryRoot with
  | some (.object _) => pure ()
  | some _ => .error (.invalidRootType schema.queryRoot)
  | none => .error .missingQueryRoot
  match schema.mutationRoot with
  | none => pure ()
  | some root =>
    match schema.type? root with
    | some (.object _) => pure ()
    | some _ => .error (.invalidRootType root)
    | none => .error (.unknownType root .schema)

/-- The type that a reference names. -/
def resolve (schema : Schema) (type : TypeRef) (place : Coordinate) : Checked TypeDefinition :=
  match schema.type? type.innermost with
  | some definition => .ok definition
  | none => .error (.unknownType type.innermost place)

/-- An argument or input field refers to an input type. -/
def checkInputReference (schema : Schema) (value : InputValueDefinition) (place : Coordinate) :
    Checked Unit := do
  let target ← schema.resolve value.type place
  if target.isInput then .ok () else .error (.invalidInputType target.name place)

/-- A field refers to an output type, and its arguments refer to input types. -/
def checkField (schema : Schema) (typeName : String) (field : FieldDefinition) : Checked Unit := do
  let place := Coordinate.field typeName field.name
  let target ← schema.resolve field.type place
  if !target.isOutput then .error (.invalidOutputType target.name place)
  field.arguments.forM fun argument =>
    schema.checkInputReference argument (.argument typeName field.name argument.name)

/-- A type with fields has at least one, and every reference in it may stand where it stands. -/
def checkType (schema : Schema) : TypeDefinition → Checked Unit
  | .object type => do
    if type.fields.isEmpty then .error (.emptyType type.name)
    type.fields.forM (schema.checkField type.name)
  | .inputObject type => do
    if type.fields.isEmpty then .error (.emptyType type.name)
    type.fields.forM fun field =>
      schema.checkInputReference field (.field type.name field.name)
  | .builtin _ | .scalar _ | .enum _ => .ok ()

/-- The arguments and input fields of a type, each with its place. -/
def inputValues : TypeDefinition → List (Coordinate × InputValueDefinition)
  | .object type => type.fields.flatMap fun field =>
    field.arguments.map fun argument =>
      (.argument type.name field.name argument.name, argument)
  | .inputObject type => type.fields.map fun field => (.field type.name field.name, field)
  | .builtin _ | .scalar _ | .enum _ => []

/-- A default value can be read at its type. -/
def checkDefault (schema : Schema) (place : Coordinate) (value : InputValueDefinition) :
    Checked Unit :=
  match value.default with
  | none => .ok ()
  | some literal =>
    match Coercion.coerceDefault schema value.name value.type literal with
    | .ok _ => .ok ()
    | .error reason => .error (.invalidDefaultValue place reason)

/-- All checks of a schema as a whole. -/
def check (schema : Schema) : Checked Unit := do
  schema.checkRoots
  schema.types.forM schema.checkType
  (schema.types.flatMap inputValues).forM fun (place, value) => schema.checkDefault place value

/-- The schema that a document defines. -/
def ofDocument (document : Document) : Checked Schema := do
  let draft ← Draft.addAll {} document
  let schema ← ofDraft draft
  schema.check
  return schema

/-- The schema that a text defines; the text nests at most `limit` levels deep. -/
def parseWithin (limit : Nat) (text : String) : Checked Schema :=
  match Document.parse? limit text with
  | some document => ofDocument document
  | none => .error .unreadable

/-- The schema that a text defines. -/
def parse (text : String) : Checked Schema :=
  parseWithin defaultRecursionLimit text

end Schema

end GraphQL
