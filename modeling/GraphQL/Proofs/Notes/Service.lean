import GraphQL.Demo.Basic
import GraphQL.Proofs.Inputs.Conformance
import GraphQL.Proofs.Jobs.Effects

/-!
# The service of notes

What the service of notes is once its schema is read and its resolvers are bound
(`Notes.engine_eq_ok_iff`). All of its resolvers but one observe the store of notes. The one that
writes belongs to the root of mutations, to which no field leads (`Notes.closedAmong_observers`),
and it is called with a user's identifier and a text (`Notes.exists_of_coerceArguments`).
-/

set_option autoImplicit false

namespace GraphQL

/-- A text that is given by its characters is split into tokens character by character. -/
theorem Token.scan?_ofList (text : List Char) :
    scan? (String.ofList text) = scanSteps? (text.length + 1) text := by
  rw [scan?, String.length_ofList, String.toList_ofList]

/-- A text given by its characters is parsed by the tokens that are scanned in it. -/
theorem Document.parse?_ofList {text : List Char} {tokens : List Token}
    (scanned : Token.scanSteps? (text.length + 1) text = some tokens) (limit : Nat) :
    parse? limit (String.ofList text) =
      (Reader.many1 (fun _ => true) (definition (min limit tokens.length)) tokens).bind fun read =>
        if read.2.isEmpty then some read.1 else none := by
  rw [parse?, Token.scan?_ofList, scanned]
  rfl

namespace Notes

section Types

/-- The type of identifiers that are there. -/
def idType : TypeRef :=
  .nonNull (.builtin .id)

/-- The type of texts that are there. -/
def textType : TypeRef :=
  .nonNull (.builtin .string)

/-- The type of lists of objects without gaps. -/
def listType (name : String) : TypeRef :=
  .nonNull (.list (.nonNull (.named name)))

/-- The root of queries. -/
def queryRoot : ObjectType where
  name := "Query"
  fields :=
    [{ name := "users", type := listType "User", arguments := [] },
      { name := "user", type := .nonNull (.named "User"),
        arguments := [{ name := "userID", type := idType, default := none }] },
      { name := "notes", type := listType "Note",
        arguments := [{ name := "userID", type := idType, default := none }] },
      { name := "note", type := .nonNull (.named "Note"),
        arguments := [{ name := "noteID", type := idType, default := none }] }]

/-- The field that creates notes. -/
def creation : FieldDefinition where
  name := "createNote"
  type := .nonNull (.named "Note")
  arguments :=
    [{ name := "userID", type := idType, default := none },
      { name := "note", type := .nonNull (.named "NoteInput"), default := none }]

/-- The root of mutations. -/
def mutationRoot : ObjectType where
  name := "Mutation"
  fields := [creation]

/-- The type of users. -/
def userType : ObjectType where
  name := "User"
  fields :=
    [{ name := "userID", type := idType, arguments := [] },
      { name := "username", type := textType, arguments := [] },
      { name := "emoji", type := textType, arguments := [] },
      { name := "notes", type := listType "Note", arguments := [] }]

/-- The type of notes. -/
def noteType : ObjectType where
  name := "Note"
  fields :=
    [{ name := "noteID", type := idType, arguments := [] },
      { name := "data", type := textType, arguments := [] }]

/-- The type of notes that are to be created. -/
def noteInput : InputObjectType where
  name := "NoteInput"
  fields := [{ name := "data", type := textType, default := none }]

/-- The definitions that the text of the schema gives. -/
def document : Document :=
  [.schema [(.query, "Query"), (.mutation, "Mutation")], .object queryRoot, .object mutationRoot,
    .object userType, .object noteType, .inputObject noteInput]

/-- The schema of the service. -/
def schema : Schema where
  types := BuiltinScalar.all.map .builtin ++ [.object queryRoot, .object mutationRoot,
    .object userType, .object noteType, .inputObject noteInput]
  queryRoot := "Query"
  mutationRoot := some "Mutation"

end Types

/-- The engine of the service. -/
def service (configuration : Configuration) : Engine NoteStore where
  schema := schema
  registry := { bindings := bindings ++ properties }
  configuration := configuration

section Loading

set_option maxRecDepth 8000 in
/-- The text of the schema is read, unless nothing may nest at all. Its lists nest one level deep,
so it makes no difference how many more are allowed. -/
theorem parse?_schemaText (limit : Nat) :
    Document.parse? limit schemaText = if limit = 0 then none else some document := by
  unfold schemaText
  refine (Document.parse?_ofList rfl limit).trans ?_
  match limit with
  | 0 => rfl
  | 1 => rfl
  | levels + 2 =>
    obtain ⟨further, enough⟩ : ∃ further, min (levels + 2) 114 = further + 2 :=
      ⟨min levels 112, by omega⟩
    show (Reader.many1 _ (Document.definition (min (levels + 2) 114)) _).bind _ = _
    rw [enough]
    rfl

/-- The document of the service is accepted as its schema. -/
theorem ofDocument_document : Schema.ofDocument document = .ok schema := by
  rfl

/-- The registry of the service can be made. -/
theorem registry_eq_ok : registry = .ok { bindings := bindings ++ properties } := by
  rfl

/-- The resolvers of the service can be bound to its schema. -/
theorem bind_schema (configuration : Configuration) :
    Engine.bind schema { bindings := bindings ++ properties } configuration =
      .ok (service configuration) := by
  rfl

/-- The service is loaded, unless nothing may nest at all. -/
theorem engine_eq_ok_iff {configuration : Configuration} {engine : Engine NoteStore} :
    Demo.notes.engine configuration = .ok engine ↔
      configuration.recursionLimit ≠ 0 ∧ engine = service configuration := by
  have loaded : Demo.notes.engine configuration =
      Engine.load schemaText { bindings := bindings ++ properties } configuration := by
    rw [Demo.engine, Demo.registry, registry_eq_ok]
    rfl
  rw [loaded, Engine.load, Schema.parseWithin, parse?_schemaText]
  by_cases flat : configuration.recursionLimit = 0
  · simp [flat]
  · rw [if_neg flat]
    simp only [ofDocument_document, bind_schema, Except.ok.injEq, ne_eq, flat, not_false_eq_true,
      true_and]
    exact eq_comm

end Loading

section Effects

/-- The object types whose resolvers observe. -/
def Observer (type : ObjectType) : Prop :=
  .object type ∈ schema.types ∧ type.name ≠ "Mutation"

/-- No field leads to the root of mutations. -/
theorem closedAmong_observers : schema.ClosedAmong Observer := by
  intro type observer definition declared target found
  obtain ⟨member, name⟩ := Schema.mem_of_type? (Schema.object?_eq_some_iff.1 found)
  refine ⟨member, fun root => ?_⟩
  have elsewhere : ∀ type ∈ schema.objectTypes, ∀ definition ∈ type.fields,
      definition.type.innermost ≠ "Mutation" := by decide
  refine elsewhere type ?_ definition declared (name.symm.trans root)
  exact List.mem_filterMap.2 ⟨_, observer.1, rfl⟩

/-- Only resolvers of mutations may write. -/
theorem restrained_of_mem {binding : Binding NoteStore} (member : binding ∈ bindings ++ properties)
    (call : Call) : (binding.resolver call).Restrained (binding.typeName = "Mutation") := by
  have property : ∀ typeName fieldName : String,
      ((Binding.property typeName fieldName : Binding NoteStore).resolver call).Restrained
        (typeName = "Mutation") := fun _ _ => trivial
  simp only [bindings, properties, List.mem_append, List.mem_cons, List.mem_map, List.not_mem_nil,
    or_false] at member
  rcases member with (rfl | rfl | rfl | rfl | rfl | rfl) | ⟨_, -, rfl⟩ | ⟨_, -, rfl⟩
  · exact fun _ => trivial
  · exact fun _ => trivial
  · exact fun _ => trivial
  · exact fun _ => trivial
  · show (createNote call).Restrained _
    unfold createNote
    split
    · trivial
    · exact fun _ => ⟨rfl, trivial⟩
  · exact fun _ => trivial
  · exact property _ _
  · exact property _ _

/-- The resolvers write for the root of mutations only. -/
theorem restrains (configuration : Configuration) (call : Call) :
    (service configuration).registry.Restrains (call.typeName = "Mutation") call := by
  intro binding found
  have own := List.find?_some found
  simp only [Binding.isOf, Bool.and_eq_true, beq_iff_eq] at own
  rw [← own.1]
  exact restrained_of_mem (List.mem_of_find?_eq_some found) call

end Effects

section Arguments

/-- A value for an identifier or for a text that has to be there is a text. -/
theorem exists_string_of_conforms {scalar : BuiltinScalar} {value : Json}
    (textual : scalar = .id ∨ scalar = .string)
    (conforms : InputConforms schema (.nonNull (.builtin scalar)) value) :
    ∃ text, value = .string text := by
  have reads : scalar.Reads value := by
    cases conforms with
    | null nullable => cases nullable
    | nonNull h present =>
      cases h with
      | null _ => exact (present rfl).elim
      | builtin reads => exact reads
  cases value with
  | string text => exact ⟨text, rfl⟩
  | _ => rcases textual with rfl | rfl <;> exact reads.elim

/-- An input that conforms to a new note is one with a text. -/
theorem exists_note_of_conforms {value : Json}
    (conforms : InputConforms schema (.nonNull (.named "NoteInput")) value) :
    ∃ data, value = .object [("data", .string data)] := by
  have found : schema.type? "NoteInput" = some (.inputObject noteInput) := rfl
  cases conforms with
  | null nullable => cases nullable
  | nonNull h present =>
    cases h with
    | null _ =>
      obtain ⟨declared, scalar⟩ := present rfl
      rw [found] at scalar
      cases scalar
    | scalar other =>
      rw [found] at other
      cases other
    | enum other =>
      rw [found] at other
      cases other
    | object own fields =>
      rw [found] at own
      cases own
      cases fields with
      | leftOut nullable => cases nullable
      | given data others =>
        cases others
        obtain ⟨text, rfl⟩ := exists_string_of_conforms (.inr rfl) data
        exact ⟨text, rfl⟩

/-- The arguments of the field that creates notes are a user's identifier and a text. -/
theorem exists_of_coerceArguments {vars : Variables} {supplied : List (String × Literal)}
    {arguments : Json.Object}
    (read : Coercion.coerceArguments schema vars "Mutation" creation supplied = .ok arguments) :
    ∃ userID data, arguments =
      [("userID", .string userID), ("note", .object [("data", .string data)])] := by
  have fields : InputFields schema creation.arguments arguments := by
    unfold Coercion.coerceArguments at read
    split at read
    · cases read
    · exact Coercion.coerceDeclared_sound read
  cases fields with
  | leftOut nullable => cases nullable
  | given id others =>
    cases others with
    | leftOut nullable => cases nullable
    | given note rest =>
      cases rest
      obtain ⟨userID, rfl⟩ := exists_string_of_conforms (.inl rfl) id
      obtain ⟨data, rfl⟩ := exists_note_of_conforms note
      exact ⟨userID, data, rfl⟩

end Arguments

end Notes

end GraphQL
