import GraphQL.Demo.NoteStore
import GraphQL.Engine

/-!
# Notes

A demonstration service over a store of users and notes, with queries and a mutation.
-/

set_option autoImplicit false

namespace GraphQL

namespace Notes

/-- The schema of the service. -/
def schemaText : String :=
  "schema {
  query: Query
  mutation: Mutation
}

type Query {
  users: [User!]!
  user(userID: ID!): User!
  notes(userID: ID!): [Note!]!
  note(noteID: ID!): Note!
}

type Mutation {
  createNote(userID: ID!, note: NoteInput!): Note!
}

type User {
  userID: ID!
  username: String!
  emoji: String!
  notes: [Note!]!
}

type Note {
  noteID: ID!
  data: String!
}

input NoteInput {
  data: String!
}
"

/-- The failure for something that is not there. -/
def notFound : FieldError :=
  { message := "not found" }

/-- A value that may be missing, as a result. -/
def found {α : Type} (toJson : α → Json) : Option α → Except FieldError Json
  | some value => .ok (toJson value)
  | none => .error notFound

/-- All users. -/
def users (store : NoteStore) (_call : Call) : Except FieldError Json :=
  .ok (.array (store.users.map User.toJson))

/-- The user that is asked for. -/
def user (store : NoteStore) (call : Call) : Except FieldError Json := do
  let userID ← call.textArgument "userID"
  found User.toJson (store.user? userID)

/-- The notes of the user that is asked for. -/
def notes (store : NoteStore) (call : Call) : Except FieldError Json := do
  let userID ← call.textArgument "userID"
  return .array ((store.notes userID).map Note.toJson)

/-- The note that is asked for. -/
def note (store : NoteStore) (call : Call) : Except FieldError Json := do
  let noteID ← call.textArgument "noteID"
  found Note.toJson (store.note? noteID)

/-- The notes of the user that is the parent. -/
def notesOfUser (store : NoteStore) (call : Call) : Except FieldError Json :=
  let userID := (call.parentProperty? "userID").bind Json.string?
  .ok (.array ((userID.elim [] store.notes).map Note.toJson))

/-- The user and the text of the note that is to be created. -/
def newNote (call : Call) : Except FieldError (String × String) := do
  let userID ← call.textArgument "userID"
  let input := (call.argument? "note").bind Json.object?
  match (input.bind fun members => Json.Object.get? members "data").bind Json.string? with
  | some data => return (userID, data)
  | none => .error { message := "missing argument 'note'" }

/-- Creates a note. -/
def createNote : Resolver NoteStore := fun call =>
  match newNote call with
  | .error e => .done (.error e)
  | .ok (userID, data) =>
    .read fun store =>
      let (store, created) := store.createNote userID data
      .write store <| .done <|
        match created with
        | some note => .ok note.toJson
        | none => .error { message := s!"unknown user '{userID}'" }

/-- The bindings of the fields that do more than read a property. -/
def bindings : List (Binding NoteStore) :=
  [{ typeName := "Query", fieldName := "users", resolver := .reading users },
    { typeName := "Query", fieldName := "user", arguments := ["userID"], fallible := true,
      resolver := .reading user },
    { typeName := "Query", fieldName := "notes", arguments := ["userID"],
      resolver := .reading notes },
    { typeName := "Query", fieldName := "note", arguments := ["noteID"], fallible := true,
      resolver := .reading note },
    { typeName := "Mutation", fieldName := "createNote", arguments := ["userID", "note"],
      fallible := true, resolver := createNote },
    { typeName := "User", fieldName := "notes", resolver := .reading notesOfUser }]

/-- The bindings of the fields that read a property. -/
def properties : List (Binding NoteStore) :=
  ["userID", "username", "emoji"].map (.property "User")
    ++ ["noteID", "data"].map (.property "Note")

/-- The resolvers of the service. -/
def registry : Except BindingError (Registry NoteStore) :=
  Registry.bindAll {} (bindings ++ properties)

/-- Requests that show the service. -/
def requests : List Request :=
  let noteQuery := "query Note($noteID: ID!) { note(noteID: $noteID) { noteID data } }"
  [{ query := "query Users { users { userID username } }", operationName := "Users" },
    { query := "query User($userID: ID!) { user(userID: $userID) { userID username } }",
      operationName := "User", variableValues := [("userID", .string "u-001")] },
    { query := "query Notes($userID: ID!) { notes(userID: $userID) { noteID data } }",
      operationName := "Notes", variableValues := [("userID", .string "u-001")] },
    { query := noteQuery, operationName := "Note",
      variableValues := [("noteID", .string "n-001")] },
    { query := noteQuery, operationName := "Note",
      variableValues := [("noteID", .string "missing")] },
    { query := "mutation CreateNote($userID: ID!, $note: NoteInput!) {
                            createNote(userID: $userID, note: $note) { noteID data }
                        }",
      operationName := "CreateNote",
      variableValues := [("userID", .string "u-003"),
        ("note", .object [("data", .string "We created a note!")])] },
    { query := "query Users { users { userID username notes { noteID data } } }",
      operationName := "Users" }]

end Notes

end GraphQL
