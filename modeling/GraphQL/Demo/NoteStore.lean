import GraphQL.Json.Basic

/-!
# A store of notes

Users with their notes, kept in memory. Notes get their identifiers in the order of their creation
and keep them; a note is added at the end of the notes of its user.
-/

set_option autoImplicit false

namespace GraphQL

/-- A user. -/
structure User where
  userID : String
  username : String
  emoji : String
  deriving DecidableEq, Repr

/-- A note. -/
structure Note where
  noteID : String
  data : String
  deriving DecidableEq, Repr

namespace User

/-- A user as JSON. -/
def toJson (user : User) : Json :=
  .object [("userID", .string user.userID), ("username", .string user.username),
    ("emoji", .string user.emoji)]

end User

namespace Note

/-- A note as JSON. -/
def toJson (note : Note) : Json :=
  .object [("noteID", .string note.noteID), ("data", .string note.data)]

/-- The identifier of a note: its number, with at least three digits. -/
def identifier (number : Nat) : String :=
  let digits := Nat.toDigits 10 number
  "n-" ++ String.ofList (List.replicate (3 - digits.length) '0' ++ digits)

end Note

/-- Users with their notes, and the number of the next note. -/
structure NoteStore where
  entries : List (User × List Note) := []
  nextNote : Nat := 0
  deriving DecidableEq, Repr

namespace NoteStore

/-- The users, in order. -/
def users (store : NoteStore) : List User :=
  store.entries.map Prod.fst

/-- The entry of a user. -/
def entry? (store : NoteStore) (userID : String) : Option (User × List Note) :=
  store.entries.find? fun entry => entry.1.userID == userID

/-- The user of an identifier. -/
def user? (store : NoteStore) (userID : String) : Option User :=
  (store.entry? userID).map Prod.fst

/-- The notes of a user, in order; none if there is no such user. -/
def notes (store : NoteStore) (userID : String) : List Note :=
  ((store.entry? userID).map Prod.snd).getD []

/-- All notes, user by user. -/
def allNotes (store : NoteStore) : List Note :=
  store.entries.flatMap Prod.snd

/-- The note of an identifier. -/
def note? (store : NoteStore) (noteID : String) : Option Note :=
  store.allNotes.find? fun note => note.noteID == noteID

/-- Adds a note to the first entry of a user. -/
def append (userID : String) (note : Note) : List (User × List Note) → List (User × List Note)
  | [] => []
  | entry :: rest =>
    if entry.1.userID == userID then (entry.1, entry.2 ++ [note]) :: rest
    else entry :: append userID note rest

/-- Adding a note leaves the users as they are. -/
@[simp] theorem map_fst_append (userID : String) (note : Note)
    (entries : List (User × List Note)) :
    (append userID note entries).map Prod.fst = entries.map Prod.fst := by
  induction entries with
  | nil => rfl
  | cons entry rest ih =>
    simp only [append]
    split <;> simp [ih]

/-- Creates a note of a user, and reads it back; without such a user nothing happens. -/
def createNote (store : NoteStore) (userID data : String) : NoteStore × Option Note :=
  if (store.entry? userID).isSome then
    let noteID := Note.identifier store.nextNote
    let store : NoteStore :=
      { entries := append userID { noteID, data } store.entries, nextNote := store.nextNote + 1 }
    (store, (store.notes userID).find? fun note => note.noteID == noteID)
  else (store, none)

/-- Adds a user with notes. -/
def addUser (store : NoteStore) (user : User) (texts : List String) : NoteStore :=
  { entries := store.entries ++
      [(user, texts.mapIdx fun i data =>
        { noteID := Note.identifier (store.nextNote + i), data })]
    nextNote := store.nextNote + texts.length }

/-- A store of three users with three notes each. -/
def seeded : NoteStore :=
  let store : NoteStore := { nextNote := 1 }
  let store := store.addUser { userID := "u-001", username := "CR7", emoji := "🇵🇹" }
    ["Olá Mundo!", "Olá novamente, mundo!", "Olá, escuridão!"]
  let store := store.addUser { userID := "u-002", username := "Sergio_Ramos", emoji := "🇪🇸" }
    ["!Hola Mundo!", "¡Hola de nuevo mundo!", "¡Hola oscuridad!"]
  store.addUser { userID := "u-003", username := "michaelmiranda_", emoji := "🇺🇸" }
    ["Hello, world!", "Hello again, world!", "Hello, darkness!"]

end NoteStore

end GraphQL
