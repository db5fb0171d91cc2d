import GraphQL.Engine

/-!
# Greetings

A demonstration service with root fields only, arguments and an enum.
-/

set_option autoImplicit false

namespace GraphQL

namespace Greetings

/-- The schema of the service. -/
def schemaText : String :=
  "type Query {
  greet: String!
  greetPerson(person: String!): String!
  greetPersonTimeOfDay(person: String!, timeOfDay: TimeOfDay!): String!
}

enum TimeOfDay {
  MORNING
  AFTERNOON
  EVENING
}
"

/-- How to greet at some time of day. -/
def salutation (timeOfDay : String) : String :=
  if timeOfDay == "MORNING" then "Good morning"
  else if timeOfDay == "AFTERNOON" then "Good afternoon"
  else if timeOfDay == "EVENING" then "Good evening"
  else "Go to bed"

/-- Greets a person. -/
def greetPerson (call : Call) : Except FieldError Json := do
  let person ← call.textArgument "person"
  return .string s!"Hello, {person}!"

/-- Greets a person as the time of day asks. -/
def greetPersonTimeOfDay (call : Call) : Except FieldError Json := do
  let person ← call.textArgument "person"
  let timeOfDay ← call.textArgument "timeOfDay"
  return .string s!"{salutation timeOfDay}, {person}!"

variable {State : Type}

/-- The bindings of the service. It needs no state. -/
def bindings : List (Binding State) :=
  [{ typeName := "Query", fieldName := "greet",
     resolver := .compute fun _ => .ok (.string "Hello, world!") },
    { typeName := "Query", fieldName := "greetPerson", arguments := ["person"],
      resolver := .compute greetPerson },
    { typeName := "Query", fieldName := "greetPersonTimeOfDay",
      arguments := ["person", "timeOfDay"], resolver := .compute greetPersonTimeOfDay }]

/-- The resolvers of the service. -/
def registry : Except BindingError (Registry State) :=
  Registry.bindAll {} bindings

/-- Requests that show the service. -/
def requests : List Request :=
  [{ query := "query Greet { greet }", operationName := "Greet" },
    { query := "query GreetPerson($person: String!) { greetPerson(person: $person) }",
      operationName := "GreetPerson", variableValues := [("person", .string "Michael")] },
    { query := "query GreetPersonTimeOfDay($person: String!, $timeOfDay: TimeOfDay!) {
                            greetPersonTimeOfDay(person: $person, timeOfDay: $timeOfDay)
                        }",
      operationName := "GreetPersonTimeOfDay",
      variableValues := [("person", .string "Michael"), ("timeOfDay", .string "AFTERNOON")] }]

end Greetings

end GraphQL
