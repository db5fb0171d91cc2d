import GraphQL.Duration.Human
import GraphQL.Schema.Build

/-!
# Configuration of an engine

Whether siblings run concurrently, how long a resolver may take, and how deep documents may nest.
The configuration has two written forms: a text in which it is printed, and a schema that says
which documents are configurations.
-/

set_option autoImplicit false

namespace GraphQL

/-- The options of an engine. -/
structure Configuration where
  parallelSiblings : Bool := true
  resolverTimeout : Option Duration := none
  recursionLimit : Nat := defaultRecursionLimit
  deriving DecidableEq, Repr

namespace Configuration

/-- The printed form of a configuration. -/
def render (c : Configuration) : String :=
  let timeout :=
    match c.resolverTimeout with
    | some duration => duration.toText
    | none => "~"
  let siblings := if c.parallelSiblings then "true" else "false"
  "---\nexecution:\n"
    ++ s!"  parallel_siblings: {siblings}\n"
    ++ s!"  resolver_timeout: {timeout}\n"
    ++ s!"  recursion_limit: {c.recursionLimit}\n"

/-- The options as JSON. -/
def optionsJson (c : Configuration) : Json :=
  .object [("parallel_siblings", .bool c.parallelSiblings),
    ("resolver_timeout",
      match c.resolverTimeout with
      | some duration => .string duration.toText
      | none => .null),
    ("recursion_limit", .ofInt c.recursionLimit)]

/-- The description of a member of a schema document, its default and more about it. -/
def member (name description : String) (default : Json) (more : Json.Object) : String × Json :=
  (name, .object ([("description", .string description), ("default", default)] ++ more))

/-- The identifier of the dialect of a schema document, by its draft. -/
def dialect (draft : String) : String :=
  let host := "json-schema.org"
  "http" ++ "://" ++ host ++ "/" ++ draft ++ "/schema#"

/-- The schema of configurations, as a JSON Schema document. -/
def schemaDocument : Json :=
  let standard : Configuration := {}
  let type := fun (name : String) => ("type", Json.string name)
  let options : Json.Object :=
    [member "parallel_siblings"
        ("Run sibling fields concurrently. Root fields of mutations always run one after the "
          ++ "other. default: true")
        (.bool standard.parallelSiblings) [type "boolean"],
      member "recursion_limit"
        "Recursion limit of the parser, for schema and query documents. default: 500"
        (.ofInt standard.recursionLimit)
        [type "integer", ("format", .string "uint"),
          ("minimum", .number (.float (.zero false)))],
      member "resolver_timeout"
        ("Time a single resolver may take, in human-readable format (e.g. `5s`). No limit if "
          ++ "not specified.")
        .null [type "string", ("nullable", .bool true)]]
  let closed := ("additionalProperties", Json.bool false)
  .object [("$schema", .string (dialect "draft-07")),
    ("title", .string "Configuration"),
    ("description", .string ("The configuration of the engine.\n\nEvery field has a default, an "
      ++ "empty document is a valid configuration.")),
    type "object",
    ("properties", .object
      [member "execution" "Execution of operations" standard.optionsJson
        [type "object", ("properties", .object options), closed]]),
    closed]

end Configuration

end GraphQL
