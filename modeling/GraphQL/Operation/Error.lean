import GraphQL.Response

/-!
# Why a request is rejected

The causes for which a request is answered without running any resolver. They have a serialized
form: the tag of the cause, or an object whose one key is the tag and whose value is the name or
the reason that the cause carries.
-/

set_option autoImplicit false

namespace GraphQL

/-- Why a request is rejected before execution. -/
inductive RequestError where
  | parsing (reason : String)
  | missingQuery
  | unknownOperation (name : String)
  | operationNameRequired
  | noOperation
  | duplicateOperation (name : String)
  | duplicateFragment (name : String)
  | unknownFragment (name : String)
  | fragmentCycle (name : String)
  | duplicateVariable (name : String)
  | subscriptionNotSupported
  | mutationNotSupported
  deriving DecidableEq, Repr

namespace RequestError

/-- The text does not follow the grammar. -/
def unreadable : RequestError :=
  parsing "<syntax>"

/-- The document defines types. -/
def notExecutable : RequestError :=
  parsing "the request document may only contain operations and fragments"

/-- What the error says. -/
def message : RequestError → String
  | parsing reason => s!"parsing error: {reason}"
  | missingQuery => "the request does not contain a query"
  | unknownOperation name => s!"Unknown operation named \"{name}\""
  | operationNameRequired =>
    "Must provide operation name if query contains multiple operations."
  | noOperation => "the document does not contain any operation"
  | duplicateOperation name => s!"operation '{name}' is defined more than once"
  | duplicateFragment name => s!"fragment '{name}' is defined more than once"
  | unknownFragment name => s!"Unknown fragment \"{name}\"."
  | fragmentCycle name => s!"Cannot spread fragment \"{name}\" within itself."
  | duplicateVariable name => s!"variable '${name}' is defined more than once"
  | subscriptionNotSupported => "subscription operation is not supported"
  | mutationNotSupported => "the schema does not define a mutation root type"

/-- The error code of a cause. -/
def code : RequestError → String
  | parsing _ | missingQuery => "GRAPHQL_PARSE_FAILED"
  | subscriptionNotSupported => "SUBSCRIPTION_NOT_SUPPORTED"
  | _ => "GRAPHQL_VALIDATION_FAILED"

/-- What a cause adds to the extensions. -/
def details : RequestError → Json.Object
  | unknownOperation name => [("operationName", .string name)]
  | _ => []

instance : Reportable RequestError where
  message := message
  code := code
  details := details

/-- The tag of a cause in its serialized form. -/
def tag : RequestError → String
  | parsing _ => "ParsingError"
  | missingQuery => "MissingQuery"
  | unknownOperation _ => "UnknownOperation"
  | operationNameRequired => "OperationNameRequired"
  | noOperation => "NoOperation"
  | duplicateOperation _ => "DuplicateOperation"
  | duplicateFragment _ => "DuplicateFragment"
  | unknownFragment _ => "UnknownFragment"
  | fragmentCycle _ => "FragmentCycle"
  | duplicateVariable _ => "DuplicateVariable"
  | subscriptionNotSupported => "SubscriptionNotSupported"
  | mutationNotSupported => "MutationNotSupported"

/-- The name or the reason that a cause carries. -/
def detail? : RequestError → Option String
  | parsing text | unknownOperation text | duplicateOperation text | duplicateFragment text
  | unknownFragment text | fragmentCycle text | duplicateVariable text => some text
  | _ => none

/-- The causes that carry a text, each as a function of it. -/
def withText : List (String → RequestError) :=
  [parsing, unknownOperation, duplicateOperation, duplicateFragment, unknownFragment,
    fragmentCycle, duplicateVariable]

/-- The causes that carry nothing. -/
def withoutText : List RequestError :=
  [missingQuery, operationNameRequired, noOperation, subscriptionNotSupported,
    mutationNotSupported]

/-- The serialized form of a cause. -/
def toJson (e : RequestError) : Json :=
  match e.detail? with
  | some text => .object [(e.tag, .string text)]
  | none => .string e.tag

/-- Reads a serialized cause. -/
def ofJson? : Json → Option RequestError
  | .string tag => withoutText.find? fun e => e.tag == tag
  | .object [(tag, .string text)] => (withText.map (· text)).find? fun e => e.tag == tag
  | _ => none

/-- Reading a cause gives back what was written. -/
@[simp] theorem ofJson?_toJson (e : RequestError) : ofJson? e.toJson = some e := by
  cases e <;> simp [toJson, ofJson?, detail?, withText, withoutText, tag]

end RequestError

end GraphQL
