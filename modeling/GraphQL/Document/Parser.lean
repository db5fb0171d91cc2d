import GraphQL.Document.Basic
import GraphQL.Document.Token

/-!
# Reading documents

The grammar of GraphQL documents over tokens. `Document.parse?` reads a text as a document.

A document nests in several ways: every selection set, every list in a type, every item of a list
literal and every field value of an object literal is one level, and a document with more levels
than a limit is not read. The functions that recurse take the number of levels that are left, and
recurse on it.

Two parts may lack what gives them a meaning, and are then dropped: an argument or a field of an
object literal without a value, and a root operation without a type.
-/

set_option autoImplicit false

namespace GraphQL

/-- A reader of tokens: what it makes of the tokens in front, and the tokens that are left. -/
abbrev Reader := StateT (List Token) Option

namespace Reader

/-- The token in front. -/
def peek : Reader (Option Token) :=
  return (← get).head?

/-- Whether some token is in front. -/
def at? (token : Token) : Reader Bool :=
  return (← peek) == some token

/-- Whether a name is in front. -/
def atName? : Reader Bool := do
  match ← peek with
  | some (.name _) => return true
  | _ => return false

/-- Takes the token in front. -/
def next : Reader Token := do
  match ← get with
  | token :: rest =>
    set rest
    return token
  | [] => failure

/-- Takes a given token. -/
def expect (token : Token) : Reader Unit := do
  if (← next) == token then return () else failure

/-- Takes a given token if it is in front, and says whether it was. -/
def accept (token : Token) : Reader Bool := do
  if ← at? token then
    let _ ← next
    return true
  else return false

/-- Takes a name. -/
def name : Reader String := do
  match ← next with
  | .name text => return text
  | _ => failure

/-- Reads an item if some token is in front. -/
def optionally {α : Type} (token : Token) (item : Reader α) : Reader (Option α) := do
  if ← at? token then return some (← item) else return none

/-- Reads items, as many as the fuel allows, as long as a token that starts one is in front. -/
def manySteps {α : Type} (starts : Token → Bool) (item : Reader α) : Nat → Reader (List α)
  | 0 => return []
  | fuel + 1 => do
    match ← peek with
    | some token =>
      if starts token then
        let first ← item
        let more ← manySteps starts item fuel
        return first :: more
      else return []
    | none => return []

/-- Reads items as long as a token that starts one is in front. Every item takes a token, so there
are no more items than tokens. -/
def many {α : Type} (starts : Token → Bool) (item : Reader α) : Reader (List α) := do
  manySteps starts item (← get).length

/-- Reads items, at least one. -/
def many1 {α : Type} (starts : Token → Bool) (item : Reader α) : Reader (List α) := do
  let items ← many starts item
  if items.isEmpty then failure else return items

/-- Reads something between two tokens. -/
def between {α : Type} (left right : Char) (content : Reader α) : Reader α := do
  expect (.punctuator left)
  let result ← content
  expect (.punctuator right)
  return result

/-- Reads items with a separator between them, at least one; the first may have one before it. -/
def separated {α : Type} (separator : Char) (item : Reader α) : Reader (List α) := do
  let _ ← accept (.punctuator separator)
  let first ← item
  let more ← many (· == .punctuator separator) (do
    expect (.punctuator separator)
    item)
  return first :: more

end Reader

namespace Document

open Reader

/-- Whether a token is a name. -/
def isName : Token → Bool
  | .name _ => true
  | _ => false

/-- Whether a token starts something that may have a description. -/
def startsDescribed : Token → Bool
  | .name _ | .string _ => true
  | _ => false

/-- Takes a description, if there is one. -/
def description : Reader Unit := do
  match ← peek with
  | some (.string _) =>
    let _ ← next
    return ()
  | _ => return ()

section Values

/-- Reads a value; `nested` reads the values inside it. Variables have no place among constants. -/
def valueWith (constant : Bool) (nested : Reader Literal) : Reader Literal := do
  match ← next with
  | .int text => return .int text
  | .float text => return .float text
  | .string s => return .string s
  | .name text =>
    if text == "true" then return .bool true
    else if text == "false" then return .bool false
    else if text == "null" then return .null
    else return .enum text
  | .punctuator '$' => if constant then failure else return .var (← name)
  | .punctuator '[' =>
    let items ← many (· != .punctuator ']') nested
    expect (.punctuator ']')
    return .list items
  | .punctuator '\x7b' =>
    let fields ← many isName (do
      let field ← name
      if ← accept (.punctuator ':') then return some (field, ← nested) else return none)
    expect (.punctuator '\x7d')
    return .object (fields.filterMap id)
  | _ => failure

/-- Reads a value that nests within the levels that are left. -/
def value (constant : Bool) : Nat → List Token → Option (Literal × List Token)
  | 0, tokens => valueWith constant failure tokens
  | levels + 1, tokens => valueWith constant (fun tokens => value constant levels tokens) tokens

/-- Reads an argument; without a colon it has no value. -/
def argument (constant : Bool) (levels : Nat) : Reader (Option (String × Literal)) := do
  let argument ← name
  if ← accept (.punctuator ':') then return some (argument, ← value constant levels)
  else return none

/-- Reads the arguments of a field or of a directive, if there are any. -/
def arguments (constant : Bool) (levels : Nat) : Reader (List (String × Literal)) := do
  let arguments ← optionally (.punctuator '(')
    (between '(' ')' (many1 isName (argument constant levels)))
  return (arguments.getD []).filterMap id

/-- Takes directives. -/
def directives (constant : Bool) (levels : Nat) : Reader Unit := do
  let _ ← many (· == .punctuator '@') (do
    expect (.punctuator '@')
    let _ ← name
    arguments constant levels)
  return ()

end Values

section Types

/-- Reads a type reference; `nested` reads the type of the items of a list. -/
def typeWith (nested : Reader TypeRef) : Reader TypeRef := do
  let type ← (do
    match ← next with
    | .name text => return .ofName text
    | .punctuator '[' =>
      let item ← nested
      expect (.punctuator ']')
      return .list item
    | _ => failure : Reader TypeRef)
  if ← accept (.punctuator '!') then return .nonNull type else return type

/-- Reads a type reference that nests within the levels that are left. -/
def typeRef : Nat → List Token → Option (TypeRef × List Token)
  | 0, tokens => typeWith failure tokens
  | levels + 1, tokens => typeWith (fun tokens => typeRef levels tokens) tokens

/-- Reads a type reference and a default value, if there is one, after a colon. -/
def typeAndDefault (levels : Nat) : Reader (TypeRef × Option Literal) := do
  expect (.punctuator ':')
  let type ← typeRef levels
  let default ← optionally (.punctuator '=') (do
    expect (.punctuator '=')
    value true levels)
  directives true levels
  return (type, default)

end Types

section Executable

/-- Reads the condition of a fragment. -/
def condition : Reader String := do
  expect (.name "on")
  name

/-- Reads the name of a fragment, which may not be the word that starts a condition. -/
def fragmentName : Reader String := do
  let fragment ← name
  if fragment == "on" then failure else return fragment

/-- Reads an entry of a selection set; `nested` reads the selection sets inside it. -/
def selectionWith (levels : Nat) (nested : Reader (List Selection)) : Reader Selection := do
  match ← next with
  | .name text =>
    let (aliasName, field) ← (do
      if ← accept (.punctuator ':') then return (some text, ← name)
      else return (none, text) : Reader (Option String × String))
    let arguments ← arguments false levels
    directives false levels
    let selections ← optionally (.punctuator '\x7b') nested
    return .field aliasName field arguments (selections.getD [])
  | .spread =>
    match ← peek with
    | some (.name text) =>
      if text == "on" then
        let condition ← condition
        directives false levels
        return .inlineFragment (some condition) (← nested)
      else
        let fragment ← fragmentName
        directives false levels
        return .fragmentSpread fragment
    | _ =>
      directives false levels
      return .inlineFragment none (← nested)
  | _ => failure

/-- Whether a token starts an entry of a selection set. -/
def startsSelection : Token → Bool
  | .name _ | .spread => true
  | _ => false

/-- Reads a selection set that nests within the levels that are left. It is a level itself. -/
def selectionSet : Nat → List Token → Option (List Selection × List Token)
  | 0, _ => none
  | levels + 1, tokens =>
    between '\x7b' '\x7d'
      (many1 startsSelection (selectionWith levels fun tokens => selectionSet levels tokens))
      tokens

/-- Reads the declaration of a variable. -/
def variableDefinition (levels : Nat) : Reader VariableDefinition := do
  expect (.punctuator '$')
  let name ← name
  let (type, default) ← typeAndDefault levels
  return { name, type, default }

/-- The kind of operation that a word stands for. -/
def operationKind? (word : String) : Option OperationKind :=
  if word == "query" then some .query
  else if word == "mutation" then some .mutation
  else if word == "subscription" then some .subscription
  else none

/-- Reads the rest of an operation, after the word for its kind. -/
def operation (levels : Nat) (kind : OperationKind) : Reader OperationDefinition := do
  let operationName ← (do
    if ← atName? then return some (← name) else return none : Reader (Option String))
  let declared ← optionally (.punctuator '(')
    (between '(' ')' (many1 (· == .punctuator '$') (variableDefinition levels)))
  directives false levels
  let selections ← selectionSet levels
  return { kind, name := operationName, variableDefinitions := declared.getD [], selections }

/-- Reads the rest of a fragment definition, after its keyword. -/
def fragment (levels : Nat) : Reader FragmentDefinition := do
  let name ← fragmentName
  let condition ← condition
  directives false levels
  let selections ← selectionSet levels
  return { name, condition, selections }

end Executable

section TypeSystem

/-- Reads an argument of a field, or a field of an input object. -/
def inputValue (levels : Nat) : Reader InputValueDefinition := do
  description
  let name ← name
  let (type, default) ← typeAndDefault levels
  return { name, type, default }

/-- Reads the declared arguments of a field or of a directive, if there are any. -/
def declaredArguments (levels : Nat) : Reader (List InputValueDefinition) := do
  let arguments ← optionally (.punctuator '(')
    (between '(' ')' (many1 startsDescribed (inputValue levels)))
  return arguments.getD []

/-- Reads a field of an object type. -/
def fieldDefinition (levels : Nat) : Reader FieldDefinition := do
  description
  let name ← name
  let arguments ← declaredArguments levels
  expect (.punctuator ':')
  let type ← typeRef levels
  directives true levels
  return { name, type, arguments }

/-- Reads a body in braces, if there is one, whose items may have descriptions. -/
def body {α : Type} (item : Reader α) : Reader (Option (List α)) :=
  optionally (.punctuator '\x7b') (between '\x7b' '\x7d' (many1 startsDescribed item))

/-- Takes the interfaces of a type, if it names any, and says whether it did. -/
def implemented : Reader Bool := do
  if ← accept (.name "implements") then
    let _ ← separated '&' name
    return true
  else return false

/-- Reads a value of an enum type. -/
def enumValue (levels : Nat) : Reader String := do
  description
  let symbol ← name
  directives true levels
  if ["true", "false", "null"].contains symbol then failure else return symbol

/-- Reads a root operation; without a type it says nothing. -/
def rootOperation : Reader (Option (OperationKind × String)) := do
  match operationKind? (← name) with
  | none => failure
  | some kind =>
    expect (.punctuator ':')
    if ← atName? then return some (kind, ← name) else return none

/-- Reads the root operations in braces, if they are there. -/
def rootOperations : Reader (Option (List (OperationKind × String))) := do
  let roots ← optionally (.punctuator '\x7b')
    (between '\x7b' '\x7d' (many1 isName rootOperation))
  return roots.map fun roots => roots.filterMap id

/-- Takes the members of a union, if they are there, and says whether they were. -/
def members : Reader Bool := do
  if ← accept (.punctuator '=') then
    let _ ← separated '|' name
    return true
  else return false

/-- The places where a directive may be declared to stand. -/
def directiveLocations : List String :=
  ["QUERY", "MUTATION", "SUBSCRIPTION", "FIELD", "FRAGMENT_DEFINITION", "FRAGMENT_SPREAD",
    "INLINE_FRAGMENT", "VARIABLE_DEFINITION", "SCHEMA", "SCALAR", "OBJECT", "FIELD_DEFINITION",
    "ARGUMENT_DEFINITION", "INTERFACE", "UNION", "ENUM", "ENUM_VALUE", "INPUT_OBJECT",
    "INPUT_FIELD_DEFINITION"]

/-- Takes the rest of a directive definition, after its keyword. -/
def directiveDefinition (levels : Nat) : Reader Unit := do
  expect (.punctuator '@')
  let _ ← name
  let _ ← declaredArguments levels
  let _ ← accept (.name "repeatable")
  expect (.name "on")
  let locations ← separated '|' name
  if locations.all directiveLocations.contains then return () else failure

/-- Takes directives and says whether there are any. -/
def someDirectives (levels : Nat) : Reader Bool := do
  let found ← at? (.punctuator '@')
  directives true levels
  return found

/-- Takes the rest of an extension, after its keyword. An extension extends something. -/
def extension (levels : Nat) : Reader Unit := do
  let word ← name
  if word == "schema" then
    let directives ← someDirectives levels
    let roots ← rootOperations
    if directives || roots.isSome then return () else failure
  else
    let _ ← name
    let interfaces ← (do
      if word == "type" || word == "interface" then implemented else return false : Reader Bool)
    let directives ← someDirectives levels
    let extended ← (do
      if word == "scalar" then return false
      else if word == "type" || word == "interface" then
        return (← body (fieldDefinition levels)).isSome
      else if word == "input" then return (← body (inputValue levels)).isSome
      else if word == "enum" then return (← body (enumValue levels)).isSome
      else if word == "union" then members
      else failure : Reader Bool)
    if interfaces || directives || extended then return () else failure

/-- Reads the rest of a definition of the type system, after its keyword. -/
def typeSystemDefinition (levels : Nat) (word : String) : Reader Definition := do
  if word == "schema" then
    directives true levels
    return .schema ((← rootOperations).getD [])
  else if word == "scalar" then
    let name ← name
    directives true levels
    return .scalar name
  else if word == "type" then
    let name ← name
    let _ ← implemented
    directives true levels
    return .object { name, fields := (← body (fieldDefinition levels)).getD [] }
  else if word == "interface" then
    let name ← name
    let _ ← implemented
    directives true levels
    let _ ← body (fieldDefinition levels)
    return .interface name
  else if word == "union" then
    let name ← name
    directives true levels
    let _ ← members
    return .union name
  else if word == "enum" then
    let name ← name
    directives true levels
    return .enum { name, values := (← body (enumValue levels)).getD [] }
  else if word == "input" then
    let name ← name
    directives true levels
    return .inputObject { name, fields := (← body (inputValue levels)).getD [] }
  else if word == "directive" then
    directiveDefinition levels
    return .directive
  else failure

end TypeSystem

/-- Reads a definition. Only definitions of the type system may have a description. -/
def definition (levels : Nat) : Reader Definition := do
  match ← peek with
  | some (.string _) =>
    description
    typeSystemDefinition levels (← name)
  | some (.punctuator '\x7b') =>
    let selections ← selectionSet levels
    return .operation { kind := .query, name := none, variableDefinitions := [], selections }
  | _ =>
    let word ← name
    match operationKind? word with
    | some kind => return .operation (← operation levels kind)
    | none =>
      if word == "fragment" then return .fragment (← fragment levels)
      else if word == "extend" then
        extension levels
        return .extension
      else typeSystemDefinition levels word

/-- Reads a text as a document that nests at most `limit` levels deep; none if it is not one. A
document has at least one definition.

No document nests deeper than it has tokens, so a limit beyond their number is no limit. -/
def parse? (limit : Nat) (text : String) : Option Document := do
  let tokens ← Token.scan? text
  let (document, rest) ← many1 (fun _ => true) (definition (min limit tokens.length)) tokens
  if rest.isEmpty then some document else none

end Document

end GraphQL
