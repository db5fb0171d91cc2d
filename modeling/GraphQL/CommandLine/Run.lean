import GraphQL.Json.Parser
import GraphQL.CommandLine.Arguments
import GraphQL.Configuration.Read

/-!
# What the command line does

`CommandLine.run` says what the program prints and how it ends, given its arguments, its input and
the files that it may read: with code 2 if the arguments are wrong, with code 1 if it fails, and
with code 0 otherwise. It prints nothing if it fails.
-/

set_option autoImplicit false

namespace GraphQL

namespace CommandLine

/-- How the program ends, and what it printed. -/
structure Outcome where
  code : Nat
  output : String := ""
  deriving DecidableEq, Repr

/-- The program fails. -/
def Outcome.failure : Outcome := { code := 1 }

/-- The program is not used as it should be. -/
def Outcome.misuse : Outcome := { code := 2 }

section Log

/-- The words for a level of detail; digits stand for them too. -/
def logLevels : List String :=
  ["trace", "debug", "info", "warn", "error", "off", "0", "1", "2", "3", "4", "5"]

/-- Whether a text names a level of detail; case does not matter. -/
def isLogLevel (text : String) : Bool :=
  logLevels.contains text.toLower

/-- Characters of the name of a target. -/
def isTargetChar (c : Char) : Bool :=
  c.isAlphanum || c == '_' || c == ':' || c == '-' || 127 < c.toNat

/-- Drops a target, or a span in brackets, from the front of a text. -/
def dropTarget? : List Char → Option (List Char)
  | '[' :: rest =>
    match rest.dropWhile (· != ']') with
    | ']' :: rest => some rest
    | _ => none
  | c :: rest => if isTargetChar c then some (rest.dropWhile isTargetChar) else none
  | [] => none

/-- Whether a text is a directive: a level, or one or two targets with or without a level. -/
def isLogDirective (text : String) : Bool :=
  let endsDirective := fun (rest : List Char) =>
    match rest with
    | [] => true
    | '=' :: level => level.isEmpty || isLogLevel (String.ofList level)
    | _ => false
  isLogLevel text ||
    match dropTarget? text.toList with
    | none => false
    | some rest => endsDirective rest || (dropTarget? rest).any endsDirective

/-- Whether a text says what to log: directives with commas between them. -/
def isLogFilter (text : String) : Bool :=
  (text.splitOn ",").all fun directive => directive.isEmpty || isLogDirective directive

end Log

/-- The configuration of an invocation. -/
def Invocation.configuration? (invocation : Invocation) (readFile : String → Option String) :
    Option Configuration :=
  match invocation.configPath with
  | some path => (readFile path).bind Configuration.ofText?
  | none => some {}

/-- The printed form of a response. -/
def printResponse (response : Response) : String :=
  response.toJson.pretty ++ "\n"

/-- Reads the variables of an operation, which are an object. -/
def readVariables? : Option String → Option Json.Object
  | some text => (Json.parse? text).bind Json.object?
  | none => some []

/-- Does what an invocation asks for; none if it fails. -/
def Invocation.output? (invocation : Invocation) (input : String)
    (readFile : String → Option String) : Option String := do
  let configuration ← if isLogFilter invocation.logLevel then invocation.configuration? readFile
    else none
  match invocation.command with
  | .demo demo =>
    let engine ← (demo.engine configuration).toOption
    let responses := engine.executeAll .seeded demo.requests
    some (String.join (responses.map printResponse))
  | .exec query demo operationName variableText =>
    let query := if query == "-" then input else query
    let variableValues ← readVariables? variableText
    let engine ← (demo.engine configuration).toOption
    let request : Request := { query := some query, operationName, variableValues }
    some (printResponse (engine.execute request .seeded none).response)
  | .config schema =>
    some (if schema then Configuration.schemaDocument.pretty ++ "\n" else configuration.render)

/-- Runs the program. -/
def run (arguments : List String) (input : String) (readFile : String → Option String) :
    Outcome :=
  match Invocation.ofArguments? arguments with
  | none => .misuse
  | some invocation =>
    match invocation.output? input readFile with
    | some output => { code := 0, output }
    | none => .failure

end CommandLine

end GraphQL
