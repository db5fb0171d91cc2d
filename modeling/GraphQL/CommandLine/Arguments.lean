import GraphQL.Demo.Basic

/-!
# Arguments of the command line

What the arguments of the command line ask for. Options have values of their own or after an equals
sign, are given at most once, and are known at their place: those of the program before the name of
a command, those of a command after it. Two dashes end the options.
-/

set_option autoImplicit false

namespace GraphQL

namespace CommandLine

/-- An option: its name, the letters and words that it goes by, and whether it has a value. -/
structure OptionSpec where
  name : String
  words : List String
  letters : List Char := []
  hasValue : Bool := true

/-- The options and the other arguments that were read. -/
structure Arguments where
  options : List (String × String) := []
  positionals : List String := []

namespace Arguments

/-- The value of an option. -/
def option? (arguments : Arguments) (name : String) : Option String :=
  (arguments.options.find? fun option => option.1 == name).map Prod.snd

/-- Adds the value of an option that was not given before. -/
def addOption? (arguments : Arguments) (name value : String) : Option Arguments :=
  if (arguments.option? name).isSome then none
  else some { arguments with options := arguments.options ++ [(name, value)] }

end Arguments

/-- An argument as it is written. -/
inductive Written where
  | endOfOptions
  | word (name : String) (value : Option String)
  | short (letter : Char) (value : Option String)
  | other (text : String)

namespace Written

/-- How an argument is to be understood. A single dash is no option. -/
def ofText (text : String) : Written :=
  match text.toList with
  | ['-', '-'] => .endOfOptions
  | '-' :: '-' :: rest =>
    let name := String.ofList (rest.takeWhile (· != '='))
    match rest.dropWhile (· != '=') with
    | '=' :: value => .word name (some (String.ofList value))
    | _ => .word name none
  | '-' :: c :: rest =>
    match rest with
    | [] => .short c none
    | '=' :: value => .short c (some (String.ofList value))
    | value => .short c (some (String.ofList value))
  | _ => .other text

/-- Whether an argument may be the value of the option before it. -/
def isValue (text : String) : Bool :=
  match ofText text with
  | .other _ => true
  | _ => false

end Written

/-- Takes an option: its value if it has one already, or else the name of the option whose value
comes next. None if the option is unknown or repeated, or has a value that it may not have. -/
def takeOption? (read : Arguments) (value : Option String) :
    Option OptionSpec → Option (Arguments × Option String)
  | none => none
  | some spec =>
    match spec.hasValue, value with
    | true, some value => (read.addOption? spec.name value).map (·, none)
    | true, none => some (read, some spec.name)
    | false, some _ => none
    | false, none => (read.addOption? spec.name "").map (·, none)

/-- Reads options and other arguments up to the other argument whose count is `stop`, and gives the
rest back; `pending` is the option whose value comes next. None if an option is unknown, repeated,
or lacks its value. -/
def readArguments? (specs : List OptionSpec) (stop : Nat) :
    Arguments → Option String → List String → Option (Arguments × List String)
  | read, none, [] => some (read, [])
  | _, some _, [] => none
  | read, some name, text :: rest => do
    let read ← if Written.isValue text then read.addOption? name text else none
    readArguments? specs stop read none rest
  | read, none, text :: rest =>
    match Written.ofText text with
    | .endOfOptions => some ({ read with positionals := read.positionals ++ rest }, [])
    | .word name value => do
      let (read, pending) ←
        takeOption? read value (specs.find? fun spec => spec.words.contains name)
      readArguments? specs stop read pending rest
    | .short c value => do
      let (read, pending) ←
        takeOption? read value (specs.find? fun spec => spec.letters.contains c)
      readArguments? specs stop read pending rest
    | .other text =>
      let read := { read with positionals := read.positionals ++ [text] }
      if read.positionals.length = stop then some (read, rest)
      else readArguments? specs stop read none rest

/-- What the program is asked to do. -/
inductive Command where
  | demo (demo : Demo)
  | exec (query : String) (demo : Demo) (operationName variableText : Option String)
  | config (schema : Bool)

/-- The options of the program and its command. -/
structure Invocation where
  logLevel : String := "info"
  configPath : Option String := none
  command : Command

/-- Reads the arguments of a command: options, and a number of other arguments. -/
def readAll? (specs : List OptionSpec) (count : Nat) (arguments : List String) :
    Option Arguments := do
  let (read, _) ← readArguments? specs (arguments.length + 1) {} none arguments
  if read.positionals.length = count then some read else none

/-- Reads a command. -/
def readCommand? (name : String) (arguments : List String) : Option Command := do
  if name == "demo" then
    let read ← readAll? [] 1 arguments
    let demo ← Demo.ofName? (← read.positionals.head?)
    some (.demo demo)
  else if name == "exec" then
    let specs : List OptionSpec :=
      [{ name := "demo", words := ["demo"] },
        { name := "operation", words := ["operation-name"] },
        { name := "variables", words := ["variables"] }]
    let read ← readAll? specs 1 arguments
    let query ← read.positionals.head?
    let demo ← Demo.ofName? ((read.option? "demo").getD "notes")
    some (.exec query demo (read.option? "operation") (read.option? "variables"))
  else if name == "config" then
    let read ← readAll? [{ name := "schema", words := ["schema"], hasValue := false }] 0 arguments
    some (.config (read.option? "schema").isSome)
  else none

/-- Reads all arguments of the program; none if they are not used as they should be. -/
def Invocation.ofArguments? (arguments : List String) : Option Invocation := do
  let specs : List OptionSpec :=
    [{ name := "log", words := ["log", "log-level"] },
      { name := "config", words := ["config"], letters := ['c'] }]
  let (read, rest) ← readArguments? specs 1 {} none arguments
  match read.positionals with
  | [name] =>
    let command ← readCommand? name rest
    some { logLevel := (read.option? "log").getD "info", configPath := read.option? "config",
           command }
  | _ => none

end CommandLine

end GraphQL
