import GraphQL.Configuration.Basic
import GraphQL.Configuration.Yaml

/-!
# Reading configurations

`Configuration.ofText?` reads a configuration text. A text of white space only is the default
configuration. Every other text has to be a map, with known keys that are not repeated; what it
leaves out has its default.
-/

set_option autoImplicit false

namespace GraphQL

namespace Configuration

/-- The entries of a map whose keys are all known and distinct. -/
def entries? (known : List String) : Yaml → Option (List (String × Yaml))
  | .map entries =>
    let keys := entries.map Prod.fst
    if keys.all known.contains && (Schema.firstRepeated [] keys).isNone then some entries else none
  | _ => none

/-- The value under a key of a map. -/
def value? (entries : List (String × Yaml)) (key : String) : Option Yaml :=
  (entries.find? fun entry => entry.1 == key).map Prod.snd

/-- Reads a truth value. -/
def readBool? : Yaml → Option Bool
  | .plain "true" => some true
  | .plain "false" => some false
  | _ => none

/-- Reads digits in some base. -/
def readDigits? (base : Nat) (digits : List Char) : Option Nat :=
  let values := digits.mapM fun c => (Text.hexValue? c).filter (· < base)
  if digits.isEmpty then none
  else values.map fun values => values.foldl (fun n value => base * n + value) 0

/-- Reads a natural number of 64 bits: decimal without leading zeros, or hexadecimal, octal or
binary with a mark of the base; a plus sign may stand in front. -/
def readNat? : Yaml → Option Nat
  | .plain text =>
    let digits :=
      match text.toList with
      | '+' :: digits => digits
      | digits => digits
    let value :=
      match digits with
      | '0' :: 'x' :: digits => readDigits? 16 digits
      | '0' :: 'o' :: digits => readDigits? 8 digits
      | '0' :: 'b' :: digits => readDigits? 2 digits
      | '0' :: _ :: _ => none
      | digits => readDigits? 10 digits
    value.filter fun n => Decimal.fitsUnsigned n
  | _ => none

/-- Reads a duration or the absence of one. -/
def readTimeout? : Yaml → Option (Option Duration)
  | .plain text =>
    if text == "" || text == "~" || text == "null" then some none
    else (Duration.ofText? text).map some
  | .quoted text => (Duration.ofText? text).map some
  | .map _ => none

/-- Reads the value under a key with a reader, or takes the default if there is none. -/
def readOr? {α : Type} (entries : List (String × Yaml)) (key : String) (read : Yaml → Option α)
    (default : α) : Option α :=
  match value? entries key with
  | some value => read value
  | none => some default

/-- Reads the options of execution. -/
def readOptions? (value : Yaml) : Option Configuration := do
  let standard : Configuration := {}
  let entries ← entries? ["parallel_siblings", "resolver_timeout", "recursion_limit"] value
  let parallelSiblings ← readOr? entries "parallel_siblings" readBool? standard.parallelSiblings
  let resolverTimeout ← readOr? entries "resolver_timeout" readTimeout? standard.resolverTimeout
  let recursionLimit ← readOr? entries "recursion_limit" readNat? standard.recursionLimit
  some { parallelSiblings, resolverTimeout, recursionLimit }

/-- Reads a configuration text; none if it is not a configuration. -/
def ofText? (text : String) : Option Configuration :=
  if Text.isBlank text then some {}
  else do
    let entries ← entries? ["execution"] (← Yaml.parse? text)
    readOr? entries "execution" readOptions? {}

end Configuration

end GraphQL
