import GraphQL.Json.Basic
import GraphQL.Numeral.Shortest

/-!
# JSON text

The two written forms of a JSON value: `Json.compact` on one line without blanks, and `Json.pretty`
with one member or item a line and two blanks for each level.
-/

set_option autoImplicit false

namespace GraphQL

namespace Json

/-- Floating-point numbers are written without an exponent from `10 ^ (-5)` to below `10 ^ 16`. -/
def floatLayout : Decimal.Layout := ⟨-5, 15⟩

/-- The text of a number: an integer in decimal, any other number as its shortest decimal. -/
def Number.render : Number → String
  | .int i => toString i
  | .float d => d.shortest.render floatLayout

/-- A hexadecimal digit, in lower case. -/
def hexDigit (n : Nat) : Char :=
  Nat.digitChar (n % 16)

/-- A character of a string. Only the quote, the backslash and the control characters up to U+001F
are escaped. -/
def escapeChar (c : Char) : List Char :=
  if c = '"' then ['\\', '"']
  else if c = '\\' then ['\\', '\\']
  else if c = '\n' then ['\\', 'n']
  else if c = '\r' then ['\\', 'r']
  else if c = '\t' then ['\\', 't']
  else if c = '\x08' then ['\\', 'b']
  else if c = '\x0c' then ['\\', 'f']
  else if c.toNat < 32 then
    ['\\', 'u', '0', '0', hexDigit (c.toNat / 16), hexDigit c.toNat]
  else [c]

/-- The text of a string, in quotes. -/
def renderString (s : String) : String :=
  String.ofList ('"' :: s.toList.flatMap escapeChar ++ ['"'])

mutual

/-- The text of a value on one line, without blanks. -/
def compact : Json → String
  | .null => "null"
  | .bool b => if b then "true" else "false"
  | .number n => n.render
  | .string s => renderString s
  | .array items => "[" ++ ",".intercalate (compactItems items) ++ "]"
  | .object members => "\x7b" ++ ",".intercalate (compactMembers members) ++ "\x7d"

/-- The texts of the items of an array. -/
def compactItems : List Json → List String
  | [] => []
  | item :: rest => item.compact :: compactItems rest

/-- The texts of the members of an object. -/
def compactMembers : List (String × Json) → List String
  | [] => []
  | (key, value) :: rest => (renderString key ++ ":" ++ value.compact) :: compactMembers rest

end

/-- The start of a line at some level. -/
def newLine (level : Nat) : String :=
  String.ofList ('\n' :: List.replicate (2 * level) ' ')

/-- Parts in brackets, each on a line of its own; an empty list of parts stays on one line. -/
def bracketed (level : Nat) (left right : String) (parts : List String) : String :=
  if parts.isEmpty then left ++ right
  else
    let separator := "," ++ newLine (level + 1)
    left ++ newLine (level + 1) ++ separator.intercalate parts ++ newLine level ++ right

mutual

/-- The text of a value at some level of an indented document. -/
def prettyAt (level : Nat) : Json → String
  | .array items => bracketed level "[" "]" (prettyItems (level + 1) items)
  | .object members => bracketed level "\x7b" "\x7d" (prettyMembers (level + 1) members)
  | .null => "null"
  | .bool b => if b then "true" else "false"
  | .number n => n.render
  | .string s => renderString s

/-- The texts of the items of an array at some level. -/
def prettyItems (level : Nat) : List Json → List String
  | [] => []
  | item :: rest => item.prettyAt level :: prettyItems level rest

/-- The texts of the members of an object at some level. -/
def prettyMembers (level : Nat) : List (String × Json) → List String
  | [] => []
  | (key, value) :: rest =>
    (renderString key ++ ": " ++ value.prettyAt level) :: prettyMembers level rest

end

/-- The text of a value as an indented document. -/
def pretty (value : Json) : String :=
  value.prettyAt 0

end Json

end GraphQL
