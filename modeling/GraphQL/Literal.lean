import GraphQL.Json.Basic
import GraphQL.Text.Quoted

/-!
# Literals

A value as a document writes it, before it is read at a type. Numbers keep their text, because
whether `12` is an integer, a float or an identifier depends on the type that is asked for.
-/

set_option autoImplicit false

namespace GraphQL

/-- A value written in a document. -/
inductive Literal where
  | null
  | var (name : String)
  | bool (b : Bool)
  | int (text : String)
  | float (text : String)
  | string (s : String)
  | enum (symbol : String)
  | list (items : List Literal)
  | object (fields : List (String × Literal))
  deriving Inhabited, Repr

namespace Literal

/-- A numeral as JSON: an integer if it is written as one and fits in 64 bits with a sign, else
the nearest double. A text that is no numeral gives nothing. -/
def numberJson? (text : String) : Option Json :=
  match (Decimal.intOfText? text).filter Decimal.fitsSigned with
  | some i => some (.ofInt i)
  | none => (Decimal.ofText? text).map .ofDecimal

/-- The floating-point number of a numeral, as JSON. -/
def floatJson? (text : String) : Option Json :=
  (Decimal.ofText? text).map .ofDecimal

mutual

/-- The JSON form of a literal; none if it holds a variable. Enum symbols become strings, and of
fields with one name the last value counts. -/
def toJson? : Literal → Option Json
  | null => some .null
  | var _ => none
  | bool b => some (.bool b)
  | int text => numberJson? text
  | float text => floatJson? text
  | string s => some (.string s)
  | enum symbol => some (.string symbol)
  | list items => (itemsToJson? items).map .array
  | object fields => (fieldsToJson? fields).map fun members => .object (Json.Object.ofList members)

/-- The JSON forms of the items of a list. -/
def itemsToJson? : List Literal → Option (List Json)
  | [] => some []
  | item :: rest => do
    let item ← toJson? item
    let rest ← itemsToJson? rest
    some (item :: rest)

/-- The JSON forms of the fields of an object. -/
def fieldsToJson? : List (String × Literal) → Option (List (String × Json))
  | [] => some []
  | (name, value) :: rest => do
    let value ← toJson? value
    let rest ← fieldsToJson? rest
    some ((name, value) :: rest)

end

/-- How messages show a literal. -/
def describe : Literal → String
  | null => "null"
  | var name => "$" ++ name
  | bool b => if b then "true" else "false"
  | int text | float text => text
  | string s => Text.quoted s
  | enum symbol => symbol
  | list _ => "a list"
  | object _ => "an object"

end Literal

end GraphQL
