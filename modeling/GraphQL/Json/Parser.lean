import GraphQL.Json.Basic
import GraphQL.Text.Escape

/-!
# Reading JSON text

`Json.parse?` reads a whole text as one JSON value. A key that is given twice in an object keeps
its first place and takes the last value. Numbers written without a fraction or an exponent that
fit in 64 bits, signed or unsigned, are integers; every other number is the nearest double, and a
number beyond the doubles is no JSON here. Arrays and objects nest at most `Json.maxDepth` deep.
-/

set_option autoImplicit false

namespace GraphQL

namespace Json

/-- The deepest nesting of arrays and objects that is read. -/
def maxDepth : Nat := 127

/-- What a reader takes from the front of a text: a result and the text that is left. -/
abbrev Read (α : Type) := Option (α × List Char)

/-- Drops the blanks in front of a text. -/
def skipBlanks (text : List Char) : List Char :=
  text.dropWhile fun c => c == ' ' || c == '\n' || c == '\r' || c == '\t'

/-- Reads the rest of a string, after its opening quote; `before` holds the characters read so
far, last one first. The fuel bounds the characters to read. -/
def readString? : Nat → List Char → List Char → Read String
  | 0, _, _ => none
  | _ + 1, _, [] => none
  | fuel + 1, before, c :: rest =>
    if c = '"' then some (String.ofList before.reverse, rest)
    else if c = '\\' then
      match rest with
      | 'u' :: rest =>
        match Text.readUnits? rest with
        | some (c, rest) => readString? fuel (c :: before) rest
        | none => none
      | c :: rest =>
        match Text.letterEscape? c with
        | some c => readString? fuel (c :: before) rest
        | none => none
      | [] => none
    else if c.toNat < 32 then none
    else readString? fuel (c :: before) rest

/-- The number that a numeral denotes: an integer if it is written as one and fits in 64 bits. -/
def numberOfText? (text : String) : Option Number :=
  match Decimal.intOfText? text with
  | some i =>
    if (Decimal.fitsSigned i || Decimal.fitsUnsigned i) && !(i == 0 && text.front == '-') then
      some (.int i)
    else ((Decimal.ofText? text).bind Double.ofDecimal?).map .float
  | none => ((Decimal.ofText? text).bind Double.ofDecimal?).map .float

/-- Whether the integer part of a numeral has a leading zero that it may not have. -/
def hasLeadingZero (text : List Char) : Bool :=
  let digits :=
    match text with
    | '-' :: digits => digits
    | digits => digits
  match digits with
  | '0' :: c :: _ => c.isDigit
  | _ => false

/-- Reads a number: the longest run of characters that numerals are made of. -/
def readNumber? (text : List Char) : Read Number :=
  let isPart := fun c : Char => c.isDigit || ['-', '+', '.', 'e', 'E'].contains c
  let numeral := text.takeWhile isPart
  if hasLeadingZero numeral then none
  else (numberOfText? (String.ofList numeral)).map fun n => (n, text.dropWhile isPart)

/-- Drops a word from the front of a text. -/
def dropWord? (word : String) (text : List Char) : Option (List Char) :=
  if word.toList.isPrefixOf text then some (text.drop word.length) else none

mutual

/-- Reads a value that nests at most `depth` deep. The fuel bounds the steps of reading. -/
def readValue? : Nat → Nat → List Char → Read Json
  | 0, _, _ => none
  | fuel + 1, depth, text =>
    match skipBlanks text with
    | '"' :: rest => (readString? (rest.length + 1) [] rest).map fun (s, rest) => (.string s, rest)
    | '[' :: rest =>
      if depth = 0 then none
      else
        match skipBlanks rest with
        | ']' :: rest => some (.array [], rest)
        | rest => (readItems? fuel (depth - 1) rest).map fun (items, rest) => (.array items, rest)
    | '{' :: rest =>
      if depth = 0 then none
      else
        match skipBlanks rest with
        | '}' :: rest => some (.object [], rest)
        | rest =>
          (readMembers? fuel (depth - 1) [] rest).map fun (members, rest) =>
            (.object members, rest)
    | 't' :: rest => (dropWord? "rue" rest).map fun rest => (.bool true, rest)
    | 'f' :: rest => (dropWord? "alse" rest).map fun rest => (.bool false, rest)
    | 'n' :: rest => (dropWord? "ull" rest).map fun rest => (.null, rest)
    | rest => (readNumber? rest).map fun (n, rest) => (.number n, rest)

/-- Reads the items of an array up to its closing bracket; there is at least one. -/
def readItems? : Nat → Nat → List Char → Read (List Json)
  | 0, _, _ => none
  | fuel + 1, depth, text =>
    match readValue? fuel depth text with
    | none => none
    | some (item, rest) =>
      match skipBlanks rest with
      | ',' :: rest => (readItems? fuel depth rest).map fun (items, rest) => (item :: items, rest)
      | ']' :: rest => some ([item], rest)
      | _ => none

/-- Reads the members of an object up to its closing brace and writes them into the object read
so far; there is at least one. -/
def readMembers? : Nat → Nat → Object → List Char → Read Object
  | 0, _, _, _ => none
  | fuel + 1, depth, before, text =>
    match skipBlanks text with
    | '"' :: rest =>
      match readString? (rest.length + 1) [] rest with
      | none => none
      | some (key, rest) =>
        match skipBlanks rest with
        | ':' :: rest =>
          match readValue? fuel depth rest with
          | none => none
          | some (value, rest) =>
            let members := before.insert key value
            match skipBlanks rest with
            | ',' :: rest => readMembers? fuel depth members rest
            | '}' :: rest => some (members, rest)
            | _ => none
        | _ => none
    | _ => none

end

/-- Reads a text as one JSON value. Every step of reading takes a character, so twice the length
of the text is fuel enough. -/
def parse? (text : String) : Option Json :=
  let chars := text.toList
  match readValue? (2 * chars.length + 2) maxDepth chars with
  | some (value, rest) => if (skipBlanks rest).isEmpty then some value else none
  | none => none

end Json

end GraphQL
