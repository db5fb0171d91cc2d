import GraphQL.Text.Escape

/-!
# Tokens of a document

The lexical grammar of GraphQL documents. `Token.scan?` splits a text into tokens and drops what
the grammar ignores: blanks, line ends, commas, byte order marks and comments. Strings are given
by their values, numbers by their texts.
-/

set_option autoImplicit false

namespace GraphQL

/-- A token of a document. -/
inductive Token where
  | punctuator (c : Char)
  | spread
  | name (text : String)
  | int (text : String)
  | float (text : String)
  | string (value : String)
  deriving DecidableEq, Repr

namespace Token

/-- Characters that a name starts with. -/
def isNameStart (c : Char) : Bool :=
  c.isAlpha || c == '_'

/-- Characters that a name goes on with. -/
def isNameContinue (c : Char) : Bool :=
  isNameStart c || c.isDigit

/-- Characters that are ignored between tokens. -/
def isIgnored (c : Char) : Bool :=
  c == ' ' || c == '\t' || c == '\n' || c == '\r' || c == ',' || c == '\ufeff'

/-- Characters that end a line. -/
def isLineEnd (c : Char) : Bool :=
  c == '\n' || c == '\r'

/-- Punctuators of one character. -/
def isPunctuator (c : Char) : Bool :=
  ['!', '$', '&', '(', ')', ':', '=', '@', '[', ']', '\x7b', '|', '\x7d'].contains c

section Number

/-- Splits off an optional sign. -/
def takeSign (signs : List Char) : List Char → List Char × List Char
  | c :: rest => if signs.contains c then ([c], rest) else ([], c :: rest)
  | [] => ([], [])

/-- Splits off the digits of an integer part: a single zero, or digits that start with another. -/
def takeWhole? : List Char → Option (List Char × List Char)
  | '0' :: rest => some (['0'], rest)
  | text =>
    let digits := text.takeWhile Char.isDigit
    if digits.isEmpty then none else some (digits, text.dropWhile Char.isDigit)

/-- Splits off a fraction, if there is one. -/
def takeFraction? : List Char → Option (List Char × List Char)
  | '.' :: rest =>
    let digits := rest.takeWhile Char.isDigit
    if digits.isEmpty then none else some ('.' :: digits, rest.dropWhile Char.isDigit)
  | text => some ([], text)

/-- Splits off an exponent, if there is one. -/
def takeExponent? : List Char → Option (List Char × List Char)
  | c :: rest =>
    if c == 'e' || c == 'E' then
      let (sign, rest) := takeSign ['+', '-'] rest
      let digits := rest.takeWhile Char.isDigit
      if digits.isEmpty then none else some (c :: sign ++ digits, rest.dropWhile Char.isDigit)
    else some ([], c :: rest)
  | [] => some ([], [])

/-- Whether a number may end before a text: no digit, name or point follows it directly. -/
def endsNumber : List Char → Bool
  | c :: _ => !(isNameContinue c || c == '.')
  | [] => true

/-- Splits off a number. -/
def takeNumber? (text : List Char) : Option (Token × List Char) := do
  let (sign, rest) := takeSign ['-'] text
  let (whole, rest) ← takeWhole? rest
  let (fraction, rest) ← takeFraction? rest
  let (exponent, rest) ← takeExponent? rest
  if endsNumber rest then
    let spelling := String.ofList (sign ++ whole ++ fraction ++ exponent)
    if fraction.isEmpty && exponent.isEmpty then some (.int spelling, rest)
    else some (.float spelling, rest)
  else none

end Number

section Quotation

/-- Reads the rest of an escape in braces: at least one hexadecimal digit, then the brace. -/
def readBraced? (text : List Char) : Option (Char × List Char) :=
  let isHex := fun c => (Text.hexValue? c).isSome
  let digits := text.takeWhile isHex
  match text.dropWhile isHex with
  | '\x7d' :: rest =>
    if digits.isEmpty then none
    else
      let code := digits.foldl (fun n c => 16 * n + (Text.hexValue? c).getD 0) 0
      (Text.scalar? code).map (·, rest)
  | _ => none

/-- Reads the rest of an escape, after its backslash. -/
def readEscape? : List Char → Option (Char × List Char)
  | 'u' :: '\x7b' :: rest => readBraced? rest
  | 'u' :: rest => Text.readUnits? rest
  | c :: rest => (Text.letterEscape? c).map (·, rest)
  | [] => none

/-- Reads the rest of a string on one line, after its opening quote; `before` holds the characters
read so far, last one first. The fuel bounds the characters to read. -/
def readLine? : Nat → List Char → List Char → Option (String × List Char)
  | 0, _, _ => none
  | _ + 1, _, [] => none
  | fuel + 1, before, c :: rest =>
    if c = '"' then some (String.ofList before.reverse, rest)
    else if isLineEnd c then none
    else if c = '\\' then
      match readEscape? rest with
      | some (c, rest) => readLine? fuel (c :: before) rest
      | none => none
    else readLine? fuel (c :: before) rest

/-- Reads the rest of a block string, after its opening quotes, without its layout. Three quotes
end it unless a backslash stands before them. -/
def readBlock? : List Char → List Char → Option (List Char × List Char)
  | before, '"' :: '"' :: '"' :: rest => some (before.reverse, rest)
  | before, '\\' :: '"' :: '"' :: '"' :: rest => readBlock? ('"' :: '"' :: '"' :: before) rest
  | before, c :: rest => readBlock? (c :: before) rest
  | _, [] => none

/-- Splits a text into lines. A line ends with a line feed, a carriage return, or both. -/
def splitLines : List Char → List (List Char)
  | [] => [[]]
  | '\r' :: '\n' :: rest => [] :: splitLines rest
  | c :: rest =>
    if isLineEnd c then [] :: splitLines rest
    else
      match splitLines rest with
      | [] => [[c]]
      | line :: lines => (c :: line) :: lines

/-- Blanks inside a line of a block string. -/
def isBlank (c : Char) : Bool :=
  c == ' ' || c == '\t'

/-- The indentation that all lines after the first share; lines of blanks do not count. -/
def sharedIndent (lines : List (List Char)) : Nat :=
  ((lines.drop 1).filter fun line => !line.all isBlank).map
    (fun line => (line.takeWhile isBlank).length) |>.min? |>.getD 0

/-- The value of a block string: the shared indentation is dropped from all lines but the first,
and so are lines of blanks at both ends. -/
def blockValue (text : List Char) : String :=
  let lines := splitLines text
  let indent := sharedIndent lines
  let lines := lines.take 1 ++ (lines.drop 1).map fun line => line.drop indent
  let isBlankLine := fun line : List Char => line.all isBlank
  let lines := (lines.dropWhile isBlankLine).reverse.dropWhile isBlankLine |>.reverse
  "\n".intercalate (lines.map String.ofList)

/-- Reads the rest of a string, after its first quote. -/
def readString? : List Char → Option (String × List Char)
  | '"' :: '"' :: rest => (readBlock? [] rest).map fun (text, rest) => (blockValue text, rest)
  | rest => readLine? (rest.length + 1) [] rest

end Quotation

/-- Splits off the token in front of a text that starts with no ignored character. -/
def take? : List Char → Option (Token × List Char)
  | [] => none
  | '.' :: '.' :: '.' :: rest => some (.spread, rest)
  | '"' :: rest => (readString? rest).map fun (value, rest) => (.string value, rest)
  | c :: rest =>
    if isPunctuator c then some (.punctuator c, rest)
    else if isNameStart c then
      some (.name (String.ofList (c :: rest.takeWhile isNameContinue)),
        rest.dropWhile isNameContinue)
    else if c.isDigit || c == '-' then takeNumber? (c :: rest)
    else none

/-- Splits a text into tokens. The fuel bounds the steps; each of them takes a character. -/
def scanSteps? : Nat → List Char → Option (List Token)
  | 0, _ => none
  | _ + 1, [] => some []
  | fuel + 1, c :: rest =>
    if isIgnored c then scanSteps? fuel rest
    else if c = '#' then scanSteps? fuel (rest.dropWhile fun c => !isLineEnd c)
    else
      match take? (c :: rest) with
      | some (token, rest) => (scanSteps? fuel rest).map (token :: ·)
      | none => none

/-- Splits a text into tokens; none if some part of it is no token. -/
def scan? (text : String) : Option (List Token) :=
  scanSteps? (text.length + 1) text.toList

end Token

end GraphQL
