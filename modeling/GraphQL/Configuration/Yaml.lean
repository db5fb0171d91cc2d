/-!
# Configuration texts

The part of YAML that configurations are written in: maps of keys and values, by indentation or in
braces, with comments and with plain and quoted scalars. A text in braces may stand on several
lines. Lists, tags, anchors and scalars on several lines are not read.
-/

set_option autoImplicit false

namespace GraphQL

/-- A value of a configuration text. Whether a scalar is quoted decides what it may stand for. -/
inductive Yaml where
  | plain (text : String)
  | quoted (text : String)
  | map (entries : List (String × Yaml))
  deriving Inhabited, Repr

namespace Yaml

/-- The value that stands for nothing. -/
def empty : Yaml :=
  .plain ""

/-- Blanks inside a line. -/
def isBlank (c : Char) : Bool :=
  c == ' ' || c == '\t'

/-- Drops blanks in front of a text. -/
def trimLeft (text : List Char) : List Char :=
  text.dropWhile isBlank

/-- Drops blanks at the end of a text. -/
def trimRight (text : List Char) : List Char :=
  (text.reverse.dropWhile isBlank).reverse

section Scalars

/-- The character that an escape of one letter stands for. -/
def escape? (c : Char) : Option Char :=
  if c = '0' then some '\x00'
  else if c = 'a' then some '\x07'
  else if c = 'b' then some '\x08'
  else if c = 't' then some '\t'
  else if c = 'n' then some '\n'
  else if c = 'v' then some '\x0b'
  else if c = 'f' then some '\x0c'
  else if c = 'r' then some '\r'
  else if c = 'e' then some '\x1b'
  else if [' ', '"', '/', '\\'].contains c then some c
  else none

/-- Reads the rest of a scalar in double quotes, after the opening one. -/
def readDouble? : List Char → Option (List Char × List Char)
  | [] => none
  | '"' :: rest => some ([], rest)
  | '\\' :: c :: rest => do
    let c ← escape? c
    let (text, rest) ← readDouble? rest
    some (c :: text, rest)
  | c :: rest => (readDouble? rest).map fun (text, rest) => (c :: text, rest)

/-- Reads the rest of a scalar in single quotes, after the opening one; two quotes stand for one. -/
def readSingle? : List Char → Option (List Char × List Char)
  | [] => none
  | '\'' :: '\'' :: rest => (readSingle? rest).map fun (text, rest) => ('\'' :: text, rest)
  | '\'' :: rest => some ([], rest)
  | c :: rest => (readSingle? rest).map fun (text, rest) => (c :: text, rest)

/-- Reads a quoted scalar; none if no quote is in front. -/
def readQuoted? : List Char → Option (String × List Char)
  | '"' :: rest => (readDouble? rest).map fun (text, rest) => (String.ofList text, rest)
  | '\'' :: rest => (readSingle? rest).map fun (text, rest) => (String.ofList text, rest)
  | _ => none

/-- Characters that no plain scalar starts with. -/
def isIndicator (c : Char) : Bool :=
  ['[', ']', '\x7b', '\x7d', ',', '#', '&', '*', '!', '|', '>', '\'', '"', '%', '@',
    '\x60'].contains c

/-- Whether a text may be a plain scalar: it starts with no indicator, and a dash, a question mark
or a colon in front is part of a word. -/
def isPlainStart : List Char → Bool
  | [] => true
  | c :: rest =>
    if ['-', '?', ':'].contains c then
      match rest with
      | [] => false
      | d :: _ => !isBlank d
    else !isIndicator c

end Scalars

section Lines

/-- Cuts a comment off a line. A comment starts with a hash at the start of the line or after a
blank, outside quotes; `quote` is the quote that is open. -/
def cutComment (afterBlank : Bool) (quote : Option Char) : List Char → List Char
  | [] => []
  | c :: rest =>
    match quote with
    | some open_ =>
      if c == '\\' && open_ == '"' then
        match rest with
        | d :: rest => c :: d :: cutComment false quote rest
        | [] => [c]
      else c :: cutComment false (if c == open_ then none else quote) rest
    | none =>
      if c == '#' && afterBlank then []
      else
        let opens := (c == '"' || c == '\'') && (afterBlank || ['\x7b', ',', ':'].contains c)
        c :: cutComment (isBlank c) (if opens then some c else none) rest

/-- A line of a configuration text: its indentation and its content, which is not empty. -/
structure Line where
  indent : Nat
  content : List Char

/-- The lines of a text that have content, without comments. -/
def lines (text : String) : List Line :=
  (text.splitOn "\n").filterMap fun line =>
    let content := line.toList.filter (· != '\r')
    let content := trimRight (cutComment true none content)
    let indent := (content.takeWhile (· == ' ')).length
    match content.drop indent with
    | [] => none
    | content => some { indent, content }

end Lines

section Braces

/-- Drops white space between the parts of a map in braces. -/
def skip (text : List Char) : List Char :=
  text.dropWhile fun c => isBlank c || c == '\n'

/-- Splits a plain scalar off the front of a map's content: it ends at a comma, a bracket, a line
end, or a colon that ends a word. -/
def takePlain : List Char → List Char × List Char
  | [] => ([], [])
  | c :: rest =>
    let ends := [',', '\x7b', '\x7d', '[', ']', '\n'].contains c
      || (c == ':' && (rest.head?.all fun d => isBlank d || ['\n', ',', '\x7b', '\x7d'].contains d))
    if ends then ([], c :: rest)
    else
      let (text, rest) := takePlain rest
      (c :: text, rest)

/-- Reads a scalar inside braces. -/
def readScalar? (text : List Char) : Option (Yaml × List Char) :=
  match text with
  | '"' :: _ | '\'' :: _ => (readQuoted? text).map fun (s, rest) => (.quoted s, rest)
  | _ =>
    let (word, rest) := takePlain text
    let word := trimRight word
    if isPlainStart word then some (.plain (String.ofList word), rest) else none

/-- The text of a scalar. -/
def scalar? : Yaml → Option String
  | .plain text | .quoted text => some text
  | .map _ => none

/-- Reads the entries of a map in braces, after the opening one. The fuel bounds the steps. -/
def readEntries? : Nat → List Char → Option (List (String × Yaml) × List Char)
  | 0, _ => none
  | fuel + 1, text =>
    match skip text with
    | '\x7d' :: rest => some ([], rest)
    | text => do
      let (key, rest) ← readScalar? text
      let key ← key.scalar?
      let (value, rest) ←
        match skip rest with
        | ':' :: rest =>
          match skip rest with
          | '\x7b' :: rest =>
            (readEntries? fuel rest).map fun (entries, rest) => (.map entries, rest)
          | rest => readScalar? rest
        | rest => some (empty, rest)
      match skip rest with
      | ',' :: rest =>
        let (entries, rest) ← readEntries? fuel rest
        some ((key, value) :: entries, rest)
      | '\x7d' :: rest => some ([(key, value)], rest)
      | _ => none

/-- Reads a value that stands on its own: a map in braces, or a scalar. -/
def readInline? (text : List Char) : Option Yaml :=
  match text with
  | '\x7b' :: rest =>
    match readEntries? (rest.length + 1) rest with
    | some (entries, rest) => if (skip rest).isEmpty then some (.map entries) else none
    | none => none
  | '"' :: _ | '\'' :: _ =>
    match readQuoted? text with
    | some (s, rest) => if (skip rest).isEmpty then some (.quoted s) else none
    | none => none
  | _ => if isPlainStart text then some (.plain (String.ofList text)) else none

end Braces

section Blocks

/-- Splits a line at the colon that ends its key. -/
def splitKey? : List Char → Option (List Char × List Char)
  | [] => none
  | c :: rest =>
    if c == ':' && rest.head?.all isBlank then some ([], trimLeft rest)
    else (splitKey? rest).map fun (key, value) => (c :: key, value)

/-- The key of a line and what stands after it. -/
def entry? (content : List Char) : Option (String × List Char) :=
  match content with
  | '"' :: _ | '\'' :: _ => do
    let (key, rest) ← readQuoted? content
    match trimLeft rest with
    | ':' :: rest => if rest.head?.all isBlank then some (key, trimLeft rest) else none
    | _ => none
  | '\x7b' :: _ => none
  | _ => do
    let (key, rest) ← splitKey? content
    if isPlainStart key then some (String.ofList (trimRight key), rest) else none

/-- Reads the entries of a map at some indentation from the lines in front. The fuel bounds the
steps. -/
def readBlock? : Nat → Nat → List Line → Option (List (String × Yaml) × List Line)
  | 0, _, _ => none
  | _ + 1, _, [] => some ([], [])
  | fuel + 1, indent, line :: rest =>
    if line.indent < indent then some ([], line :: rest)
    else if indent < line.indent then none
    else do
      let (key, value) ← entry? line.content
      let (value, rest) ←
        match value, rest with
        | [], next :: _ =>
          if indent < next.indent then
            match entry? next.content with
            | some _ => (readBlock? fuel next.indent rest).map fun (entries, rest) =>
              (.map entries, rest)
            | none => (readInline? next.content).map (·, rest.drop 1)
          else some (empty, rest)
        | [], [] => some (empty, [])
        | value, rest => (readInline? value).map (·, rest)
      let (entries, rest) ← readBlock? fuel indent rest
      some ((key, value) :: entries, rest)

/-- Reads a text as one value; none if it is not of the part that is read. -/
def parse? (text : String) : Option Yaml :=
  let lines := lines text
  let lines :=
    match lines with
    | line :: rest => if line.indent == 0 && line.content == ['-', '-', '-'] then rest else lines
    | [] => []
  match lines with
  | [] => some empty
  | line :: _ =>
    match entry? line.content with
    | some _ =>
      match readBlock? (lines.length + 1) line.indent lines with
      | some (entries, []) => some (.map entries)
      | _ => none
    | none =>
      readInline? (List.intercalate ['\n'] (lines.map (·.content)))

end Blocks

end Yaml

end GraphQL
