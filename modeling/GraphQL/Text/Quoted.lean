import GraphQL.Text.Classes

/-!
# Quoted text in messages

The form in which messages and descriptions show a string: in double quotes, on one line, with
every character readable. A character that cannot be seen, or that would join the one before it, is
written as its code point.
-/

set_option autoImplicit false

namespace GraphQL

namespace Text

/-- A character by its code point, in lower-case hexadecimal without padding. -/
def escapeCodePoint (c : Char) : List Char :=
  '\\' :: 'u' :: '\x7b' :: Nat.toDigits 16 c.toNat ++ ['\x7d']

/-- A character inside a quoted text. -/
def quoteChar (c : Char) : List Char :=
  if c = '"' then ['\\', '"']
  else if c = '\\' then ['\\', '\\']
  else if c = '\n' then ['\\', 'n']
  else if c = '\r' then ['\\', 'r']
  else if c = '\t' then ['\\', 't']
  else if c = '\x00' then ['\\', '0']
  else if isGraphemeExtend c || isUnprintable c then escapeCodePoint c
  else [c]

/-- A string as messages show it. -/
def quoted (s : String) : String :=
  String.ofList ('"' :: s.toList.flatMap quoteChar ++ ['"'])

/-- A list of strings as descriptions show it. -/
def quotedList (items : List String) : String :=
  "[" ++ ", ".intercalate (items.map quoted) ++ "]"

end Text

end GraphQL
