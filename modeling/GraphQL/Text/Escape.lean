/-!
# Escapes by code

JSON texts and GraphQL documents can both write a character by its code in hexadecimal. The form
with four digits gives one unit of 16 bits: a character beyond those needs two, a leading and a
trailing surrogate, and neither may stand alone.
-/

set_option autoImplicit false

namespace GraphQL

namespace Text

/-- The value of a hexadecimal digit. -/
def hexValue? (c : Char) : Option Nat :=
  if c.isDigit then some (c.toNat - '0'.toNat)
  else if 'a' ≤ c ∧ c ≤ 'f' then some (c.toNat - 'a'.toNat + 10)
  else if 'A' ≤ c ∧ c ≤ 'F' then some (c.toNat - 'A'.toNat + 10)
  else none

/-- Whether a number is the code of a leading surrogate. -/
def isLead (code : Nat) : Bool :=
  0xD800 ≤ code && code < 0xDC00

/-- Whether a number is the code of a trailing surrogate. -/
def isTrail (code : Nat) : Bool :=
  0xDC00 ≤ code && code < 0xE000

/-- The character of a code that is neither a surrogate nor beyond the last one. -/
def scalar? (code : Nat) : Option Char :=
  if isLead code || isTrail code || 0x10FFFF < code then none else some (Char.ofNat code)

/-- Reads four hexadecimal digits. -/
def readUnit? : List Char → Option (Nat × List Char)
  | a :: b :: c :: d :: rest =>
    match hexValue? a, hexValue? b, hexValue? c, hexValue? d with
    | some a, some b, some c, some d => some (((a * 16 + b) * 16 + c) * 16 + d, rest)
    | _, _, _, _ => none
  | _ => none

/-- Reads the rest of an escape of four digits, after its `u`. -/
def readUnits? (text : List Char) : Option (Char × List Char) :=
  match readUnit? text with
  | none => none
  | some (code, rest) =>
    if isLead code then
      match rest with
      | '\\' :: 'u' :: rest =>
        match readUnit? rest with
        | some (trail, rest) =>
          if isTrail trail then
            (scalar? (0x10000 + (code - 0xD800) * 0x400 + (trail - 0xDC00))).map (·, rest)
          else none
        | none => none
      | _ => none
    else (scalar? code).map (·, rest)

/-- The character that an escape of one letter stands for. -/
def letterEscape? (c : Char) : Option Char :=
  if c = '"' then some '"'
  else if c = '\\' then some '\\'
  else if c = '/' then some '/'
  else if c = 'b' then some '\x08'
  else if c = 'f' then some '\x0c'
  else if c = 'n' then some '\n'
  else if c = 'r' then some '\r'
  else if c = 't' then some '\t'
  else none

end Text

end GraphQL
