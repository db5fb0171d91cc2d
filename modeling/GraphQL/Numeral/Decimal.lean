/-!
# Decimal numerals

A decimal numeral is an integer coefficient, a power of ten and a sign. This file reads the
numerals that GraphQL documents and JSON texts share: an optional minus sign, an integer part, an
optional fraction and an optional exponent. Nothing is rounded here; `GraphQL.Double.ofDecimal?`
does that.
-/

set_option autoImplicit false

namespace GraphQL

/-- The number `± coefficient · 10 ^ exponent`, exactly as it was written. -/
structure Decimal where
  negative : Bool
  coefficient : Nat
  exponent : Int
  deriving DecidableEq, Repr

namespace Decimal

/-- The value of an ASCII digit. -/
def digitValue (c : Char) : Nat :=
  c.toNat - '0'.toNat

/-- The natural number that a run of digits denotes, after the digits that were read before. -/
def natOfDigits (before : Nat) (digits : List Char) : Nat :=
  digits.foldl (fun n c => 10 * n + digitValue c) before

/-- Splits a text after its leading digits. -/
def spanDigits (text : List Char) : List Char × List Char :=
  (text.takeWhile Char.isDigit, text.dropWhile Char.isDigit)

/-- Reads the exponent of a numeral, which is the rest of its text. -/
def readExponent? : List Char → Option Int
  | [] => some 0
  | mark :: rest =>
    if mark == 'e' || mark == 'E' then
      let (negative, digits) :=
        match rest with
        | '-' :: digits => (true, digits)
        | '+' :: digits => (false, digits)
        | digits => (false, digits)
      if digits.isEmpty || !digits.all Char.isDigit then none
      else
        let n : Int := natOfDigits 0 digits
        some (if negative then -n else n)
    else none

/-- Reads a numeral without its sign. -/
def readMagnitude? (negative : Bool) (text : List Char) : Option Decimal :=
  let (whole, rest) := spanDigits text
  if whole.isEmpty then none
  else
    match rest with
    | '.' :: rest =>
      let (fraction, rest) := spanDigits rest
      if fraction.isEmpty then none
      else (readExponent? rest).map fun e =>
        { negative, coefficient := natOfDigits (natOfDigits 0 whole) fraction,
          exponent := e - fraction.length }
    | rest => (readExponent? rest).map fun e =>
        { negative, coefficient := natOfDigits 0 whole, exponent := e }

/-- Reads a numeral; `none` if the text is not one. -/
def ofText? (text : String) : Option Decimal :=
  match text.toList with
  | '-' :: rest => readMagnitude? true rest
  | rest => readMagnitude? false rest

/-- Reads a text of digits with an optional minus sign as an integer. -/
def intOfText? (text : String) : Option Int :=
  match text.toList with
  | '-' :: digits =>
    if digits.isEmpty || !digits.all Char.isDigit then none
    else some (-(natOfDigits 0 digits : Int))
  | digits =>
    if digits.isEmpty || !digits.all Char.isDigit then none else some (natOfDigits 0 digits)

/-- Whether an integer fits in 64 bits with a sign. -/
def fitsSigned (i : Int) : Bool :=
  -9223372036854775808 ≤ i && i ≤ 9223372036854775807

/-- Whether an integer fits in 64 bits without a sign. -/
def fitsUnsigned (i : Int) : Bool :=
  0 ≤ i && i ≤ 18446744073709551615

/-- The number of decimal digits of a natural number; zero has one. -/
def digitCount (n : Nat) : Nat :=
  (Nat.toDigits 10 n).length

end Decimal

end GraphQL
