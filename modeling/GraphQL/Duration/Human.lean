import GraphQL.Duration.Basic
import GraphQL.Text.Blank

/-!
# Durations as people write them

A duration is written as numbers with units, as in `1h 30m` or `2 minutes`; the parts add up. White
space may stand around and inside the numbers, and ends a unit. Reading is limited to counts of 64
bits: a number, a number of seconds or a sum beyond them is refused. Writing gives the largest
units first and leaves out what is zero.
-/

set_option autoImplicit false

namespace GraphQL

namespace Duration

/-- A unit of time: whole seconds, or a fraction of a second in nanoseconds. -/
inductive Scale where
  | seconds (count : Nat)
  | nanoseconds (count : Nat)

/-- The units, with all their names. -/
def units : List (List String × Scale) :=
  [(["ns", "nsec", "nanos"], .nanoseconds 1),
    (["us", "usec", "µs"], .nanoseconds 1000),
    (["ms", "msec", "millis"], .nanoseconds 1000000),
    (["s", "sec", "secs", "second", "seconds"], .seconds 1),
    (["m", "min", "mins", "minute", "minutes"], .seconds 60),
    (["h", "hr", "hrs", "hour", "hours"], .seconds 3600),
    (["d", "day", "days"], .seconds 86400),
    (["w", "wk", "wks", "week", "weeks"], .seconds 604800),
    (["M", "month", "months"], .seconds 2630016),
    (["y", "yr", "yrs", "year", "years"], .seconds 31557600)]

/-- A number that fits in 64 bits. -/
def fit? (n : Nat) : Option Nat :=
  if n < 18446744073709551616 then some n else none

/-- A count of a unit added to whole seconds and nanoseconds. -/
def addUnits? (seconds nanoseconds count : Nat) : Scale → Option (Nat × Nat)
  | .seconds size => do
    let more ← fit? (count * size)
    let seconds ← fit? (seconds + more)
    some (seconds, nanoseconds)
  | .nanoseconds size => do
    let more ← fit? (count * size)
    let total ← fit? (nanoseconds + more)
    let seconds ← fit? (seconds + total / 1000000000)
    some (seconds, total % 1000000000)

/-- Whether a character may stand in the name of a unit. -/
def isUnitChar (c : Char) : Bool :=
  c.isAlpha || c == 'µ'

/-- Reads the parts of a duration and adds them to whole seconds and nanoseconds. A part is a run
of digits and white space that starts with a digit, then the name of a unit. The fuel bounds the
number of parts. -/
def readParts? : Nat → Nat → Nat → List Char → Option (Nat × Nat)
  | 0, _, _, _ => none
  | fuel + 1, seconds, nanoseconds, text =>
    match text.dropWhile Text.isWhiteSpace with
    | [] => some (seconds, nanoseconds)
    | text => do
      let isNumberChar := fun c => Char.isDigit c || Text.isWhiteSpace c
      let digits := (text.takeWhile isNumberChar).filter Char.isDigit
      let rest := text.dropWhile isNumberChar
      if digits.isEmpty then none
      else
        let count ← fit? (digits.foldl (fun n c => 10 * n + (c.toNat - '0'.toNat)) 0)
        let name := String.ofList (rest.takeWhile isUnitChar)
        let (_, scale) ← units.find? fun unit => unit.1.contains name
        let (seconds, nanoseconds) ← addUnits? seconds nanoseconds count scale
        readParts? fuel seconds nanoseconds (rest.dropWhile isUnitChar)

/-- Reads a duration; none if the text has no part, or a part that is none. -/
def ofText? (text : String) : Option Duration :=
  if Text.isBlank text then none
  else
    (readParts? (text.length + 1) 0 0 text.toList).map fun (seconds, nanoseconds) =>
      ⟨seconds * 1000000000 + nanoseconds⟩

/-- A count with a unit whose name has a plural. -/
def countOf (n : Nat) (unit : String) : String :=
  if n == 1 then s!"{n}{unit}" else s!"{n}{unit}s"

/-- The text of a duration as a person would write it. -/
def toText (d : Duration) : String :=
  let year := 31557600
  let month := 2630016
  let days := d.seconds % year % month
  let parts : List (Nat × (Nat → String)) :=
    [(d.seconds / year, (countOf · "year")),
      (d.seconds % year / month, (countOf · "month")),
      (days / 86400, (countOf · "day")),
      (days % 86400 / 3600, fun n => s!"{n}h"),
      (days % 3600 / 60, fun n => s!"{n}m"),
      (days % 60, fun n => s!"{n}s"),
      (d.subsecond / 1000000, fun n => s!"{n}ms"),
      (d.subsecond / 1000 % 1000, fun n => s!"{n}us"),
      (d.subsecond % 1000, fun n => s!"{n}ns")]
  match parts.filter fun part => part.1 != 0 with
  | [] => "0s"
  | parts => " ".intercalate (parts.map fun part => part.2 part.1)

end Duration

end GraphQL
