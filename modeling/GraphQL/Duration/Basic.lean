/-!
# Durations

Spans of time in nanoseconds, and the form in which messages show them: a decimal number of the
largest unit among seconds, milliseconds, microseconds and nanoseconds that is not above the span.
-/

set_option autoImplicit false

namespace GraphQL

/-- A span of time. -/
structure Duration where
  nanoseconds : Nat
  deriving DecidableEq, Repr

namespace Duration

/-- The whole seconds of a span. -/
def seconds (d : Duration) : Nat :=
  d.nanoseconds / 1000000000

/-- The nanoseconds of a span beyond its whole seconds. -/
def subsecond (d : Duration) : Nat :=
  d.nanoseconds % 1000000000

/-- A span is its whole seconds and what is beyond them. -/
theorem seconds_add_subsecond (d : Duration) :
    d.seconds * 1000000000 + d.subsecond = d.nanoseconds := by
  simp only [seconds, subsecond]
  omega

/-- The least number of whole milliseconds that a span fits in. Clocks that tick in milliseconds
wait that long for it. -/
def ceilMilliseconds (d : Duration) : Nat :=
  (d.nanoseconds + 999999) / 1000000

/-- A span fits in that many milliseconds, and in no fewer. -/
theorem ceilMilliseconds_le_iff (d : Duration) (n : Nat) :
    d.ceilMilliseconds ≤ n ↔ d.nanoseconds ≤ n * 1000000 := by
  simp only [ceilMilliseconds]
  omega

/-- The digits of `part / 10 ^ places` after the point, without trailing zeros, and with the point
in front if there are any. -/
def fraction (places part : Nat) : List Char :=
  let digits := Nat.toDigits 10 part
  let padded := List.replicate (places - digits.length) '0' ++ digits
  match (padded.reverse.dropWhile (· == '0')).reverse with
  | [] => []
  | digits => '.' :: digits

/-- A number of units of `10 ^ places` nanoseconds, with its fraction. -/
def renderUnits (d : Duration) (places : Nat) (unit : String) : String :=
  let size := Nat.pow 10 places
  toString (d.nanoseconds / size) ++ String.ofList (fraction places (d.nanoseconds % size)) ++ unit

/-- A span as messages show it. -/
def render (d : Duration) : String :=
  if 1000000000 ≤ d.nanoseconds then d.renderUnits 9 "s"
  else if 1000000 ≤ d.nanoseconds then d.renderUnits 6 "ms"
  else if 1000 ≤ d.nanoseconds then d.renderUnits 3 "µs"
  else toString d.nanoseconds ++ "ns"

end Duration

end GraphQL
