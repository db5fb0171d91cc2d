import GraphQL.Numeral.Double

/-!
# Shortest decimal text

The decimal text of a double is the one with the fewest digits that reads back as the same
number, and among those the nearest one. The fewest digits belong to the coarsest decimal grid
`10 ^ k · ℤ` that has a point among the reals which round to the number, so the search goes from
coarse grids to fine ones and takes the first hit.
-/

set_option autoImplicit false

namespace GraphQL

namespace Double

/-- The reals that round to a positive magnitude, in units of `2 ^ scale`: an interval around
`mid`, with its ends if `closed`. -/
structure Interval where
  low : Nat
  mid : Nat
  high : Nat
  scale : Int
  closed : Bool
  deriving DecidableEq, Repr

/-- The gap below a power of two is half the gap above it, except at the bottom of the range.
A real halfway between two numbers belongs to the one whose significand is even. -/
def interval (d : Double) : Interval :=
  let m := d.significand
  let narrow := m = 1 <<< 52 ∧ -1074 < d.exponent
  { low := if narrow then 4 * m - 1 else 4 * m - 2
    mid := 4 * m
    high := 4 * m + 2
    scale := d.exponent - 2
    closed := m % 2 = 0 }

/-- `n / den` lies in the interval from `low / den` to `high / den`. -/
def inside (low high : Nat) (closed : Bool) (n : Nat) : Bool :=
  if closed then low ≤ n && n ≤ high else low < n && n < high

/-- The point of the grid `10 ^ k · ℤ` in the interval that is nearest to its middle, as a multiple
of `10 ^ k`. Of two equally near points the even one is taken. -/
def gridPoint? (i : Interval) (k : Int) : Option Nat :=
  let two := if 0 ≤ i.scale then 1 <<< i.scale.toNat else 1
  let twoBelow := if 0 ≤ i.scale then 1 else 1 <<< (-i.scale).toNat
  let ten := if 0 ≤ k then Nat.pow 10 k.toNat else 1
  let tenBelow := if 0 ≤ k then 1 else Nat.pow 10 (-k).toNat
  -- over the common denominator a number of units is `units · num`, a grid point `n · step`
  let num := two * tenBelow
  let step := ten * twoBelow
  let hits := fun n => inside (i.low * num) (i.high * num) i.closed (n * step)
  let mid := i.mid * num
  let down := mid / step
  let up := down + 1
  match hits down, hits up with
  | false, false => none
  | true, false => some down
  | false, true => some up
  | true, true =>
    let below := mid - down * step
    let above := up * step - mid
    if below < above ∨ (below = above ∧ down % 2 = 0) then some down else some up

/-- Tries the grids from `10 ^ k` downwards. Every double has a point on some grid of at most 17
digits, so the count of grids to try is never exhausted. -/
def coarsest (i : Interval) : Nat → Int → Nat × Int
  | 0, k => (i.mid, k)
  | n + 1, k =>
    match gridPoint? i k with
    | some point => if point = 0 then coarsest i n (k - 1) else (point, k)
    | none => coarsest i n (k - 1)

/-- A power of ten above the magnitude: its binary order times `log10 2`, rounded up. -/
def startExponent (d : Double) : Int :=
  let order : Int := d.significand.log2 + d.exponent + 1
  order * 30103 / 100000 + 2

/-- The digits of a number's shortest decimal, as a coefficient and a power of ten. Zero is
`0 · 10 ^ 0`. -/
def shortest (d : Double) : Decimal :=
  if d.significand = 0 then ⟨d.negative, 0, 0⟩
  else
    let (coefficient, exponent) := coarsest d.interval 40 d.startExponent
    ⟨d.negative, coefficient, exponent⟩

end Double

namespace Decimal

/-- How a decimal is laid out: the least and the greatest order of magnitude (the power of ten of
the leading digit) that are written without an exponent. -/
structure Layout where
  plainFrom : Int
  plainTo : Int

/-- The text of a decimal whose coefficient has no trailing zero.

Without an exponent there is always a point; with one there is a point only if more than one digit
is written, and the exponent has its sign. -/
def render (layout : Layout) (d : Decimal) : String :=
  let digits := Nat.toDigits 10 d.coefficient
  let count : Int := digits.length
  let order := count - 1 + d.exponent
  let zeros := fun (n : Int) => List.replicate n.toNat '0'
  let body : List Char :=
    if layout.plainFrom ≤ order ∧ order ≤ layout.plainTo then
      if 0 ≤ d.exponent then digits ++ zeros d.exponent ++ ['.', '0']
      else if 0 ≤ order then
        digits.take (order + 1).toNat ++ '.' :: digits.drop (order + 1).toNat
      else '0' :: '.' :: zeros (-order - 1) ++ digits
    else
      let mantissa :=
        match digits with
        | [] => []
        | [digit] => [digit]
        | digit :: more => digit :: '.' :: more
      let sign := if order < 0 then '-' else '+'
      mantissa ++ 'e' :: sign :: Nat.toDigits 10 order.natAbs
  String.ofList (if d.negative then '-' :: body else body)

end Decimal

end GraphQL
