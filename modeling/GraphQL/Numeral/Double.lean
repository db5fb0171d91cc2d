import GraphQL.Numeral.Decimal

/-!
# Double-precision numbers

Finite binary64 numbers with exact arithmetic. The finite magnitudes are numbered in increasing
order from zero, so that the number of a magnitude is its encoding without the sign bit, rounding
up is adding one, and every value has one representation. `Double.roundRank` is rounding to the
nearest, ties to even; all that reads a number from text or from an integer goes through it.
-/

set_option autoImplicit false

namespace GraphQL

/-- A finite binary64 number: its sign, and the rank of its magnitude among all finite ones. -/
structure Double where
  negative : Bool
  rank : Fin (2047 <<< 52)
  deriving DecidableEq, Repr

namespace Double

/-- Zero, with a sign. -/
def zero (negative : Bool) : Double :=
  ⟨negative, 0, by decide⟩

/-- The largest finite number of a sign. -/
def largest (negative : Bool) : Double :=
  ⟨negative, 2047 <<< 52 - 1, by decide⟩

/-- The magnitude is `significand · 2 ^ exponent`; subnormal numbers have no leading bit. -/
def significand (d : Double) : Nat :=
  if d.rank.val < 1 <<< 52 then d.rank.val else 1 <<< 52 + d.rank.val % 1 <<< 52

/-- The power of two that scales the significand. -/
def exponent (d : Double) : Int :=
  if d.rank.val < 1 <<< 52 then -1074 else (d.rank.val >>> 52 : Nat) - (1075 : Int)

/-- The greatest `e` with `2 ^ e ≤ num / den`, for positive `num` and `den`. -/
def floorLog2 (num den : Nat) : Int :=
  let e : Int := (num.log2 : Int) - den.log2
  let reached := if 0 ≤ e then den <<< e.toNat ≤ num else den ≤ num <<< (-e).toNat
  if reached then e else e - 1

/-- The nearest natural number to `num / den`; a half goes to the even neighbour. -/
def roundDiv (num den : Nat) : Nat :=
  let q := num / den
  let r := num % den
  if den < 2 * r ∨ (2 * r = den ∧ q % 2 = 1) then q + 1 else q

/-- The rounded quotient is at most half a unit away. -/
theorem roundDiv_near (num den : Nat) (h : 0 < den) :
    2 * (roundDiv num den * den) ≤ 2 * num + den ∧
      2 * num ≤ 2 * (roundDiv num den * den) + den := by
  have split := Nat.div_add_mod num den
  have small := Nat.mod_lt num h
  rw [Nat.mul_comm] at split
  simp only [roundDiv]
  split
  · rw [Nat.add_mul]
    omega
  · omega

/-- The rank of the magnitude nearest to `num / den`, which may lie beyond the finite ones.

The significand is rounded at the exponent of the leading bit, or at the smallest exponent there
is. A significand that rounds up to the next power of two carries into the rank. -/
def roundRank (num den : Nat) : Nat :=
  if num = 0 then 0
  else
    let e := max (floorLog2 num den - 52) (-1074)
    let q :=
      if 0 ≤ e then roundDiv num (den <<< e.toNat)
      else roundDiv (num <<< (-e).toNat) den
    (e + 1074).toNat <<< 52 + q

/-- The number of a given sign and rank; `none` beyond the finite ones. -/
def ofRank? (negative : Bool) (rank : Nat) : Option Double :=
  if h : rank < 2047 <<< 52 then some ⟨negative, rank, h⟩ else none

/-- The finite number nearest to an integer. -/
def nearest (i : Int) : Double :=
  let negative := decide (i < 0)
  (ofRank? negative (roundRank i.natAbs 1)).getD (largest negative)

/-- The number nearest to a decimal; `none` if it rounds beyond the finite ones.

Decimals of 311 or more places before the point are too large, and those below `10 ^ (-330)`
round to zero, so no power of ten above that size is ever computed. -/
def ofDecimal? (d : Decimal) : Option Double :=
  if d.coefficient = 0 then some (zero d.negative)
  else
    let order := (Decimal.digitCount d.coefficient : Int) + d.exponent
    if 310 < order then none
    else if order < -330 then some (zero d.negative)
    else if 0 ≤ d.exponent then
      ofRank? d.negative (roundRank (d.coefficient * Nat.pow 10 d.exponent.toNat) 1)
    else
      ofRank? d.negative (roundRank d.coefficient (Nat.pow 10 (-d.exponent).toNat))

/-- The integer that a number equals, if it is whole. -/
def toInt? (d : Double) : Option Int :=
  let magnitude? : Option Nat :=
    if 0 ≤ d.exponent then some (d.significand <<< d.exponent.toNat)
    else
      let unit := 1 <<< (-d.exponent).toNat
      if d.significand % unit = 0 then some (d.significand / unit) else none
  magnitude?.map fun n => if d.negative then -(n : Int) else n

end Double

end GraphQL
