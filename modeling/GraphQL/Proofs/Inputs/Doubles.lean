import Mathlib
import GraphQL.Numeral.Double

/-!
# Integers as doubles

The double that an integer becomes is the nearest one there is (`Double.nearest_le`). The doubles at
the scale of an integer are the multiples of one power of two; those of a smaller scale lie below
them all, and those of a greater scale are among them.
-/

set_option autoImplicit false

namespace GraphQL

namespace Double

/-- The magnitude of a double, as a number. -/
def magnitude (d : Double) : ℚ :=
  d.significand * 2 ^ d.exponent

/-- The number that a double is. -/
def toRat (d : Double) : ℚ :=
  if d.negative then -d.magnitude else d.magnitude

/-- No magnitude is negative. -/
theorem magnitude_nonneg (d : Double) : 0 ≤ d.magnitude := by
  unfold magnitude
  positivity

/-- The significand of a double has a leading bit of its own unless the rank is that of a subnormal
one. -/
theorem significand_eq (d : Double) :
    d.significand = if d.rank.val < 2 ^ 52 then d.rank.val else 2 ^ 52 + d.rank.val % 2 ^ 52 :=
  rfl

/-- The exponent of a double is that of its rank, and the smallest one for subnormal doubles. -/
theorem exponent_eq (d : Double) :
    d.exponent =
      if d.rank.val < 2 ^ 52 then -1074 else ((d.rank.val / 2 ^ 52 : Nat) : ℤ) - 1075 := by
  unfold exponent
  rw [Nat.shiftRight_eq_div_pow]
  rfl

/-- A significand has `53` bits at most. -/
theorem significand_lt (d : Double) : d.significand < 2 ^ 53 := by
  rw [significand_eq]
  split <;> omega

/-- No double has a greater exponent than the largest one. -/
theorem exponent_le (d : Double) : d.exponent ≤ 971 := by
  have finite : d.rank.val < 2047 * 2 ^ 52 := d.rank.isLt
  rw [exponent_eq]
  split <;> omega

/-- No double is greater than the largest one. -/
theorem magnitude_le (d : Double) : d.magnitude ≤ (2 ^ 53 - 1) * 2 ^ (971 : ℤ) := by
  have significand : (d.significand : ℚ) ≤ 2 ^ 53 - 1 := by
    have := d.significand_lt
    rw [le_sub_iff_add_le]
    exact_mod_cast this
  unfold magnitude
  exact mul_le_mul significand (zpow_le_zpow_right₀ (by norm_num) d.exponent_le) (by positivity)
    (by norm_num)

/-- The largest double has all `53` bits and the greatest exponent. -/
theorem magnitude_largest (negative : Bool) :
    (largest negative).magnitude = (2 ^ 53 - 1) * 2 ^ (971 : ℤ) := by
  have significand : (largest negative).significand = 2 ^ 53 - 1 := by
    cases negative <;> decide +kernel
  have exponent : (largest negative).exponent = 971 := by
    cases negative <;> decide +kernel
  rw [magnitude, significand, exponent]
  norm_num

/-- The rank of a magnitude is its exponent in units of all significands, and its significand on
top. A significand too large by one is the least one of the next exponent. -/
theorem magnitude_eq {d : Double} {b q : Nat} (rank : d.rank.val = b * 2 ^ 52 + q)
    (least : 2 ^ 52 ≤ q) (most : q ≤ 2 ^ 53) : d.magnitude = q * 2 ^ ((b : ℤ) - 1074) := by
  have normal : ¬ d.rank.val < 2 ^ 52 := by omega
  rw [magnitude, significand_eq, exponent_eq, if_neg normal, if_neg normal]
  rcases Nat.lt_or_eq_of_le most with within | rfl
  · have whole : d.rank.val / 2 ^ 52 = b + 1 := by omega
    have part : 2 ^ 52 + d.rank.val % 2 ^ 52 = q := by omega
    rw [whole, part]
    congr 2
    push_cast
    ring
  · have whole : d.rank.val / 2 ^ 52 = b + 2 := by omega
    have part : 2 ^ 52 + d.rank.val % 2 ^ 52 = 2 ^ 52 := by omega
    have next : ((b + 2 : Nat) : ℤ) - 1075 = (b : ℤ) - 1074 + 1 := by
      push_cast
      ring
    rw [whole, part, next, zpow_add_one₀ (by norm_num)]
    push_cast
    ring

/-- A rounded quotient is as near as any other one. -/
theorem roundDiv_nearest (num den m : Nat) (positive : 0 < den) :
    |(roundDiv num den * den : ℤ) - num| ≤ |(m * den : ℤ) - num| := by
  obtain ⟨above, below⟩ := roundDiv_near num den positive
  have step : ∀ a b : Nat, a < b → a * den + den ≤ b * den := by
    intro a b less
    rw [← Nat.succ_mul]
    exact Nat.mul_le_mul_right den less
  zify at above below
  rcases lt_trichotomy m (roundDiv num den) with less | rfl | greater
  · have gap := step _ _ less
    zify at gap
    refine le_abs.2 (.inr (abs_le.2 ⟨?_, ?_⟩)) <;> linarith
  · exact le_refl _
  · have gap := step _ _ greater
    zify at gap
    refine le_abs.2 (.inl (abs_le.2 ⟨?_, ?_⟩)) <;> linarith

/-- Nothing is rounded where a whole number is divided by one. -/
theorem roundDiv_one (n : Nat) : roundDiv n 1 = n := by
  have := roundDiv_near n 1 Nat.one_pos
  omega

/-- The binary logarithm of a whole number, given as a fraction, is that of the number. -/
theorem floorLog2_one {n : Nat} (positive : n ≠ 0) : floorLog2 n 1 = n.log2 := by
  have reached : 1 <<< n.log2 ≤ n := by
    rw [Nat.one_shiftLeft]
    exact Nat.log2_self_le positive
  have one : Nat.log2 1 = 0 := by decide
  simp [floorLog2, one, reached]

/-- A number of `53` bits and some more is rounded to a number of `53` bits, or to the next one. -/
theorem roundDiv_bounds {n den : Nat} (low : 2 ^ 52 * den ≤ n) (high : n < 2 ^ 53 * den) :
    2 ^ 52 ≤ roundDiv n den ∧ roundDiv n den ≤ 2 ^ 53 := by
  have positive : 0 < den := by
    by_contra zero
    obtain rfl : den = 0 := by omega
    omega
  obtain ⟨above, below⟩ := roundDiv_near n den positive
  constructor
  · by_contra small
    have : (roundDiv n den + 1) * den ≤ 2 ^ 52 * den := Nat.mul_le_mul_right den (by omega)
    rw [Nat.succ_mul] at this
    omega
  · by_contra great
    have : (2 ^ 53 + 1) * den ≤ roundDiv n den * den := Nat.mul_le_mul_right den (by omega)
    rw [Nat.succ_mul] at this
    omega

/-- The rank of a positive integer is that of the nearest multiple of a unit that is so small that
the integer is at least as great as `2 ^ 52` units. -/
theorem exists_roundRank {n : Nat} (positive : n ≠ 0) : ∃ b q : Nat,
    roundRank n 1 = b * 2 ^ 52 + q ∧ 2 ^ 52 ≤ q ∧ q ≤ 2 ^ 53 ∧
      (2 ^ 52 * 2 ^ ((b : ℤ) - 1074) : ℚ) ≤ n ∧
      ∀ m : Nat, |(q * 2 ^ ((b : ℤ) - 1074) : ℚ) - n| ≤ |(m * 2 ^ ((b : ℤ) - 1074) : ℚ) - n| := by
  have low := Nat.log2_self_le positive
  have high := Nat.lt_log2_self (n := n)
  have scale : max ((n.log2 : ℤ) - 52) (-1074) = (n.log2 : ℤ) - 52 := by omega
  have base : ((n.log2 : ℤ) - 52 + 1074).toNat = n.log2 + 1022 := by omega
  have unit : ((n.log2 + 1022 : Nat) : ℤ) - 1074 = (n.log2 : ℤ) - 52 := by
    push_cast
    ring
  simp only [roundRank, if_neg positive, floorLog2_one positive, scale, base, Nat.shiftLeft_eq]
  refine ⟨n.log2 + 1022, _, rfl, ?_⟩
  rw [unit]
  by_cases large : 52 ≤ n.log2
  · -- the integer is rounded to a multiple of a power of two
    obtain ⟨e, same⟩ := Nat.exists_eq_add_of_le large
    have exponent : (n.log2 : ℤ) - 52 = e := by omega
    rw [exponent, if_pos (Int.natCast_nonneg e), Int.toNat_natCast, one_mul, zpow_natCast]
    rw [same, Nat.pow_add] at low
    rw [same, Nat.add_right_comm, Nat.pow_add] at high
    obtain ⟨least, most⟩ := roundDiv_bounds low high
    refine ⟨least, most, by exact_mod_cast low, fun m => ?_⟩
    exact_mod_cast roundDiv_nearest n (2 ^ e) m (Nat.two_pow_pos e)
  · -- the integer is a multiple of the unit itself
    obtain ⟨e, same⟩ := Nat.exists_eq_add_of_le (Nat.le_of_not_le large)
    have exponent : (n.log2 : ℤ) - 52 = -e := by omega
    have small : ¬ (0 : ℤ) ≤ -e := by omega
    have power : 2 ^ 52 = 2 ^ n.log2 * 2 ^ e := by rw [← Nat.pow_add, ← same]
    have exact : ((n * 2 ^ e : Nat) : ℚ) * 2 ^ (-e : ℤ) = n := by
      rw [zpow_neg, zpow_natCast]
      push_cast
      field_simp
    rw [exponent, if_neg small, neg_neg, Int.toNat_natCast, roundDiv_one, exact]
    refine ⟨?_, ?_, ?_, fun m => ?_⟩
    · rw [power]
      exact Nat.mul_le_mul_right _ low
    · have less := Nat.mul_le_mul_right (2 ^ e) (Nat.le_of_lt high)
      rw [Nat.pow_succ, Nat.mul_right_comm, ← power] at less
      exact less
    · rw [zpow_neg, zpow_natCast, ← div_eq_mul_inv, div_le_iff₀ (by positivity)]
      have less := Nat.mul_le_mul_right (2 ^ e) low
      rw [← power] at less
      exact_mod_cast less
    · rw [sub_self, abs_zero]
      exact abs_nonneg _

/-- Between a unit and a number of `2 ^ 52` units or more, nothing is nearer to the number than the
nearest multiple of the unit is. -/
theorem near_of_grid {n q : Nat} {unit : ℚ} (low : 2 ^ 52 * unit ≤ n)
    (nearest : ∀ m : Nat, |q * unit - n| ≤ |m * unit - n|) {x : ℚ} (below : x ≤ 2 ^ 52 * unit) :
    |q * unit - n| ≤ |x - n| := by
  have bottom := nearest (2 ^ 52)
  rw [abs_of_nonpos (show ((2 ^ 52 : Nat) : ℚ) * unit - n ≤ 0 by push_cast; linarith)] at bottom
  rw [abs_of_nonpos (show x - n ≤ 0 by linarith)]
  push_cast at bottom
  linarith

/-- No magnitude, whatever its sign, is nearer to a number than the nearest multiple of the unit
is that belongs to the number. -/
theorem near_of_magnitude {n b q : Nat} (low : (2 ^ 52 * 2 ^ ((b : ℤ) - 1074) : ℚ) ≤ n)
    (nearest : ∀ m : Nat,
      |(q * 2 ^ ((b : ℤ) - 1074) : ℚ) - n| ≤ |(m * 2 ^ ((b : ℤ) - 1074) : ℚ) - n|)
    (d : Double) : |(q * 2 ^ ((b : ℤ) - 1074) : ℚ) - n| ≤ |d.magnitude - n| := by
  by_cases coarse : (b : ℤ) - 1074 ≤ d.exponent
  · -- a magnitude of the same scale or a greater one is a multiple of the unit
    obtain ⟨e, same⟩ := Int.exists_add_of_le coarse
    have multiple : d.magnitude =
        ((d.significand * 2 ^ e : Nat) : ℚ) * 2 ^ ((b : ℤ) - 1074) := by
      rw [magnitude, same, zpow_add₀ (by norm_num), zpow_natCast]
      push_cast
      ring
    rw [multiple]
    exact nearest _
  · refine near_of_grid low nearest ?_
    have significand : (d.significand : ℚ) ≤ 2 ^ 53 := by
      exact_mod_cast Nat.le_of_lt d.significand_lt
    have exponent : (2 : ℚ) ^ d.exponent ≤ 2 ^ ((b : ℤ) - 1074 - 1) :=
      zpow_le_zpow_right₀ (by norm_num) (by omega)
    rw [zpow_sub_one₀ (by norm_num)] at exponent
    calc d.magnitude ≤ 2 ^ 53 * (2 ^ ((b : ℤ) - 1074) * 2⁻¹) :=
          mul_le_mul significand exponent (by positivity) (by norm_num)
      _ = 2 ^ 52 * 2 ^ ((b : ℤ) - 1074) := by ring

/-- An integer that is rounded beyond the largest double is not less than it. -/
theorem largest_le {n b q : Nat} (beyond : 2047 * 2 ^ 52 ≤ b * 2 ^ 52 + q) (most : q ≤ 2 ^ 53)
    (low : (2 ^ 52 * 2 ^ ((b : ℤ) - 1074) : ℚ) ≤ n)
    (nearest : ∀ m : Nat,
      |(q * 2 ^ ((b : ℤ) - 1074) : ℚ) - n| ≤ |(m * 2 ^ ((b : ℤ) - 1074) : ℚ) - n|) :
    ((2 ^ 53 - 1) * 2 ^ (971 : ℤ) : ℚ) ≤ n := by
  by_cases above : 2046 ≤ b
  · have unit : (2 : ℚ) ^ (971 + 1 : ℤ) ≤ 2 ^ ((b : ℤ) - 1074) :=
      zpow_le_zpow_right₀ (by norm_num) (by omega)
    rw [zpow_add_one₀ (by norm_num)] at unit
    have positive : (0 : ℚ) < 2 ^ (971 : ℤ) := by positivity
    generalize (2 : ℚ) ^ (971 : ℤ) = top at unit positive ⊢
    linarith
  · obtain rfl : b = 2045 := by omega
    obtain rfl : q = 2 ^ 53 := by omega
    have unit : ((2045 : Nat) : ℤ) - 1074 = 971 := by norm_num
    rw [unit] at nearest
    have nearer := nearest (2 ^ 53 - 1)
    have positive : (0 : ℚ) < 2 ^ (971 : ℤ) := by positivity
    generalize (2 : ℚ) ^ (971 : ℤ) = top at nearer positive ⊢
    -- below the largest double, that would be nearer than the next power of two is
    by_contra less
    push_cast at nearer
    rw [abs_of_nonneg (by linarith), abs_of_nonneg (by linarith)] at nearer
    linarith

/-- The magnitude that an integer gets is as near to its own as any. -/
theorem magnitude_nearest_le (i : Int) (d : Double) :
    |(nearest i).magnitude - i.natAbs| ≤ |d.magnitude - i.natAbs| := by
  by_cases zero : i.natAbs = 0
  · obtain rfl := Int.natAbs_eq_zero.1 zero
    have exact : (nearest 0).magnitude = 0 := by
      have none : (nearest 0).significand = 0 := by decide +kernel
      rw [magnitude, none, Nat.cast_zero, zero_mul]
    simp [exact]
  obtain ⟨b, q, rank, least, most, low, near⟩ := exists_roundRank zero
  unfold nearest ofRank?
  split
  · have magnitude : (Double.mk (decide (i < 0)) ⟨roundRank i.natAbs 1, ‹_›⟩).magnitude =
        q * 2 ^ ((b : ℤ) - 1074) := magnitude_eq rank least most
    rw [Option.getD_some, magnitude]
    exact near_of_magnitude low near d
  · next beyond =>
    have enough := largest_le (by rw [← rank]; exact Nat.le_of_not_lt beyond) most low near
    have less := d.magnitude_le
    rw [Option.getD_none, magnitude_largest, abs_of_nonpos (by linarith),
      abs_of_nonpos (by linarith)]
    linarith

/-- The double that is nearest to an integer has its sign. -/
theorem negative_nearest (i : Int) : (nearest i).negative = decide (i < 0) := by
  unfold nearest ofRank?
  split <;> rfl

/-- The double that an integer becomes is as near to it as any. -/
theorem nearest_le (i : Int) (d : Double) : |(nearest i).toRat - i| ≤ |d.toRat - i| := by
  have own := magnitude_nearest_le i d
  -- with the other sign a magnitude is farther away
  have other : |d.magnitude - i.natAbs| ≤ |-d.magnitude - i.natAbs| := by
    have positive := d.magnitude_nonneg
    have natural : (0 : ℚ) ≤ i.natAbs := Nat.cast_nonneg _
    rw [abs_of_nonpos (show -d.magnitude - (i.natAbs : ℚ) ≤ 0 by linarith)]
    exact abs_le.2 ⟨by linarith, by linarith⟩
  unfold toRat
  rw [negative_nearest]
  by_cases negative : i < 0
  · have sign : (i : ℚ) = -(i.natAbs : ℚ) := by
      rw [Nat.cast_natAbs, abs_of_neg negative]
      simp
    rw [sign, decide_eq_true negative, if_pos rfl]
    have flip : ∀ x : ℚ, |-x - -(i.natAbs : ℚ)| = |x - i.natAbs| := by
      intro x
      rw [neg_sub_neg, abs_sub_comm]
    split
    · rwa [flip, flip]
    · have turned := flip (-d.magnitude)
      rw [neg_neg] at turned
      rw [flip, turned]
      exact own.trans other
  · have sign : (i : ℚ) = (i.natAbs : ℚ) := by
      rw [Nat.cast_natAbs, abs_of_nonneg (not_lt.1 negative)]
    rw [sign, decide_eq_false negative, if_neg Bool.false_ne_true]
    split
    · exact own.trans other
    · exact own

end Double

end GraphQL
