import GraphQL.Coercion.Basic

/-!
# Numerals in documents

What the spellings of numbers denote. The decimal text of an integer is read as that integer, and as
the double nearest to it (`Decimal.intOfText?_toString`, `Double.eq_nearest_of_ofDecimal?`). A
numeral with a fraction or an exponent always denotes a number (`Decimal.FloatText.exists_ofText?`).
-/

set_option autoImplicit false

namespace GraphQL

namespace Decimal

/-- Digits, at least one of them. -/
structure Digits (text : List Char) : Prop where
  nonempty : text ≠ []
  digit : ∀ c ∈ text, c.isDigit = true

namespace Digits

variable {digits rest : List Char}

/-- There is at least one digit. -/
theorem isEmpty_eq (h : Digits digits) : digits.isEmpty = false := by
  rw [List.isEmpty_eq_false_iff]
  exact h.nonempty

/-- A check of each digit passes. -/
theorem all_eq (h : Digits digits) : digits.all Char.isDigit = true :=
  List.all_eq_true.2 h.digit

/-- Digits start with one. -/
theorem exists_cons (h : Digits digits) :
    ∃ c more, digits = c :: more ∧ c.isDigit = true := by
  cases digits with
  | nil => exact absurd rfl h.nonempty
  | cons c more => exact ⟨c, more, rfl, h.digit c List.mem_cons_self⟩

/-- Digits are split off up to a text that goes on with something else. -/
theorem spanDigits_append (h : Digits digits) (ends : ∀ c, rest.head? = some c → c.isDigit = false) :
    spanDigits (digits ++ rest) = (digits, rest) := by
  have stop : rest.takeWhile Char.isDigit = [] ∧ rest.dropWhile Char.isDigit = rest := by
    cases rest with
    | nil => exact ⟨rfl, rfl⟩
    | cons c more =>
      have other := ends c rfl
      rw [List.takeWhile_cons_of_neg (by simp [other]), List.dropWhile_cons_of_neg (by simp [other])]
      exact ⟨rfl, rfl⟩
  rw [spanDigits, List.takeWhile_append_of_pos h.digit, List.dropWhile_append_of_pos h.digit,
    stop.1, stop.2, List.append_nil]

end Digits

/-- A natural number is written in digits. -/
theorem digits_toDigits (n : Nat) : Digits (Nat.toDigits 10 n) :=
  ⟨Nat.toDigits_ne_nil, fun _ member =>
    Nat.isDigit_of_mem_toDigits (by decide) (by decide) member⟩

/-- The digits in which a number is written stand for it. -/
theorem natOfDigits_toDigits (n : Nat) : natOfDigits 0 (Nat.toDigits 10 n) = n :=
  Nat.ofDigitChars_ten_toDigits

/-- The sign of a numeral, if it has one. -/
def sign (negative : Bool) : List Char :=
  if negative then ['-'] else []

/-- An integer is written as its digits, after its sign. -/
theorem toList_toString (i : Int) :
    (toString i).toList = sign (decide (i < 0)) ++ Nat.toDigits 10 i.natAbs := by
  cases i with
  | ofNat n =>
    have nonneg : ¬ Int.ofNat n < 0 := by simp
    simp only [nonneg, decide_false, sign]
    exact String.toList_ofList
  | negSucc n =>
    simp only [Int.negSucc_lt_zero, decide_true, sign]
    show ("-" ++ String.ofList _).toList = _
    simp

section Signed

variable {text : String} {negative : Bool} {digits rest : List Char}

/-- A text that starts with digits has no other sign in front. -/
theorem ofText?_signed (spelled : text.toList = sign negative ++ (digits ++ rest))
    (h : Digits digits) : ofText? text = readMagnitude? negative (digits ++ rest) := by
  obtain ⟨c, more, rfl, digit⟩ := h.exists_cons
  rw [ofText?, spelled]
  cases negative with
  | true => rfl
  | false =>
    simp only [sign, List.nil_append, List.cons_append, Bool.false_eq_true, if_false]
    split
    · next start =>
      cases start
      cases digit
    · rfl

/-- Digits after a sign are read as an integer. -/
theorem intOfText?_signed (spelled : text.toList = sign negative ++ digits) (h : Digits digits) :
    intOfText? text =
      some (if negative then -(natOfDigits 0 digits : Int) else natOfDigits 0 digits) := by
  rw [intOfText?, spelled]
  cases negative with
  | true => simp [sign, h.isEmpty_eq, h.all_eq]
  | false =>
    obtain ⟨c, more, rfl, digit⟩ := id h.exists_cons
    simp only [sign, List.nil_append, Bool.false_eq_true, if_false]
    split
    · next start =>
      cases start
      cases digit
    · simp [h.all_eq]

end Signed

/-- The text of an integer denotes it. -/
theorem intOfText?_toString (i : Int) : intOfText? (toString i) = some i := by
  rw [intOfText?_signed (toList_toString i) (digits_toDigits _), natOfDigits_toDigits]
  by_cases negative : i < 0
  · simp only [negative, decide_true, if_true, Option.some.injEq]
    omega
  · simp only [negative, decide_false, Bool.false_eq_true, if_false, Option.some.injEq]
    omega

/-- Read as a decimal, the text of an integer is the integer without an exponent. -/
theorem ofText?_toString (i : Int) :
    ofText? (toString i) = some ⟨decide (i < 0), i.natAbs, 0⟩ := by
  have digits := digits_toDigits i.natAbs
  have spelled := toList_toString i
  rw [← List.append_nil (Nat.toDigits 10 i.natAbs)] at spelled
  rw [ofText?_signed spelled digits, readMagnitude?, digits.spanDigits_append (by simp)]
  simp [digits.nonempty, readExponent?, natOfDigits_toDigits]

/-- A text is an integer as documents write it: digits without leading zeros, perhaps after a minus
sign. -/
def IntText (text : String) : Prop :=
  ∃ negative whole, text.toList = sign negative ++ whole ∧ Digits whole ∧
    (whole.head? = some '0' → whole = ['0'])

/-- An integer denotes a number. -/
theorem IntText.exists_ofText? {text : String} (h : IntText text) :
    ∃ d, ofText? text = some d := by
  obtain ⟨negative, whole, spelled, digits, -⟩ := h
  rw [← List.append_nil whole] at spelled
  rw [ofText?_signed spelled digits, readMagnitude?, digits.spanDigits_append (by simp)]
  exact ⟨⟨negative, natOfDigits 0 whole, 0⟩, by simp [digits.nonempty, readExponent?]⟩

/-- The exponent of a numeral, with its mark and perhaps a sign. -/
inductive ExponentText : List Char → Prop
  | signed {mark sign : Char} {digits : List Char} (hmark : mark = 'e' ∨ mark = 'E')
    (hsign : sign = '+' ∨ sign = '-') (hdigits : Digits digits) :
    ExponentText (mark :: sign :: digits)
  | unsigned {mark : Char} {digits : List Char} (hmark : mark = 'e' ∨ mark = 'E')
    (hdigits : Digits digits) : ExponentText (mark :: digits)

/-- A numeral with a fraction or an exponent or both, as documents write it. The integer in front
has no leading zeros. -/
structure FloatParts (text : String) (negative : Bool) (whole fraction exponent : List Char) :
    Prop where
  spelled : text.toList = sign negative ++ (whole ++ (fraction ++ exponent))
  digits : Digits whole
  noZeros : whole.head? = some '0' → whole = ['0']
  point : fraction = [] ∨ ∃ digits, Digits digits ∧ fraction = '.' :: digits
  mark : exponent = [] ∨ ExponentText exponent
  isFloat : fraction ≠ [] ∨ exponent ≠ []

/-- A text is a numeral with a fraction or an exponent. -/
def FloatText (text : String) : Prop :=
  ∃ negative whole fraction exponent, FloatParts text negative whole fraction exponent

/-- An exponent starts with its mark. -/
theorem ExponentText.exists_mark {text : List Char} (h : ExponentText text) :
    ∃ mark more, text = mark :: more ∧ (mark = 'e' ∨ mark = 'E') := by
  cases h with
  | signed hmark => exact ⟨_, _, rfl, hmark⟩
  | unsigned hmark => exact ⟨_, _, rfl, hmark⟩

/-- An exponent denotes an integer. -/
theorem ExponentText.exists_readExponent? {text : List Char} (h : ExponentText text) :
    ∃ e, readExponent? text = some e := by
  cases h with
  | signed hmark hsign hdigits =>
    have digits := hdigits.digit
    rcases hmark with rfl | rfl <;> rcases hsign with rfl | rfl <;>
      simpa [readExponent?, hdigits.isEmpty_eq] using digits
  | @unsigned mark digits hmark hdigits =>
    obtain ⟨c, more, rfl, digit⟩ := id hdigits.exists_cons
    have noSign : c ≠ '-' ∧ c ≠ '+' := by
      constructor <;> rintro rfl <;> cases digit
    have digits := hdigits.digit
    rcases hmark with rfl | rfl <;> simp_all [readExponent?]

/-- A numeral with a fraction or an exponent denotes a number. -/
theorem FloatText.exists_ofText? {text : String} (h : FloatText text) :
    ∃ d, ofText? text = some d := by
  obtain ⟨negative, whole, fraction, exponent, spelled, hwhole, -, hfraction, hexponent, isFloat⟩ := h
  -- neither digits nor a point start the exponent
  have marks : ∀ c, exponent.head? = some c → c.isDigit = false ∧ c ≠ '.' := by
    rintro c head
    rcases hexponent with rfl | hexponent
    · cases head
    · obtain ⟨mark, more, rfl, rfl | rfl⟩ := hexponent.exists_mark <;> cases head <;> decide
  have ends : ∃ e, readExponent? exponent = some e := by
    rcases hexponent with rfl | hexponent
    · exact ⟨0, rfl⟩
    · exact hexponent.exists_readExponent?
  obtain ⟨e, ends⟩ := ends
  rw [ofText?_signed spelled hwhole, readMagnitude?]
  rcases hfraction with rfl | ⟨digits, hdigits, rfl⟩
  · rw [List.nil_append, hwhole.spanDigits_append fun c head => (marks c head).1]
    simp only [hwhole.isEmpty_eq, Bool.false_eq_true, if_false]
    split
    · exact absurd rfl (marks '.' rfl).2
    · exact ⟨_, by rw [ends]; rfl⟩
  · rw [List.cons_append, hwhole.spanDigits_append (by rintro c ⟨⟩; rfl)]
    simp only [hwhole.isEmpty_eq, Bool.false_eq_true, if_false,
      hdigits.spanDigits_append fun c head => (marks c head).1, hdigits.isEmpty_eq, ends]
    exact ⟨_, rfl⟩

end Decimal

namespace Double

/-- Where an integer is read as a decimal, the double that is found is the one nearest to it. -/
theorem eq_nearest_of_ofDecimal? {i : Int} {d : Double}
    (found : ofDecimal? ⟨decide (i < 0), i.natAbs, 0⟩ = some d) : d = nearest i := by
  have unscaled : i.natAbs * Nat.pow 10 (0 : Int).toNat = i.natAbs := Nat.mul_one _
  by_cases zero : i = 0
  · subst zero
    cases found
    rfl
  · have notTiny : ¬ (Decimal.digitCount i.natAbs : Int) + 0 < -330 := by omega
    simp only [ofDecimal?, Int.natAbs_eq_zero, zero, notTiny, Int.le_refl, unscaled, if_true,
      if_false] at found
    split at found
    · cases found
    · rw [nearest, found]
      rfl

end Double

end GraphQL
