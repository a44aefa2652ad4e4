import Unmangle.Json.Basic

/-!
# The magnitude of numbers

A number that is read as a whole has to be in the range of binary64. What decides is not its exact
value but the way in which it is made: the leading digits, as many as fit 64 bits, make one factor,
the power of ten that puts them in their place makes the other, both are rounded to 53 binary
digits, and the rounded product of the two has to stay below the end of the range. Digits beyond
the first 64 bits count only for their number. So close to the end of the range the spelling of a
number matters, and a value a little below that end may be refused.

All of this is exact arithmetic on natural numbers, because a negative power of ten makes nothing
larger and needs no test.
-/

namespace Unmangle

/-- The multiple of `unit` nearest to `n`. Halfway between two of them it is the even one. -/
def nearestMultiple (unit n : Nat) : Nat :=
  let count := n / unit
  let rest := n % unit
  if unit < 2 * rest ∨ (2 * rest = unit ∧ count % 2 = 1) then (count + 1) * unit else count * unit

/-- Rounding up adds half a unit at most. -/
theorem nearestMultiple_le {unit n : Nat} : 2 * nearestMultiple unit n ≤ 2 * n + unit := by
  have hn := Nat.div_add_mod n unit
  rw [Nat.mul_comm] at hn
  rw [nearestMultiple]
  split
  · rw [Nat.add_mul]
    omega
  · omega

/-- How many binary digits the significand of binary64 has. -/
def floatPrecision : Nat := 53

/-- The nearest number with at most 53 binary digits before its trailing zeros. -/
def roundToFloat (n : Nat) : Nat :=
  nearestMultiple (1 <<< (n.log2 + 1 - floatPrecision)) n

theorem roundToFloat_le (n : Nat) : roundToFloat n ≤ 2 * n := by
  rcases Nat.eq_zero_or_pos n with rfl | hpos
  · decide
  · have hunit : 1 <<< (n.log2 + 1 - floatPrecision) ≤ n := by
      rw [Nat.one_shiftLeft]
      refine Nat.le_trans (Nat.pow_le_pow_right (by decide) ?_) (Nat.log2_self_le (by omega))
      rw [floatPrecision]
      omega
    have hround := @nearestMultiple_le (1 <<< (n.log2 + 1 - floatPrecision)) n
    rw [roundToFloat]
    omega

/-- The first number that is too large for binary64. -/
def floatLimit : Nat := 1 <<< 1024

/-- The largest power of ten in the range of binary64 is that of this exponent. -/
def maxDecimalExponent : Nat := 308

/--
Appends digits to a significand for as long as it fits 64 bits. Gives the significand and how many
digits were left out.
-/
def appendDigits : Nat → List Char → Nat × Nat
  | significand, [] => (significand, 0)
  | significand, digit :: rest =>
    let longer := 10 * significand + (digit.toNat - '0'.toNat)
    if longer < UInt64.size then appendDigits longer rest else (significand, rest.length + 1)

theorem le_ofDigitChars (digits : List Char) (significand : Nat) :
    significand ≤ Nat.ofDigitChars 10 digits significand := by
  induction digits generalizing significand with
  | nil => exact Nat.le_refl _
  | cons digit digits ih =>
    rw [Nat.ofDigitChars_cons]
    have := ih (10 * significand + (digit.toNat - '0'.toNat))
    omega

/-- Digits are left out only where the number is too large for 64 bits. -/
theorem appendDigits_of_lt {significand : Nat} {digits : List Char}
    (h : Nat.ofDigitChars 10 digits significand < UInt64.size) :
    appendDigits significand digits = (Nat.ofDigitChars 10 digits significand, 0) := by
  induction digits generalizing significand with
  | nil => rfl
  | cons digit digits ih =>
    rw [Nat.ofDigitChars_cons] at h ⊢
    have hfits : 10 * significand + (digit.toNat - '0'.toNat) < UInt64.size :=
      Nat.lt_of_le_of_lt (le_ofDigitChars digits _) h
    rw [appendDigits, if_pos hfits, ih h]

/-- A significand and the power of ten that goes with it. -/
structure ScaledDigits where
  significand : Nat
  exponent : Int
deriving DecidableEq, Repr

namespace JsonExponent

def value (exponent : JsonExponent) : Int :=
  let magnitude := Nat.ofDigitChars 10 exponent.digits 0
  if exponent.negative then -magnitude else magnitude

end JsonExponent

/-- Is the rounded product of the factors below the end of the range? -/
def ScaledDigits.fitsFloat (scaled : ScaledDigits) : Bool :=
  if scaled.significand = 0 || scaled.exponent < 0 then true
  else if scaled.exponent > maxDecimalExponent then false
  else
    let power := Nat.pow 10 scaled.exponent.toNat
    roundToFloat (roundToFloat scaled.significand * roundToFloat power) < floatLimit

namespace JsonNumber

/-- The digits of a number as far as they fit 64 bits, and the power of ten that goes with them. -/
def scaled (number : JsonNumber) : ScaledDigits :=
  let fraction := number.fraction.getD []
  let (whole, wholeLeft) := appendDigits 0 number.whole
  let (significand, fractionLeft) := appendDigits whole fraction
  let shown : Int := (number.exponent.map (·.value)).getD 0
  { significand, exponent := shown + wholeLeft + fractionLeft - fraction.length }

/-- Is the number in the range of binary64? The sign makes no difference. -/
def fitsFloat (number : JsonNumber) : Bool := number.scaled.fitsFloat

end JsonNumber

example : ScaledDigits.fitsFloat ⟨17976931348623157, 292⟩ = true ∧
    ScaledDigits.fitsFloat ⟨17976931348623158, 292⟩ = false := by decide +kernel

end Unmangle
