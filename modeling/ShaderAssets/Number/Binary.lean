import ShaderAssets.Number.Decimal

/-!
# Binary floating-point formats

The non-negative numbers of a binary format are numbered in increasing order.
The code of a number is its rank, so rounding to the format is rounding to a
rank, and the carry from one exponent to the next is ordinary addition.

Main results:

- Lemma {lit}`roundHalfEven_of_dvd`: an exact quotient is kept.
- Lemma {lit}`BinaryFormat.nearest_scale`: rounding a ratio depends on its
  value only, not on how it is written.
-/

namespace ShaderAssets
namespace Number

/-- The whole number nearest to `num / den`; a tie goes to the even one. -/
def roundHalfEven (num den : Nat) : Nat :=
  let low := num / den
  let rest := num % den
  if 2 * rest < den then low
  else if den < 2 * rest then low + 1
  else if low % 2 = 0 then low
  else low + 1

/-- An exact quotient is kept. -/
theorem roundHalfEven_of_dvd {num den : Nat} (hden : 0 < den) (h : den ∣ num) :
    roundHalfEven num den = num / den := by
  have hrest : num % den = 0 := Nat.mod_eq_zero_of_dvd h
  simp [roundHalfEven, hrest, hden]

/-- A common factor does not change the nearest whole number. -/
theorem roundHalfEven_mul_right {num den k : Nat} (hk : 0 < k) :
    roundHalfEven (num * k) (den * k) = roundHalfEven num den := by
  have hdiv : num * k / (den * k) = num / den := Nat.mul_div_mul_right num den hk
  have hmod : num * k % (den * k) = num % den * k := Nat.mul_mod_mul_right k num den
  have hlt : 2 * (num % den * k) < den * k ↔ 2 * (num % den) < den := by
    rw [← Nat.mul_assoc]
    exact Nat.mul_lt_mul_right hk
  have hgt : den * k < 2 * (num % den * k) ↔ den < 2 * (num % den) := by
    rw [← Nat.mul_assoc]
    exact Nat.mul_lt_mul_right hk
  simp only [roundHalfEven, hdiv, hmod, hlt, hgt]

/-- A binary format with `fraction` stored significand bits, whose smallest
positive number is `2 ^ (-scale)` and whose infinity has code `infinity`. -/
structure BinaryFormat where
  fraction : Nat
  scale : Nat
  infinity : Nat
deriving DecidableEq, Repr

namespace BinaryFormat

/-- The 32-bit interchange format. -/
def single : BinaryFormat := ⟨23, 149, 0x7f800000⟩

/-- The 64-bit interchange format. -/
def double : BinaryFormat := ⟨52, 1074, 0x7ff0000000000000⟩

/-- The code of the number of the format nearest to `num / den`; a tie goes to
the even code, and what exceeds every finite number goes to infinity. -/
def nearest (f : BinaryFormat) (num den : Nat) : Nat :=
  let units := num * Nat.pow 2 f.scale
  let shift := Nat.log2 (units / den) - f.fraction
  min f.infinity (shift * Nat.pow 2 f.fraction + roundHalfEven units (den * Nat.pow 2 shift))

/-- Rounding a ratio depends on its value only. -/
theorem nearest_scale (f : BinaryFormat) {num den k : Nat} (hk : 0 < k) :
    f.nearest (num * k) (den * k) = f.nearest num den := by
  have hunits : num * k * Nat.pow 2 f.scale = num * Nat.pow 2 f.scale * k := Nat.mul_right_comm ..
  have hdiv : num * Nat.pow 2 f.scale * k / (den * k) = num * Nat.pow 2 f.scale / den :=
    Nat.mul_div_mul_right _ _ hk
  have hden : ∀ shift, den * k * Nat.pow 2 shift = den * Nat.pow 2 shift * k :=
    fun shift => Nat.mul_right_comm ..
  simp only [nearest, hunits, hdiv, hden, roundHalfEven_mul_right hk]

/-- The code of the number nearest to a decimal number.  Orders beyond the
format's scale are settled without computing the power of ten. -/
def ofDecimal (f : BinaryFormat) (d : Decimal) : Nat :=
  if d.digits = 0 then 0
  else if (f.scale : Int) < d.order then f.infinity
  else if d.order < -(f.scale : Int) then 0
  else f.nearest (d.digits * Nat.pow 10 d.exponent.toNat) (Nat.pow 10 (-d.exponent).toNat)

/-- The number with a finite code, in units of the smallest positive number. -/
def units (f : BinaryFormat) (code : Nat) : Nat :=
  let exponent := code / Nat.pow 2 f.fraction
  if exponent = 0 then code
  else (code % Nat.pow 2 f.fraction + Nat.pow 2 f.fraction) * Nat.pow 2 (exponent - 1)

end BinaryFormat

end Number
end ShaderAssets
