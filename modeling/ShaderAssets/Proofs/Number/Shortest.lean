import ShaderAssets.Number.Shortest

/-!
# The shortest decimal reads back

Rounding to a binary format keeps the numbers of the format.  The decimal grid
`10 ^ (-149)` holds every finite single precision number, so the search for the
shortest decimal always ends with one that is rounded to the number again.

Main results:

- Theorem {lit}`nearest_units`: a number of a format is the nearest one to itself.
- Theorem {lit}`readsBack_search`: the search ends with a decimal that reads back,
  on whatever grid it starts.
- Theorem {lit}`ofDecimal_shortest`: the shortest decimal of a finite number is
  rounded to that number.
-/

namespace ShaderAssets
namespace Number

/-! ## Numbers of a format -/

namespace BinaryFormat

/-- The units of a number are its significand moved to its exponent.  Only at the
lowest exponent is the significand short. -/
theorem units_eq_mul (f : BinaryFormat) (code : Nat) :
    ∃ significand, f.units code =
        significand * Nat.pow 2 (code / Nat.pow 2 f.fraction - 1) ∧
      (code / Nat.pow 2 f.fraction - 1) * Nat.pow 2 f.fraction + significand = code ∧
      significand < Nat.pow 2 (f.fraction + 1) ∧
      (code / Nat.pow 2 f.fraction - 1 ≠ 0 → Nat.pow 2 f.fraction ≤ significand) := by
  have hpos : 0 < Nat.pow 2 f.fraction := Nat.pow_pos (by decide)
  have hmod : code % Nat.pow 2 f.fraction < Nat.pow 2 f.fraction := Nat.mod_lt _ hpos
  have hcode : code / Nat.pow 2 f.fraction * Nat.pow 2 f.fraction +
      code % Nat.pow 2 f.fraction = code := Nat.div_add_mod' code _
  have hdouble : Nat.pow 2 (f.fraction + 1) = Nat.pow 2 f.fraction * 2 :=
    Nat.pow_succ 2 f.fraction
  cases he : code / Nat.pow 2 f.fraction with
  | zero =>
      have hunits : f.units code = code := if_pos he
      rw [he, Nat.zero_mul, Nat.zero_add] at hcode
      refine ⟨code, ?_, ?_, by omega, fun h => absurd rfl h⟩
      · rw [hunits]
        exact (Nat.mul_one code).symm
      · simp
  | succ e =>
      have hne : ¬code / Nat.pow 2 f.fraction = 0 := by omega
      have hunits : f.units code = (code % Nat.pow 2 f.fraction + Nat.pow 2 f.fraction) *
          Nat.pow 2 (code / Nat.pow 2 f.fraction - 1) := if_neg hne
      rw [he, Nat.succ_mul] at hcode
      refine ⟨code % Nat.pow 2 f.fraction + Nat.pow 2 f.fraction, ?_, ?_, by omega,
        fun _ => by omega⟩
      · rw [hunits, he]
      · rw [Nat.add_sub_cancel]
        omega

/-- The units of a number have as many bits as its significand and its exponent
ask for. -/
theorem log2_units_sub (f : BinaryFormat) (code : Nat) :
    Nat.log2 (f.units code) - f.fraction = code / Nat.pow 2 f.fraction - 1 := by
  obtain ⟨significand, hunits, -, hlt, hge⟩ := f.units_eq_mul code
  generalize code / Nat.pow 2 f.fraction - 1 = shift at *
  by_cases hshift : shift = 0
  · have heq : f.units code = significand := by simpa [hshift] using hunits
    by_cases hzero : significand = 0
    · rw [heq, hzero, Nat.log2_zero, hshift, Nat.zero_sub]
    · have hlog : significand.log2 < f.fraction + 1 := (Nat.log2_lt hzero).mpr hlt
      rw [heq, hshift]
      omega
  · have hge := hge hshift
    have hpos : 0 < Nat.pow 2 f.fraction := Nat.pow_pos (by decide)
    have hpow : 0 < Nat.pow 2 shift := Nat.pow_pos (by decide)
    have hne : f.units code ≠ 0 := by
      rw [hunits]
      exact Nat.mul_ne_zero (by omega) (by omega)
    have hlog : (f.units code).log2 = f.fraction + shift := by
      refine (Nat.log2_eq_iff hne).mpr ⟨?_, ?_⟩
      · rw [Nat.pow_add, hunits]
        exact Nat.mul_le_mul_right _ hge
      · rw [Nat.add_right_comm, Nat.pow_add, hunits]
        exact Nat.mul_lt_mul_of_pos_right hlt hpow
    omega

/-- A number of a format is the nearest one to itself. -/
theorem nearest_units (f : BinaryFormat) {code : Nat} (h : code ≤ f.infinity) :
    f.nearest (f.units code) (Nat.pow 2 f.scale) = code := by
  have hscale : 0 < Nat.pow 2 f.scale := Nat.pow_pos (by decide)
  obtain ⟨significand, hunits, hcode, -, -⟩ := f.units_eq_mul code
  have hshift : Nat.log2 (f.units code * Nat.pow 2 f.scale / Nat.pow 2 f.scale) - f.fraction =
      code / Nat.pow 2 f.fraction - 1 := by
    rw [Nat.mul_div_cancel _ hscale, log2_units_sub]
  have hpow : 0 < Nat.pow 2 (code / Nat.pow 2 f.fraction - 1) := Nat.pow_pos (by decide)
  have hden : 0 < Nat.pow 2 f.scale * Nat.pow 2 (code / Nat.pow 2 f.fraction - 1) :=
    Nat.mul_pos hscale hpow
  have hnum : f.units code * Nat.pow 2 f.scale =
      significand * (Nat.pow 2 f.scale * Nat.pow 2 (code / Nat.pow 2 f.fraction - 1)) := by
    rw [hunits, Nat.mul_assoc, Nat.mul_comm (Nat.pow 2 _) (Nat.pow 2 f.scale)]
  have hround : roundHalfEven (f.units code * Nat.pow 2 f.scale)
      (Nat.pow 2 f.scale * Nat.pow 2 (code / Nat.pow 2 f.fraction - 1)) = significand := by
    rw [roundHalfEven_of_dvd hden ⟨significand, by rw [hnum, Nat.mul_comm]⟩, hnum,
      Nat.mul_div_cancel _ hden]
  simp only [nearest, hshift, hround, hcode]
  exact Nat.min_eq_right h

/-- The units of a finite single precision number have at most ninety digits. -/
theorem single_units_lt {code : Nat} (h : code < single.infinity) :
    single.units code < Nat.pow 10 90 := by
  obtain ⟨significand, hunits, -, hlt, -⟩ := single.units_eq_mul code
  have hshift : code / Nat.pow 2 single.fraction - 1 ≤ 253 := by
    have hdiv : code / Nat.pow 2 23 < 255 := Nat.div_lt_of_lt_mul h
    show code / Nat.pow 2 23 - 1 ≤ 253
    omega
  rw [hunits]
  calc significand * Nat.pow 2 (code / Nat.pow 2 single.fraction - 1)
      ≤ significand * Nat.pow 2 253 :=
        Nat.mul_le_mul_left _ (Nat.pow_le_pow_right (by decide) hshift)
    _ < Nat.pow 2 24 * Nat.pow 2 253 :=
        Nat.mul_lt_mul_of_pos_right hlt (Nat.pow_pos (by decide))
    _ ≤ Nat.pow 10 90 := by decide

end BinaryFormat

/-! ## The search -/

namespace Shortest

open BinaryFormat

/-- What a grid offers reads back. -/
theorem readsBack_onGrid {tie : TieRule} {code : Nat} {e : Int} {d : Decimal}
    (h : onGrid? tie code e = some d) : readsBack code d = true := by
  simp only [onGrid?] at h
  split at h
  · rename_i hlow hhigh
    obtain rfl := Option.some.inj h
    cases tie <;> dsimp only <;> split <;> assumption
  · rename_i hlow _
    exact Option.some.inj h ▸ hlow
  · rename_i _ hhigh
    exact Option.some.inj h ▸ hhigh
  · contradiction

/-- The exact value on the last grid, whose exponent is that of `5 ^ 149`. -/
theorem exact_digits (code : Nat) :
    (ratio code exact).1 / (ratio code exact).2 = single.units code * Nat.pow 5 149 := by
  have hsplit : Nat.pow 10 149 = Nat.pow 5 149 * Nat.pow 2 149 := by decide
  have hratio : ratio code exact = (single.units code * Nat.pow 10 149, Nat.pow 2 149 * 1) := rfl
  rw [hratio, hsplit, Nat.mul_one, ← Nat.mul_assoc]
  exact Nat.mul_div_cancel _ (Nat.pow_pos (by decide))

/-- The last grid holds every finite number, so its decimal reads back. -/
theorem readsBack_exact {code : Nat} (hzero : code ≠ 0) (h : code < single.infinity) :
    readsBack code ⟨(ratio code exact).1 / (ratio code exact).2, exact⟩ = true := by
  rw [exact_digits, readsBack, beq_iff_eq]
  have hunits : 0 < single.units code := by
    obtain ⟨significand, hunits, hcode, -, hge⟩ := single.units_eq_mul code
    have hpos : 0 < Nat.pow 2 single.fraction := Nat.pow_pos (by decide)
    have hsig : 0 < significand := by
      by_cases hshift : code / Nat.pow 2 single.fraction - 1 = 0
      · rw [hshift, Nat.zero_mul, Nat.zero_add] at hcode
        omega
      · exact Nat.lt_of_lt_of_le hpos (hge hshift)
    rw [hunits]
    exact Nat.mul_pos hsig (Nat.pow_pos (by decide))
  have hdigits : single.units code * Nat.pow 5 149 ≠ 0 :=
    Nat.mul_ne_zero (by omega) (by decide)
  have hlength : Decimal.digitCount (single.units code * Nat.pow 5 149) ≤ 250 := by
    refine (Nat.length_toDigits_le_iff (by decide) (by decide)).mpr ?_
    calc single.units code * Nat.pow 5 149
        < Nat.pow 10 90 * Nat.pow 5 149 :=
          Nat.mul_lt_mul_of_pos_right (single_units_lt h) (Nat.pow_pos (by decide))
      _ ≤ Nat.pow 10 250 := by decide
  have hhigh : ¬((single.scale : Int) <
      Decimal.order ⟨single.units code * Nat.pow 5 149, exact⟩) := by
    have hscale : (single.scale : Int) = 149 := rfl
    simp only [Decimal.order, exact]
    omega
  have hlow : ¬(Decimal.order ⟨single.units code * Nat.pow 5 149, exact⟩ <
      -(single.scale : Int)) := by
    have hscale : (single.scale : Int) = 149 := rfl
    simp only [Decimal.order, exact]
    omega
  rw [ofDecimal, if_neg hdigits, if_neg hhigh, if_neg hlow]
  have hden : Nat.pow 10 (-exact).toNat = Nat.pow 2 single.scale * Nat.pow 5 149 := by decide
  have hnum : Nat.pow 10 exact.toNat = 1 := by decide
  have hfive : 0 < Nat.pow 5 149 := Nat.pow_pos (by decide)
  rw [hden, hnum, Nat.mul_one]
  exact (nearest_scale single hfive).trans (nearest_units single (Nat.le_of_lt h))

/-- The search ends with a decimal that reads back, on whatever grid it starts. -/
theorem readsBack_search (tie : TieRule) {code : Nat} (hzero : code ≠ 0)
    (h : code < single.infinity) (steps : Nat) :
    readsBack code (search tie code steps) = true := by
  induction steps with
  | zero => exact readsBack_exact hzero h
  | succ steps ih =>
      rw [search]
      cases hgrid : onGrid? tie code (exact + (steps + 1 : Nat)) with
      | none => exact ih
      | some d => exact readsBack_onGrid hgrid

end Shortest

/-- The shortest decimal of a finite number is rounded to that number. -/
theorem ofDecimal_shortest (tie : TieRule) {x : Single}
    (h : x.code < BinaryFormat.single.infinity) :
    BinaryFormat.single.ofDecimal (x.shortest tie) = x.code := by
  rw [Single.shortest]
  split
  · rename_i hzero
    rw [hzero]
    rfl
  · rename_i hzero
    exact beq_iff_eq.mp (Shortest.readsBack_search tie hzero h _)

end Number
end ShaderAssets
