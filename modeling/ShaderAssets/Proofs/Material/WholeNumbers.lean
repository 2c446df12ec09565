import ShaderAssets.Material.FromYaml

/-!
# Whole numbers of material files

A whole number in a material file is either the value of the word that it becomes or it gives
no value: none is wrapped or cut off, whatever is declared.  Without a declaration this is so
up to the largest number of sixty-four signed bits.  The numbers above it are not taken for
whole numbers and become the nearest floating-point number.

Main results:

- Theorem {lit}`ofInteger_eq_some_iff`: a whole number becomes the word with its value.
- Theorem {lit}`ofSlot_eq_some_iff`: so does a slot.
- Theorem {lit}`ofYaml_none`: whole numbers without a declaration.
- Theorem {lit}`ofYaml_integer_iff`: which whole numbers give a value, and which one.
-/

namespace ShaderAssets
namespace Material
namespace UniformValue

open Number
open Source (UniformType)

/-- The type that is declared for a sampler of a kind of image. -/
def samplerType : TextureKind → UniformType
  | .flat => .sampler2D
  | .cube => .samplerCube

/-! ## Words -/

/-- A whole number becomes the thirty-two bit word with this value, if there is one. -/
theorem ofInteger_eq_some_iff (n : Int) (x : UniformValue) :
    (ofInteger n).value = some x ↔ ∃ k : Int32, k.toInt = n ∧ x = .int k := by
  unfold ofInteger
  split
  · rename_i hfits
    have hexact : (Int32.ofInt n).toInt = n := Int32.toInt_ofInt_of_le hfits.1 hfits.2
    constructor
    · intro h
      exact ⟨Int32.ofInt n, hexact, (Option.some.inj h).symm⟩
    · rintro ⟨k, rfl, rfl⟩
      exact congrArg (some ∘ UniformValue.int) (Int32.ofInt_toInt k)
  · rename_i hfits
    constructor
    · intro h
      cases h
    · rintro ⟨k, rfl, -⟩
      exact absurd ⟨k.le_toInt, k.toInt_lt⟩ hfits

/-- A number that is not negative becomes the slot with this value, if there is one. -/
theorem ofSlot_eq_some_iff (kind : TextureKind) {n : Int} (hn : 0 ≤ n) (x : UniformValue) :
    (ofSlot kind n).value = some x ↔
      ∃ slot : UInt8, (slot.toNat : Int) = n ∧ x = .sampler kind slot none := by
  obtain ⟨i, rfl⟩ := Int.eq_ofNat_of_zero_le hn
  unfold ofSlot
  split
  · rename_i hfits
    have hexact : i.toUInt8.toNat = i :=
      UInt8.toNat_ofNat_of_lt' (Int.ofNat_lt.mp hfits)
    constructor
    · intro h
      exact ⟨i.toUInt8, congrArg Int.ofNat hexact, (Option.some.inj h).symm⟩
    · rintro ⟨slot, hslot, rfl⟩
      obtain rfl : slot.toNat = i := Int.ofNat.inj hslot
      exact congrArg (fun s => some (UniformValue.sampler kind s none)) UInt8.ofNat_toNat
  · rename_i hfits
    constructor
    · intro h
      cases h
    · rintro ⟨slot, hslot, -⟩
      exact absurd (hslot ▸ Int.ofNat_lt.mpr slot.toNat_lt) hfits

/-! ## Values of material files -/

/-- A value that is a whole number is one of sixty-four signed bits up to a bound. -/
theorem signed?_int (n : Int) :
    signed? (.number (.int n)) = if n < 0x8000000000000000 then some n else none := by
  simp [signed?, Yaml.Value.integerOf?, Yaml.Value.untagged, Option.filter_some]

/-- A value that is a whole number is an unsigned one from zero on. -/
theorem unsigned?_int (n : Int) :
    unsigned? (.number (.int n)) = if 0 ≤ n then some n else none := by
  simp [unsigned?, Yaml.Value.integerOf?, Yaml.Value.untagged, Option.filter_some]

/-- A whole number for a declared whole number. -/
theorem ofYaml_int_eq_some_iff (n : Int) (x : UniformValue) :
    (ofYaml (some .int) (.number (.int n))).value = some x ↔
      ∃ k : Int32, k.toInt = n ∧ x = .int k := by
  rw [ofYaml, ofYamlAs, signed?_int]
  by_cases hn : n < 0x8000000000000000
  · rw [if_pos hn]
    exact ofInteger_eq_some_iff n x
  · rw [if_neg hn]
    constructor
    · intro h
      cases h
    · rintro ⟨k, rfl, -⟩
      have hbound := k.toInt_lt
      omega

/-- A whole number for a declared sampler. -/
theorem ofYaml_sampler_eq_some_iff (kind : TextureKind) (n : Int) (x : UniformValue) :
    (ofYaml (some (samplerType kind)) (.number (.int n))).value = some x ↔
      ∃ slot : UInt8, (slot.toNat : Int) = n ∧ x = .sampler kind slot none := by
  by_cases hn : 0 ≤ n
  · have hread : ofYaml (some (samplerType kind)) (.number (.int n)) = ofSlot kind n := by
      cases kind <;> rw [samplerType, ofYaml, ofYamlAs, unsigned?_int, if_pos hn]
    rw [hread]
    exact ofSlot_eq_some_iff kind hn x
  · have hread : ofYaml (some (samplerType kind)) (.number (.int n)) = pure none := by
      cases kind <;> rw [samplerType, ofYaml, ofYamlAs, unsigned?_int, if_neg hn]
    rw [hread]
    constructor
    · intro h
      cases h
    · rintro ⟨slot, rfl, -⟩
      exact absurd (Int.natCast_nonneg _) hn

/-- A whole number without a declaration is read as for a declared whole number, but from the
first number that sixty-four signed bits do not hold it is a floating-point number. -/
theorem ofYaml_none (n : Int) :
    (ofYaml none (.number (.int n))).value =
      if n < 0x8000000000000000 then (ofYaml (some .int) (.number (.int n))).value
      else some (.float (.ofDouble (.ofInt n))) := by
  rw [ofYaml, ofYaml, ofYamlAs, ofYamlShape, signed?_int]
  by_cases hn : n < 0x8000000000000000
  · rw [if_pos hn, if_pos hn, if_pos hn]
  · rw [if_neg hn, if_neg hn]
    rfl

/-- A whole number gives a value exactly if a word has it, and then the value is that word:
for a declared whole number a word of thirty-two signed bits, for a declared sampler a slot of
eight bits.  Without a declaration it is the same as for a declared whole number exactly up to
the largest number of sixty-four signed bits; from there on the value is the floating-point
number that the whole number rounds to. -/
theorem ofYaml_integer_iff (n : Int) :
    (∀ x, (ofYaml (some .int) (.number (.int n))).value = some x ↔
      ∃ k : Int32, k.toInt = n ∧ x = .int k) ∧
    (∀ kind x, (ofYaml (some (samplerType kind)) (.number (.int n))).value = some x ↔
      ∃ slot : UInt8, (slot.toNat : Int) = n ∧ x = .sampler kind slot none) ∧
    ((∀ x, (ofYaml none (.number (.int n))).value = some x ↔
      ∃ k : Int32, k.toInt = n ∧ x = .int k) ↔ n < 0x8000000000000000) ∧
    (ofYaml none (.number (.int n))).value =
      if n < 0x8000000000000000 then (ofYaml (some .int) (.number (.int n))).value
      else some (.float (.ofDouble (.ofInt n))) := by
  refine ⟨ofYaml_int_eq_some_iff n, fun kind => ofYaml_sampler_eq_some_iff kind n, ?_,
    ofYaml_none n⟩
  rw [ofYaml_none n]
  split
  · rename_i hn
    exact iff_of_true (ofYaml_int_eq_some_iff n) hn
  · rename_i hn
    -- A floating-point number is no word, so the law would leave no value at all.
    refine iff_of_false (fun hlaw => ?_) hn
    obtain ⟨k, -, hk⟩ := (hlaw _).mp rfl
    cases hk

/-- The first number that sixty-four signed bits do not hold, and the one behind it, become the
same floating-point number when nothing is declared. -/
theorem large_integer_becomes_float :
    (ofYaml none (.number (.int 0x8000000000000000))).value = some (.float ⟨0x5f000000⟩) ∧
    (ofYaml none (.number (.int 0x8000000000000001))).value = some (.float ⟨0x5f000000⟩) ∧
    ¬∀ n : Int, -0x8000000000000000 ≤ n → n < 0x10000000000000000 →
      ∀ x, (ofYaml none (.number (.int n))).value = some x ↔
        ∃ k : Int32, k.toInt = n ∧ x = .int k := by
  refine ⟨by decide +kernel, by decide +kernel, fun hall => ?_⟩
  have hlaw := hall 0x8000000000000000 (by decide) (by decide) (.float ⟨0x5f000000⟩)
  obtain ⟨k, -, hk⟩ := hlaw.mp (by decide +kernel)
  cases hk

end UniformValue
end Material
end ShaderAssets
