import ShaderAssets.Number.Layout
import ShaderAssets.Proofs.Number.Shortest
import ShaderAssets.Proofs.Text.Trim

/-!
# Displayed numbers read back

The positional text of a decimal number denotes it, so the displayed form of a
single precision number that is not "not a number" is read as exactly that
number, signed zeros and infinities included.

Main results:

- Theorem {lit}`readDecimal?_positional`: positional text denotes its decimal.
- Theorem {lit}`read?_display`: a displayed number reads back bit by bit.
- Theorem {lit}`display_chars`: a displayed number is made of letters, digits,
  points and signs.
-/

namespace ShaderAssets
namespace Number

open Text

/-! ## Digits -/

/-- The text of a whole number consists of digits. -/
theorem isDigit_of_mem_natText {n : Nat} {c : Char} (h : c ∈ natText n) : c.isDigit = true :=
  Nat.isDigit_of_mem_toDigits (by decide) (by decide) h

/-- The text of a whole number is not empty. -/
theorem natText_ne_nil (n : Nat) : natText n ≠ [] :=
  Nat.toDigits_ne_nil

/-- Zeros after a number multiply it by a power of ten. -/
theorem readDigitsFrom_replicate (value k : Nat) :
    readDigitsFrom 10 value (List.replicate k '0') = some (value * Nat.pow 10 k) := by
  induction k generalizing value with
  | zero => simp [readDigitsFrom]
  | succ k ih =>
      have hzero : digitValue? 10 '0' = some 0 := by decide
      rw [List.replicate_succ, readDigitsFrom, hzero]
      simp only [Option.bind_eq_bind, Option.bind_some, Nat.add_zero]
      have hpow : Nat.pow 10 (k + 1) = Nat.pow 10 k * 10 := Nat.pow_succ 10 k
      rw [ih, hpow, Nat.mul_comm 10 value, Nat.mul_assoc, Nat.mul_comm 10]

/-- Reading digits is reading them after zero. -/
theorem readDigits?_of_ne_nil {base : Nat} {s : List Char} (h : s ≠ []) :
    readDigits? base s = readDigitsFrom base 0 s := by
  cases s with
  | nil => exact absurd rfl h
  | cons c s => rfl

/-- Digits in front of something else are found by looking for digits. -/
theorem spanDigits_append {s t : List Char} (hs : ∀ c ∈ s, c.isDigit = true)
    (ht : ∀ c, t.head? = some c → c.isDigit = false) :
    Numeral.spanDigits (s ++ t) = (s, t) := by
  rw [Numeral.spanDigits, takeWhile_append hs ht, List.dropWhile_append_of_pos hs,
    dropWhile_eq_self ht]

/-- A run of digits alone is all digits. -/
theorem spanDigits_digits {s : List Char} (hs : ∀ c ∈ s, c.isDigit = true) :
    Numeral.spanDigits s = (s, []) := by
  simpa using spanDigits_append hs (t := []) (by simp)

/-! ## Positional text -/

namespace Decimal

/-- The same number with an exponent that is not positive. -/
def spelledOut (d : Decimal) : Decimal :=
  if 0 ≤ d.exponent then ⟨d.digits * Nat.pow 10 d.exponent.toNat, 0⟩ else d

/-- Trailing zeros count as digits. -/
theorem digitCount_mul_pow {n : Nat} (h : n ≠ 0) (k : Nat) :
    digitCount (n * Nat.pow 10 k) = digitCount n + k := by
  induction k with
  | zero => simp
  | succ k ih =>
      have hpow : Nat.pow 10 (k + 1) = Nat.pow 10 k * 10 := Nat.pow_succ 10 k
      have hpos : 0 < n * Nat.pow 10 k :=
        Nat.mul_pos (Nat.pos_of_ne_zero h) (Nat.pow_pos (by decide))
      have hdigits : Nat.toDigits 10 (n * Nat.pow 10 k * 10) =
          Nat.toDigits 10 (n * Nat.pow 10 k) ++ [Nat.digitChar 0] := by
        rw [Nat.toDigits_of_base_le (by decide) (by omega)]
        congr 2
        · omega
        · congr 1
          omega
      rw [hpow, ← Nat.mul_assoc]
      simp only [digitCount, hdigits, List.length_append, List.length_singleton] at ih ⊢
      omega

/-- Spelling a number out does not change how it is rounded. -/
theorem ofDecimal_spelledOut (f : BinaryFormat) (d : Decimal) :
    f.ofDecimal d.spelledOut = f.ofDecimal d := by
  unfold spelledOut
  split
  · rename_i hexp
    by_cases hzero : d.digits = 0
    · simp [BinaryFormat.ofDecimal, hzero]
    · have hne : d.digits * Nat.pow 10 d.exponent.toNat ≠ 0 :=
        Nat.mul_ne_zero hzero (Nat.ne_of_gt (Nat.pow_pos (by decide)))
      have horder : order ⟨d.digits * Nat.pow 10 d.exponent.toNat, 0⟩ = d.order := by
        simp only [order, digitCount_mul_pow hzero]
        omega
      have hnum : d.digits * Nat.pow 10 d.exponent.toNat * Nat.pow 10 (Int.toNat 0) =
          d.digits * Nat.pow 10 d.exponent.toNat := Nat.mul_one _
      have hden : Nat.pow 10 (-d.exponent).toNat = Nat.pow 10 (-(0 : Int)).toNat := by
        rw [show (-d.exponent).toNat = 0 by omega]
        rfl
      simp only [BinaryFormat.ofDecimal, if_neg hne, if_neg hzero, horder, hnum, hden]
  · rfl

end Decimal

/-- Zeros are digits. -/
theorem isDigit_of_mem_replicate {k : Nat} {c : Char} (h : c ∈ List.replicate k '0') :
    c.isDigit = true := by
  rw [(List.mem_replicate.mp h).2]
  decide

/-- Digits alone denote a whole number. -/
theorem readDecimal?_digits {s : List Char} {n : Nat} (hs : ∀ c ∈ s, c.isDigit = true)
    (hread : readDigits? 10 s = some n) : Numeral.readDecimal? s = some ⟨n, 0⟩ := by
  simp [Numeral.readDecimal?, spanDigits_digits hs, Numeral.readExponent?, hread]

/-- The digits after a point count down the exponent. -/
theorem readDecimal?_point {whole fraction : List Char} {n : Nat}
    (hwhole : ∀ c ∈ whole, c.isDigit = true) (hfraction : ∀ c ∈ fraction, c.isDigit = true)
    (hread : readDigits? 10 (whole ++ fraction) = some n) :
    Numeral.readDecimal? (whole ++ '.' :: fraction) = some ⟨n, 0 - fraction.length⟩ := by
  have hpoint : ∀ c, ('.' :: fraction).head? = some c → c.isDigit = false := by
    intro c hc
    obtain rfl : '.' = c := by simpa using hc
    decide
  simp [Numeral.readDecimal?, spanDigits_append hwhole hpoint, spanDigits_digits hfraction,
    Numeral.readExponent?, hread]

/-- Positional text denotes its decimal, spelled out. -/
theorem readDecimal?_positional (d : Decimal) :
    Numeral.readDecimal? d.positional = some d.spelledOut := by
  have hdigits : ∀ c ∈ natText d.digits, c.isDigit = true := fun c => isDigit_of_mem_natText
  have hvalue : readDigitsFrom 10 0 (natText d.digits) = some d.digits :=
    readDigitsFrom_toDigits d.digits
  unfold Decimal.positional Decimal.spelledOut
  split
  · -- whole numbers: zeros take the place of the exponent
    apply readDecimal?_digits
    · intro c hc
      rcases List.mem_append.mp hc with hc | hc
      · exact hdigits c hc
      · exact isDigit_of_mem_replicate hc
    · rw [readDigits?_of_ne_nil (by simp [natText_ne_nil]), readDigitsFrom_append, hvalue]
      exact readDigitsFrom_replicate d.digits d.exponent.toNat
  · rename_i hexp
    dsimp only
    split
    · -- the point stands among the digits
      generalize hk : (natText d.digits).length - (-d.exponent).toNat = k
      have hexponent : (0 : Int) - ((natText d.digits).drop k).length = d.exponent := by
        rw [List.length_drop]
        omega
      have hread : readDigits? 10 ((natText d.digits).take k ++ (natText d.digits).drop k) =
          some d.digits := by
        rw [List.take_append_drop, readDigits?_of_ne_nil (natText_ne_nil d.digits), hvalue]
      rw [readDecimal?_point (fun c hc => hdigits c (List.mem_of_mem_take hc))
        (fun c hc => hdigits c (List.mem_of_mem_drop hc)) hread, hexponent]
    · -- zeros stand between the point and the digits
      generalize hk : (-d.exponent).toNat - (natText d.digits).length = k
      have hfraction : ∀ c ∈ List.replicate k '0' ++ natText d.digits, c.isDigit = true := by
        intro c hc
        rcases List.mem_append.mp hc with hc | hc
        · exact isDigit_of_mem_replicate hc
        · exact hdigits c hc
      have hexponent : (0 : Int) - (List.replicate k '0' ++ natText d.digits).length =
          d.exponent := by
        rw [List.length_append, List.length_replicate]
        omega
      have hread : readDigits? 10 (['0'] ++ (List.replicate k '0' ++ natText d.digits)) =
          some d.digits := by
        have hzeros := readDigitsFrom_replicate 0 (k + 1)
        rw [List.replicate_succ, Nat.zero_mul] at hzeros
        rw [readDigits?_of_ne_nil (by simp), ← List.append_assoc, readDigitsFrom_append,
          List.singleton_append, hzeros, Option.bind_some, hvalue]
      have hpoint := readDecimal?_point (by decide) hfraction hread
      rw [hexponent] at hpoint
      exact hpoint

/-- Positional text begins with a digit and consists of digits and a point. -/
theorem positional_chars (d : Decimal) :
    (∃ c rest, d.positional = c :: rest ∧ c.isDigit = true) ∧
      ∀ c ∈ d.positional, c.isDigit = true ∨ c = '.' := by
  have hdigits : ∀ c ∈ natText d.digits, c.isDigit = true := fun c => isDigit_of_mem_natText
  obtain ⟨first, more, hfirst⟩ := List.exists_cons_of_ne_nil (natText_ne_nil d.digits)
  have hhead : first.isDigit = true := hdigits first (by simp [hfirst])
  unfold Decimal.positional
  split
  · refine ⟨⟨first, _, by rw [hfirst, List.cons_append], hhead⟩, ?_⟩
    intro c hc
    rcases List.mem_append.mp hc with hc | hc
    · exact Or.inl (hdigits c hc)
    · exact Or.inl (isDigit_of_mem_replicate hc)
  · dsimp only
    split
    · rename_i hplaces
      constructor
      · obtain ⟨k, hk⟩ : ∃ k, (natText d.digits).length - (-d.exponent).toNat = k + 1 :=
          ⟨_, (Nat.succ_pred_eq_of_pos (by omega)).symm⟩
        rw [hk, hfirst]
        exact ⟨first, _, rfl, hhead⟩
      · intro c hc
        simp only [List.mem_append, List.mem_cons] at hc
        rcases hc with hc | rfl | hc
        · exact Or.inl (hdigits c (List.mem_of_mem_take hc))
        · exact Or.inr rfl
        · exact Or.inl (hdigits c (List.mem_of_mem_drop hc))
    · refine ⟨⟨'0', _, rfl, by decide⟩, ?_⟩
      intro c hc
      simp only [List.mem_cons, List.mem_append] at hc
      rcases hc with rfl | rfl | hc | hc
      · exact Or.inl (by decide)
      · exact Or.inr rfl
      · exact Or.inl (isDigit_of_mem_replicate hc)
      · exact Or.inl (hdigits c hc)

/-! ## Numerals -/

/-- Text that begins with a digit is no word for a special value. -/
theorem readMagnitude?_of_isDigit {c : Char} {s : List Char} (h : c.isDigit = true) :
    Numeral.readMagnitude? (c :: s) = (Numeral.readDecimal? (c :: s)).map .finite := by
  have hlower : c.toLower = c := by
    have hrange : ¬(c.toNat ≥ 65 ∧ c.toNat ≤ 90) := by
      simp only [Char.isDigit, Bool.and_eq_true, decide_eq_true_eq] at h
      have hle : c.toNat ≤ 57 := h.2
      omega
    exact dif_neg hrange
  have hword : ∀ (d : Char) (word : String), d.isDigit = false →
      word.toList.head? = some d → String.ofList ((c :: s).map Char.toLower) ≠ word := by
    rintro d word hd hhead rfl
    rw [String.toList_ofList, List.map_cons, hlower, List.head?_cons] at hhead
    rw [Option.some.inj hhead, hd] at h
    exact Bool.noConfusion h
  have hinf := hword 'i' "inf" (by decide) (by decide)
  have hinfinity := hword 'i' "infinity" (by decide) (by decide)
  have hnan := hword 'n' "nan" (by decide) (by decide)
  simp only [Numeral.readMagnitude?, hinf, hinfinity, hnan, or_self, if_false]

/-- Text that begins with a digit has no sign. -/
theorem read?_of_isDigit {c : Char} {s : List Char} (h : c.isDigit = true) :
    Numeral.read? (c :: s) = (Numeral.readMagnitude? (c :: s)).map (⟨false, ·⟩) := by
  have hplus : c ≠ '+' := by
    rintro rfl
    exact absurd h (by decide)
  have hminus : c ≠ '-' := by
    rintro rfl
    exact absurd h (by decide)
  rw [Numeral.read?]
  · intro t ht
    exact hplus (List.cons.inj ht).1
  · intro t ht
    exact hminus (List.cons.inj ht).1

/-! ## Single precision numbers -/

namespace Single

/-- A number is its sign and the code of its magnitude. -/
theorem ofCode_code (x : Single) : ofCode x.negative x.code = x := by
  obtain ⟨bits⟩ := x
  have hsize : bits.toNat < 0x100000000 := bits.toNat_lt_size
  have hbits : (if (0x80000000 : Nat) ≤ bits.toNat then 0x80000000 else 0) +
      bits.toNat % 0x80000000 % 0x80000000 = bits.toNat := by
    split <;> omega
  simp only [ofCode, negative, code, decide_eq_true_eq, hbits]
  congr 1
  exact UInt32.ofNat_toNat

/-- The displayed digits of a finite number denote its magnitude. -/
theorem readMagnitude?_shortest {x : Single} {tie : TieRule} :
    Numeral.readMagnitude? (x.shortest tie).positional =
      some (.finite (x.shortest tie).spelledOut) := by
  obtain ⟨⟨c, rest, heq, hc⟩, -⟩ := positional_chars (x.shortest tie)
  rw [heq, readMagnitude?_of_isDigit hc, ← heq, readDecimal?_positional]
  rfl

/-- Reading a text with a sign in front. -/
theorem read?_withSign {x : Single} {text : List Char} {m : Magnitude}
    (hread : Numeral.readMagnitude? text = some m)
    (hsign : Numeral.read? text = (Numeral.readMagnitude? text).map (⟨false, ·⟩)) :
    Numeral.read? (x.withSign text) = some ⟨x.negative, m⟩ := by
  unfold withSign
  split
  · rename_i hneg
    simp [Numeral.read?, hread, hneg]
  · rename_i hneg
    simp [hsign, hread, hneg]

/-- A displayed number reads back bit by bit. -/
theorem read?_display {x : Single} (h : x.isNaN = false) : read? x.display = some x := by
  have hle : x.code ≤ BinaryFormat.single.infinity := by
    simpa [isNaN] using h
  unfold display
  rw [if_neg (by simp [h])]
  split
  · rename_i hinf
    have hcode : BinaryFormat.single.infinity = x.code := by
      simpa [isInfinite] using (eq_comm.mp (beq_iff_eq.mp hinf))
    have hread : Numeral.readMagnitude? ['i', 'n', 'f'] = some .infinite := by decide
    rw [read?, read?_withSign hread (by decide)]
    simp only [Option.map_some, ofNumeral, hcode, ofCode_code]
  · rename_i hinf
    have hlt : x.code < BinaryFormat.single.infinity := by
      have hne : x.code ≠ BinaryFormat.single.infinity := by simpa [isInfinite] using hinf
      omega
    obtain ⟨⟨c, rest, heq, hc⟩, -⟩ := positional_chars (x.shortest .awayFromZero)
    have hsign : Numeral.read? (x.shortest .awayFromZero).positional =
        (Numeral.readMagnitude? (x.shortest .awayFromZero).positional).map (⟨false, ·⟩) := by
      rw [heq, read?_of_isDigit hc]
    rw [read?, read?_withSign readMagnitude?_shortest hsign]
    simp only [Option.map_some, ofNumeral, ofDecimal, Decimal.ofDecimal_spelledOut,
      ofDecimal_shortest .awayFromZero hlt, ofCode_code]

/-- A displayed number is not empty and is made of letters, digits, points and
minus signs. -/
theorem display_chars (x : Single) :
    x.display ≠ [] ∧ ∀ c ∈ x.display, c.isAlphanum = true ∨ c = '.' ∨ c = '-' := by
  have hsigned : ∀ text : List Char, text ≠ [] →
      (∀ c ∈ text, c.isAlphanum = true ∨ c = '.' ∨ c = '-') →
      x.withSign text ≠ [] ∧
        ∀ c ∈ x.withSign text, c.isAlphanum = true ∨ c = '.' ∨ c = '-' := by
    intro text hne htext
    unfold withSign
    split
    · refine ⟨by simp, ?_⟩
      intro c hc
      rcases List.mem_cons.mp hc with rfl | hc
      · exact Or.inr (Or.inr rfl)
      · exact htext c hc
    · exact ⟨hne, htext⟩
  unfold display
  split
  · exact ⟨by simp, by decide⟩
  · split
    · exact hsigned _ (by simp) (by decide)
    · obtain ⟨⟨c, rest, heq, -⟩, hchars⟩ := positional_chars (x.shortest .awayFromZero)
      refine hsigned _ (by simp [heq]) ?_
      intro c hc
      rcases hchars c hc with hdigit | hpoint
      · exact Or.inl (by simp [Char.isAlphanum, hdigit])
      · exact Or.inr (Or.inl hpoint)

end Single

end Number
end ShaderAssets
