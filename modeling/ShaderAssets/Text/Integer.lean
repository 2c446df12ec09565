import ShaderAssets.Text.Split

/-!
# Whole numbers in text

Reading whole numbers in a given base, with or without a sign, and refusing
those outside a range.  A sign must be followed by a digit, and no separators
are accepted.

Main results:

- Lemma {lit}`readDigits?_toDigits`: the decimal digits of a number read back.
-/

namespace ShaderAssets
namespace Text

/-- The value of a letter or digit in a base of at most sixteen. -/
def digitValue? (base : Nat) (c : Char) : Option Nat :=
  let value :=
    if '0' ≤ c ∧ c ≤ '9' then c.toNat - 48
    else if 'a' ≤ c ∧ c ≤ 'f' then c.toNat - 87
    else if 'A' ≤ c ∧ c ≤ 'F' then c.toNat - 55
    else base
  if value < base then some value else none

/-- The number that a run of digits denotes after the number `value`. -/
def readDigitsFrom (base : Nat) : Nat → List Char → Option Nat
  | value, [] => some value
  | value, c :: s => do
      let d ← digitValue? base c
      readDigitsFrom base (base * value + d) s

/-- The number that a text of at least one digit denotes. -/
def readDigits? (base : Nat) : List Char → Option Nat
  | [] => none
  | s => readDigitsFrom base 0 s

/-- A number below `bound`, with an optional plus sign. -/
def readUnsigned? (base bound : Nat) (s : List Char) : Option Nat := do
  let n ← match s with
    | '+' :: digits => readDigits? base digits
    | digits => readDigits? base digits
  if n < bound then some n else none

/-- A number from `low` to `high`, with an optional sign. -/
def readSigned? (base : Nat) (low high : Int) (s : List Char) : Option Int := do
  let n : Int ← match s with
    | '+' :: digits => (readDigits? base digits).map Int.ofNat
    | '-' :: digits => (readDigits? base digits).map fun n => -(n : Int)
    | digits => (readDigits? base digits).map Int.ofNat
  if low ≤ n ∧ n ≤ high then some n else none

/-- A decimal number that fits sixty-four signed bits. -/
def readInt64? (s : List Char) : Option Int :=
  readSigned? 10 (-0x8000000000000000) 0x7fffffffffffffff s

/-- A decimal number that fits thirty-two signed bits. -/
def readInt32? (s : List Char) : Option Int :=
  readSigned? 10 (-0x80000000) 0x7fffffff s

/-! ## Reading what was written -/

/-- A decimal digit has its own value. -/
theorem digitValue?_digitChar {n : Nat} (h : n < 10) :
    digitValue? 10 n.digitChar = some n := by
  have hall : ∀ m < 10, digitValue? 10 (Nat.digitChar m) = some m := by decide
  exact hall n h

/-- Reading the digits of a number after `value` shifts `value` past them. -/
theorem readDigitsFrom_append {base : Nat} {value : Nat} {s t : List Char} :
    readDigitsFrom base value (s ++ t) =
      (readDigitsFrom base value s).bind fun v => readDigitsFrom base v t := by
  induction s generalizing value with
  | nil => simp [readDigitsFrom]
  | cons c s ih =>
      cases h : digitValue? base c with
      | none => simp [readDigitsFrom, h]
      | some d => simp [readDigitsFrom, h, ih]

/-- The decimal digits of a number denote that number. -/
theorem readDigitsFrom_toDigits (n : Nat) :
    readDigitsFrom 10 0 (Nat.toDigits 10 n) = some n := by
  induction n using Nat.strongRecOn with
  | ind n ih =>
      by_cases h : n < 10
      · simp [Nat.toDigits_of_lt_base h, readDigitsFrom, digitValue?_digitChar h]
      · have hle : 10 ≤ n := by omega
        rw [Nat.toDigits_of_base_le (by decide) hle, readDigitsFrom_append,
          ih (n / 10) (by omega)]
        simp only [Option.bind_some]
        rw [readDigitsFrom, digitValue?_digitChar (Nat.mod_lt _ (by decide))]
        simp only [Option.bind_eq_bind, Option.bind_some, readDigitsFrom]
        congr 1
        omega

/-- The decimal digits of a number read back. -/
theorem readDigits?_toDigits (n : Nat) :
    readDigits? 10 (Nat.toDigits 10 n) = some n := by
  cases h : Nat.toDigits 10 n with
  | nil => exact absurd h Nat.toDigits_ne_nil
  | cons c s =>
      rw [readDigits?, ← h]
      · exact readDigitsFrom_toDigits n
      · simp

end Text
end ShaderAssets
