import ShaderAssets.Text.Split
import ShaderAssets.Text.Integer

/-!
# Decimal numbers in text

A decimal number is a whole number of units of some power of ten.  A numeral is
what a text of a real number denotes: a decimal number, an infinity or "not a
number", each with a sign.

Numerals are read without blanks or separators: an optional sign, then one of
the words `inf`, `infinity` and `nan` in any case, or digits with an optional
point and an optional exponent.  At least one digit stands next to the point.
-/

namespace ShaderAssets
namespace Number

/-- The number `digits * 10 ^ exponent`. -/
structure Decimal where
  digits : Nat
  exponent : Int
deriving DecidableEq, Repr

/-- What the text of a real number denotes, apart from its sign. -/
inductive Magnitude where
  | finite (value : Decimal)
  | infinite
  | notANumber
deriving DecidableEq, Repr

/-- A magnitude with its sign. -/
structure Numeral where
  negative : Bool
  magnitude : Magnitude
deriving DecidableEq, Repr

namespace Decimal

/-- The number of decimal digits of a whole number; zero has one. -/
def digitCount (n : Nat) : Nat :=
  (Nat.toDigits 10 n).length

/-- One more than the exponent of the leading digit. -/
def order (d : Decimal) : Int :=
  digitCount d.digits + d.exponent

end Decimal

namespace Numeral

open Text

/-- The leading decimal digits of a text, and the rest of it. -/
def spanDigits (s : List Char) : List Char × List Char :=
  (s.takeWhile Char.isDigit, s.dropWhile Char.isDigit)

/-- The exponent written after a number, zero if there is none. -/
def readExponent? : List Char → Option Int
  | [] => some 0
  | c :: s =>
      if c = 'e' ∨ c = 'E' then
        match s with
        | '+' :: digits => (readDigits? 10 digits).map Int.ofNat
        | '-' :: digits => (readDigits? 10 digits).map fun n => -(n : Int)
        | digits => (readDigits? 10 digits).map Int.ofNat
      else none

/-- The decimal number denoted by digits, an optional point and an optional
exponent. -/
def readDecimal? (s : List Char) : Option Decimal := do
  let (whole, rest) := spanDigits s
  let (fraction, rest) := match rest with
    | '.' :: after => spanDigits after
    | other => ([], other)
  let exponent ← readExponent? rest
  let digits ← readDigits? 10 (whole ++ fraction)
  return ⟨digits, exponent - fraction.length⟩

/-- The magnitude denoted by a text without a sign. -/
def readMagnitude? (s : List Char) : Option Magnitude :=
  let word := String.ofList (s.map Char.toLower)
  if word = "inf" ∨ word = "infinity" then some .infinite
  else if word = "nan" then some .notANumber
  else (readDecimal? s).map .finite

/-- The numeral denoted by a text. -/
def read? : List Char → Option Numeral
  | '+' :: s => (readMagnitude? s).map (⟨false, ·⟩)
  | '-' :: s => (readMagnitude? s).map (⟨true, ·⟩)
  | s => (readMagnitude? s).map (⟨false, ·⟩)

end Numeral

end Number
end ShaderAssets
