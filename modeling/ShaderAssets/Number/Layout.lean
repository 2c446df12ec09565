import ShaderAssets.Number.Shortest

/-!
# Texts of single precision numbers

Three layouts: positional with the shortest digits, positional with six places,
and a mixed layout that turns to an exponent for very large and very small
numbers.  The mixed layout is a record of the choices a data format makes.
-/

namespace ShaderAssets
namespace Number

/-- Whole numbers in decimal digits. -/
def natText (n : Nat) : List Char :=
  Nat.toDigits 10 n

/-- Whole numbers in decimal digits with a minus sign in front of negative ones. -/
def intText (n : Int) : List Char :=
  if n < 0 then '-' :: natText n.natAbs else natText n.natAbs

namespace Decimal

/-- The digits with a point where it belongs, without an exponent. -/
def positional (d : Decimal) : List Char :=
  let ds := natText d.digits
  if 0 ≤ d.exponent then ds ++ List.replicate d.exponent.toNat '0'
  else
    let places := (-d.exponent).toNat
    if places < ds.length then
      ds.take (ds.length - places) ++ '.' :: ds.drop (ds.length - places)
    else '0' :: '.' :: (List.replicate (places - ds.length) '0' ++ ds)

end Decimal

/-- How a data format writes a number: positionally when the exponent of its
leading digit lies between `low` and `high`, else with an exponent, whose sign
is `plus` when it is not negative. -/
structure MixedLayout where
  low : Int
  high : Int
  plus : List Char
  tie : TieRule
deriving Repr

namespace MixedLayout

/-- Whole numbers keep one decimal. -/
def positional (d : Decimal) : List Char :=
  if 0 ≤ d.exponent then d.positional ++ ['.', '0'] else d.positional

/-- The leading digit, the other digits after a point, and the exponent. -/
def scientific (layout : MixedLayout) (d : Decimal) : List Char :=
  let exponent := d.order - 1
  let mantissa := match natText d.digits with
    | [] => []
    | [c] => [c]
    | c :: rest => c :: '.' :: rest
  mantissa ++ 'e' ::
    (if exponent < 0 then intText exponent else layout.plus ++ intText exponent)

/-- The text of a finite magnitude. -/
def magnitudeText (layout : MixedLayout) (x : Single) : List Char :=
  let d := x.shortest layout.tie
  let exponent := d.order - 1
  if x.code = 0 then ['0', '.', '0']
  else if layout.low ≤ exponent ∧ exponent ≤ layout.high then positional d
  else layout.scientific d

/-- The text of a finite number. -/
def text (layout : MixedLayout) (x : Single) : List Char :=
  if x.negative then '-' :: layout.magnitudeText x else layout.magnitudeText x

end MixedLayout

namespace Single

/-- A text with a minus sign in front when the number is negative. -/
def withSign (x : Single) (magnitude : List Char) : List Char :=
  if x.negative then '-' :: magnitude else magnitude

/-- The shortest digits that read back, without an exponent. -/
def display (x : Single) : List Char :=
  if x.isNaN then ['N', 'a', 'N']
  else if x.isInfinite then x.withSign ['i', 'n', 'f']
  else x.withSign (x.shortest .awayFromZero).positional

/-- The exact value rounded to six places, a tie going to the even digit. -/
def sixPlaces (x : Single) : List Char :=
  if x.isNaN then ['N', 'a', 'N']
  else if x.isInfinite then x.withSign ['i', 'n', 'f']
  else
    let millionths :=
      roundHalfEven (x.units * 1000000) (Nat.pow 2 BinaryFormat.single.scale)
    let places := natText (millionths % 1000000)
    x.withSign (natText (millionths / 1000000) ++
      '.' :: (List.replicate (6 - places.length) '0' ++ places))

end Single

end Number
end ShaderAssets
