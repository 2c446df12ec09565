import ShaderAssets.Number.Binary

/-!
# Single and double precision numbers

Numbers of the 32-bit and 64-bit interchange formats, held as their bits.  The
top bit is the sign and the remaining bits are the code of the magnitude.

Comparison of values differs from equality of bits in two ways: the two zeros
are equal, and "not a number" differs from everything.
-/

namespace ShaderAssets
namespace Number

/-- A number of the 32-bit format. -/
structure Single where
  bits : UInt32
deriving DecidableEq, Repr, Inhabited

/-- A number of the 64-bit format. -/
structure Double where
  bits : UInt64
deriving DecidableEq, Repr, Inhabited

namespace Double

/-- Whether the sign bit is set. -/
def negative (x : Double) : Bool :=
  0x8000000000000000 ≤ x.bits.toNat

/-- The code of the magnitude. -/
def code (x : Double) : Nat :=
  x.bits.toNat % 0x8000000000000000

/-- The number with a given sign and code of the magnitude. -/
def ofCode (negative : Bool) (code : Nat) : Double :=
  ⟨((if negative then 0x8000000000000000 else 0) + code % 0x8000000000000000).toUInt64⟩

/-- The positive representative of "not a number". -/
def notANumber : Double := ofCode false 0x7ff8000000000000

/-- The infinity with a given sign. -/
def infinite (negative : Bool) : Double :=
  ofCode negative BinaryFormat.double.infinity

/-- Whether the number is neither infinite nor "not a number". -/
def isFinite (x : Double) : Bool :=
  x.code < BinaryFormat.double.infinity

/-- The number nearest to a decimal number. -/
def ofDecimal (negative : Bool) (d : Decimal) : Double :=
  ofCode negative (BinaryFormat.double.ofDecimal d)

/-- The number nearest to a whole number. -/
def ofInt (n : Int) : Double :=
  ofCode (n < 0) (BinaryFormat.double.nearest n.natAbs 1)

/-- The number nearest to the product of two finite magnitudes, with the sign
of the first. -/
def mulMagnitude (x y : Double) : Double :=
  let f := BinaryFormat.double
  ofCode x.negative (f.nearest (f.units x.code * f.units y.code) (Nat.pow 2 (2 * f.scale)))

/-- The number nearest to the quotient of two finite magnitudes, with the sign
of the first; the divisor is not zero. -/
def divMagnitude (x y : Double) : Double :=
  let f := BinaryFormat.double
  ofCode x.negative (f.nearest (f.units x.code) (f.units y.code))

end Double

namespace Single

/-- Whether the sign bit is set. -/
def negative (x : Single) : Bool :=
  0x80000000 ≤ x.bits.toNat

/-- The code of the magnitude. -/
def code (x : Single) : Nat :=
  x.bits.toNat % 0x80000000

/-- The number with a given sign and code of the magnitude. -/
def ofCode (negative : Bool) (code : Nat) : Single :=
  ⟨((if negative then 0x80000000 else 0) + code % 0x80000000).toUInt32⟩

/-- Positive zero. -/
def zero : Single := ⟨0⟩

/-- The number one. -/
def one : Single := ⟨0x3f800000⟩

/-- Whether the bits denote "not a number". -/
def isNaN (x : Single) : Bool :=
  BinaryFormat.single.infinity < x.code

/-- Whether the number is an infinity. -/
def isInfinite (x : Single) : Bool :=
  x.code == BinaryFormat.single.infinity

/-- The magnitude of a finite number, in units of `2 ^ (-149)`. -/
def units (x : Single) : Nat :=
  BinaryFormat.single.units x.code

/-- Equality of values: the zeros are equal, and "not a number" equals nothing. -/
def sameValue (x y : Single) : Bool :=
  !x.isNaN && !y.isNaN && (x == y || (x.code == 0 && y.code == 0))

/-- The number nearest to a decimal number. -/
def ofDecimal (negative : Bool) (d : Decimal) : Single :=
  ofCode negative (BinaryFormat.single.ofDecimal d)

/-- The number that a numeral denotes, rounded to nearest. -/
def ofNumeral (n : Numeral) : Single :=
  match n.magnitude with
  | .finite d => ofDecimal n.negative d
  | .infinite => ofCode n.negative BinaryFormat.single.infinity
  | .notANumber => ofCode n.negative 0x7fc00000

/-- The number that a text denotes, rounded to nearest. -/
def read? (s : List Char) : Option Single :=
  (Numeral.read? s).map ofNumeral

/-- The number nearest to a whole number. -/
def ofInt (n : Int) : Single :=
  ofCode (n < 0) (BinaryFormat.single.nearest n.natAbs 1)

/-- The number nearest to a double precision number. -/
def ofDouble (x : Double) : Single :=
  let f := BinaryFormat.double
  if f.infinity < x.code then ofCode x.negative 0x7fc00000
  else if x.code = f.infinity then ofCode x.negative BinaryFormat.single.infinity
  else ofCode x.negative (BinaryFormat.single.nearest (f.units x.code) (Nat.pow 2 f.scale))

/-- The whole part, held within thirty-two signed bits; zero for "not a number". -/
def toInt32 (x : Single) : Int :=
  if x.isNaN then 0
  else
    let whole := if x.isInfinite then 0x80000000 else x.units / Nat.pow 2 BinaryFormat.single.scale
    if x.negative then max (-0x80000000) (-(whole : Int)) else min 0x7fffffff whole

end Single

end Number
end ShaderAssets
