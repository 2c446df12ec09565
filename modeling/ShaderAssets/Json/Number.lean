import ShaderAssets.Json.Value

/-!
# Numbers of JSON texts

The value of a number that is kept as it was written.  Whole numbers of
sixty-four bits, with or without a sign, are exact.  Other numbers are read in
double precision from at most as many digits as fit a sixty-four bit word, scaled
by one power of ten; they may differ from the nearest number by a few units of
the last place.
-/

namespace ShaderAssets
namespace Json

open Number

/-- The value of a number. -/
inductive NumberValue where
  | whole (n : Int)
  | real (x : Double)
deriving DecidableEq, Repr, Inhabited

/-- The parts of a number as it is written. -/
structure NumberParts where
  negative : Bool
  whole : List Char
  fraction : List Char
  /-- The sign and the digits of the exponent, if there is one. -/
  exponent : Option (Bool × List Char)
deriving DecidableEq, Repr, Inhabited

namespace NumberParts

/-- The exponent in the characters from its mark on. -/
def exponentOf : List Char → Option (Bool × List Char)
  | _ :: '-' :: digits => some (true, digits)
  | _ :: '+' :: digits => some (false, digits)
  | _ :: digits => some (false, digits)
  | [] => none

/-- The parts of a literal. -/
def ofLiteral (literal : List Char) : NumberParts :=
  let (negative, s) := match literal with
    | '-' :: rest => (true, rest)
    | _ => (false, literal)
  let whole := s.takeWhile Char.isDigit
  match s.dropWhile Char.isDigit with
  | '.' :: rest =>
      ⟨negative, whole, rest.takeWhile Char.isDigit, exponentOf (rest.dropWhile Char.isDigit)⟩
  | rest => ⟨negative, whole, [], exponentOf rest⟩

/-- The value of digits. -/
def valueOf (digits : List Char) : Nat :=
  (Text.readDigits? 10 digits).getD 0

/-- The digits that are taken into a word, and the digits that are left once the
next one no longer fits. -/
def fill (significand : Nat) : List Char → Nat × List Char
  | [] => (significand, [])
  | c :: rest =>
      let next := 10 * significand + (c.toNat - 48)
      if next < UInt64.size then fill next rest else (significand, c :: rest)

/-- The power of ten nearest to `10 ^ n`. -/
def power (n : Nat) : Double :=
  Double.ofDecimal false ⟨1, n⟩

/-- A number scaled by a power of ten: one multiplication or division, after
divisions by the largest power for very small numbers.  None is given for a
number that is too large. -/
def scale : Nat → Double → Int → Option Double
  | 0, _, _ => none
  | fuel + 1, x, e =>
      if e.natAbs ≤ 308 then
        if 0 ≤ e then
          let y := x.mulMagnitude (power e.natAbs)
          if y.isFinite then some y else none
        else some (x.divMagnitude (power e.natAbs))
      else if x.code = 0 then some x
      else if 0 ≤ e then none
      else scale fuel (x.divMagnitude (power 308)) (e + 308)

/-- The number of times that a finite number can be divided by the largest power
of ten before nothing is left of it. -/
def maxScalings : Nat := 4

/-- Gives a number its sign. -/
def signed (negative : Bool) (x : Double) : Double :=
  Double.ofCode negative x.code

/-- The real number with a significand of sixty-four bits, the power of ten that
belongs to it, and the written exponent. -/
def real? (p : NumberParts) (significand : Nat) (start : Int) : Option Double :=
  let x := Double.ofInt significand
  match p.exponent with
  | none => (scale maxScalings x start).map (signed p.negative)
  | some (down, digits) =>
      let e := valueOf digits
      if 0x80000000 ≤ e then
        if significand ≠ 0 ∧ ¬down then none
        else some (signed p.negative (Double.ofInt 0))
      else
        let e := if down then max (-0x80000000) (start - e) else min 0x7fffffff (start + e)
        (scale maxScalings x e).map (signed p.negative)

/-- The value of a number, unless it is too large. -/
def value? (p : NumberParts) : Option NumberValue :=
  let (significand, dropped) := fill 0 p.whole
  let (significand', unread) := fill significand p.fraction
  if p.fraction.isEmpty && p.exponent.isNone && dropped.isEmpty then
    let n : Int := if p.negative then -(significand : Int) else significand
    if p.negative && (significand == 0 || 0x8000000000000000 < significand) then
      some (.real (signed true (Double.ofInt significand)))
    else some (.whole n)
  else
    let places := p.fraction.length - unread.length
    (p.real? significand' (dropped.length - places)).map .real

end NumberParts

namespace Value

/-- The value of a number. -/
def numberOf? : Value → Option NumberValue
  | .number literal => (NumberParts.ofLiteral literal).value?
  | _ => none

/-- The number in single precision nearest to the value of a number. -/
def singleOf? (v : Value) : Option Single := do
  match ← v.numberOf? with
  | .whole n => return Single.ofInt n
  | .real x => return Single.ofDouble x

end Value

end Json
end ShaderAssets
