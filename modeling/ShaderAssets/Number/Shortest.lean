import ShaderAssets.Number.Single

/-!
# The shortest decimal that reads back

The shortest decimal form of a single precision number is found on the coarsest
decimal grid that holds a number reading back as it.  On one grid only the two
neighbours of the exact value come into question, and the nearer one wins.  The
grid `10 ^ (-149)` holds every finite number exactly, so the search always ends
with a form that reads back.
-/

namespace ShaderAssets
namespace Number

/-- Which of two equally near neighbours on a decimal grid is chosen. -/
inductive TieRule where
  | awayFromZero
  | toEven
deriving DecidableEq, Repr

namespace Shortest

/-- The exponents of the grids, from the coarsest to the exact one. -/
def coarsest : Int := 38

/-- The exponent of the grid that holds every finite number. -/
def exact : Int := -149

/-- The exact value over the grid `10 ^ e`, as numerator and denominator. -/
def ratio (code : Nat) (e : Int) : Nat × Nat :=
  (BinaryFormat.single.units code * Nat.pow 10 (-e).toNat,
    Nat.pow 2 BinaryFormat.single.scale * Nat.pow 10 e.toNat)

/-- Whether a decimal number reads back as the number with this code. -/
def readsBack (code : Nat) (d : Decimal) : Bool :=
  BinaryFormat.single.ofDecimal d == code

/-- The nearer neighbour on the grid `10 ^ e` that reads back, if any does. -/
def onGrid? (tie : TieRule) (code : Nat) (e : Int) : Option Decimal :=
  let (num, den) := ratio code e
  let low : Decimal := ⟨num / den, e⟩
  let high : Decimal := ⟨num / den + 1, e⟩
  let twice := 2 * (num % den)
  let preferLow := match tie with
    | .awayFromZero => decide (twice < den)
    | .toEven => decide (twice < den ∨ (twice = den ∧ low.digits % 2 = 0))
  match readsBack code low, readsBack code high with
  | true, true => some (if preferLow then low else high)
  | true, false => some low
  | false, true => some high
  | false, false => none

/-- The first grid with a number that reads back, from `10 ^ (exact + steps)`
down to the exact grid. -/
def search (tie : TieRule) (code : Nat) : Nat → Decimal
  | 0 => ⟨(ratio code exact).1 / (ratio code exact).2, exact⟩
  | steps + 1 =>
      match onGrid? tie code (exact + (steps + 1 : Nat)) with
      | some d => d
      | none => search tie code steps

end Shortest

/-- The shortest decimal form of a finite magnitude; zero has no digits. -/
def Single.shortest (tie : TieRule) (x : Single) : Decimal :=
  if x.code = 0 then ⟨0, 0⟩
  else Shortest.search tie x.code (Shortest.coarsest - Shortest.exact).toNat

end Number
end ShaderAssets
