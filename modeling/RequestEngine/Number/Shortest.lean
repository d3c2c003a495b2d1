import RequestEngine.Number.Binary64
import RequestEngine.Number.Decimal

/-!
The shortest decimal of a double: the fewest digits that round back to it, of several the nearest,
a tie going to the even last digit.
-/
namespace RequestEngine

/-- The decimal number `digits · 10 ^ exponent`. -/
structure ShortDecimal where
  digits : Nat
  exponent : Int
  deriving DecidableEq, Repr

namespace Binary64

/-- The numbers that round to a double, in quarters of its last place: from `low` to `high`, ends
included when `closed`. -/
structure RoundingRange where
  low : Nat
  value : Nat
  high : Nat
  closed : Bool

/-- Below a power of two the neighbours lie closer together. -/
def roundingRange (x : Binary64) : RoundingRange :=
  let m := x.significand
  let low := if m = fullSignificand ∧ x.exponent > minExponent then 4 * m - 1 else 4 * m - 2
  ⟨low, 4 * m, 4 * m + 2, m % 2 = 0⟩

def onGrid (x : Binary64) (p : Int) : Nat × Nat :=
  let q := x.exponent - 2
  (Decimal.tenTo p.toNat <<< (-q).toNat, Decimal.tenTo (-p).toNat <<< q.toNat)

/-- The point of the grid of multiples of `10 ^ p` to be written for a double, if one of its two
neighbours there rounds back to it. -/
def gridPoint? (x : Binary64) (p : Int) : Option Nat :=
  let range := x.roundingRange
  let (unit, quarter) := x.onGrid p
  let inside (d : Nat) : Bool :=
    if range.closed then range.low * quarter ≤ d * unit && d * unit ≤ range.high * quarter
    else range.low * quarter < d * unit && d * unit < range.high * quarter
  let below := range.value * quarter / unit
  let above := below + 1
  let toBelow := range.value * quarter - below * unit
  let toAbove := above * unit - range.value * quarter
  match inside below, inside above with
  | true, true =>
    if toBelow < toAbove then some below
    else if toAbove < toBelow then some above
    else some (if below % 2 = 0 then below else above)
  | true, false => some below
  | false, true => some above
  | false, false => none

def coarsest (x : Binary64) : Int :=
  ((x.significand.log2 : Int) + x.exponent + 1) * 30103 / 100000 + 1

/-- The first grid, from the coarsest down, with a point to write. -/
def shortest (x : Binary64) : ShortDecimal :=
  if x.isZero then ⟨0, 0⟩
  else
    let point? (k : Nat) : Option ShortDecimal :=
      let p := x.coarsest - k
      (x.gridPoint? p).map (⟨·, p⟩)
    ((List.range 24).findSome? point?).getD ⟨0, 0⟩

example : (nearest false 1 10).shortest = ⟨1, -1⟩ := by decide +kernel
example : (⟨false, 1, -1074⟩ : Binary64).shortest = ⟨5, -324⟩ := by decide +kernel
example : (ofNat 18446744073709551616).shortest = ⟨18446744073709552, 3⟩ := by decide +kernel

end Binary64

end RequestEngine
