/-!
Finite doubles in exact arithmetic: a sign, a significand below 2^53 and a power of two.
Every operation is the exact rational result rounded to the nearest double, ties to even.
-/
namespace RequestEngine

/-- A finite double, `± significand · 2 ^ exponent`. The significand is below 2^53, and at least
2^52 unless the exponent is the least one. -/
structure Binary64 where
  negative : Bool
  significand : Nat
  exponent : Int
  deriving DecidableEq, Repr

namespace Binary64

def fullSignificand : Nat := 0x10000000000000

def minExponent : Int := -1074
def maxExponent : Int := 971

def zero (negative : Bool) : Binary64 := ⟨negative, 0, minExponent⟩

/-- A quotient of naturals rounded to a whole number, a half going to the even neighbour. -/
def roundQuotient (num den : Nat) : Nat :=
  let q := num / den
  let r := num % den
  if 2 * r > den ∨ (2 * r = den ∧ q % 2 = 1) then q + 1 else q

/-- The quotient `num / (den · 2 ^ e)` as a pair of naturals. -/
def scaled (num den : Nat) (e : Int) : Nat × Nat :=
  (num <<< (-e).toNat, den <<< e.toNat)

/-- The exponent at which `num / den` has a 53-bit whole part, but no less than the least one. -/
def exponentFor (num den : Nat) : Int :=
  let guess : Int := (num.log2 : Int) - den.log2 - 52
  let s := scaled num den guess
  max (if s.1 / s.2 ≥ fullSignificand then guess else guess - 1) minExponent

/-- The nearest double to `num / den`, with no limit on its exponent. -/
def nearest (negative : Bool) (num den : Nat) : Binary64 :=
  if num = 0 then zero negative
  else
    let e := exponentFor num den
    let s := scaled num den e
    let q := roundQuotient s.1 s.2
    if q = 2 * fullSignificand then ⟨negative, fullSignificand, e + 1⟩ else ⟨negative, q, e⟩

/-- The nearest double to `num / den`, unless it is beyond the finite range. -/
def ofRatio? (negative : Bool) (num den : Nat) : Option Binary64 :=
  let x := nearest negative num den
  if x.exponent ≤ maxExponent then some x else none

def ratio (x : Binary64) : Nat × Nat :=
  (x.significand <<< x.exponent.toNat, 1 <<< (-x.exponent).toNat)

def isZero (x : Binary64) : Bool := x.significand == 0

def ofNat (n : Nat) : Binary64 := nearest false n 1

def mul? (x y : Binary64) : Option Binary64 :=
  ofRatio? (x.negative != y.negative) (x.ratio.1 * y.ratio.1) (x.ratio.2 * y.ratio.2)

def div? (x y : Binary64) : Option Binary64 :=
  ofRatio? (x.negative != y.negative) (x.ratio.1 * y.ratio.2) (x.ratio.2 * y.ratio.1)

def atLeast (x : Binary64) (n : Nat) : Bool :=
  if x.negative then n == 0 && x.isZero else n * x.ratio.2 ≤ x.ratio.1

/-- Equality of numbers: the two zeros are equal. -/
def sameNumber (x y : Binary64) : Bool := x == y || (x.isZero && y.isZero)

example : ofNat 9007199254740993 = ⟨false, 4503599627370496, 1⟩ := by decide +kernel
example : nearest false 1 10 = ⟨false, 7205759403792794, -56⟩ := by decide +kernel

end Binary64

end RequestEngine
