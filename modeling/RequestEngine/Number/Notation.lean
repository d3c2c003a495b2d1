import RequestEngine.Number.Decimal
import RequestEngine.Number.Shortest

/-! The two spellings of a double: with an exponent where it is large or small, or positional
throughout. Both always show a point or an exponent. -/
namespace RequestEngine.Binary64

/-- Digits with a point after the first `whole` of them, padded with zeros to either side. -/
def positional (ds : List Char) (whole : Int) : List Char :=
  if whole ≤ 0 then '0' :: '.' :: (List.replicate (-whole).toNat '0' ++ ds)
  else if ds.length ≤ whole.toNat then
    ds ++ List.replicate (whole.toNat - ds.length) '0' ++ ['.', '0']
  else ds.take whole.toNat ++ '.' :: ds.drop whole.toNat

/-- One digit before the point, and an exponent that always has a sign. -/
def scientific (ds : List Char) (exponent : Int) : List Char :=
  let mantissa := match ds with
    | [] => []
    | [d] => [d]
    | d :: rest => d :: '.' :: rest
  let sign := if exponent < 0 then '-' else '+'
  mantissa ++ 'e' :: sign :: Decimal.digits exponent.natAbs

def withSign (x : Binary64) (cs : List Char) : List Char :=
  if x.negative then '-' :: cs else cs

/-- Positional from 1e-5 up to 1e16, with an exponent outside. -/
def chars (x : Binary64) : List Char :=
  let s := x.shortest
  let ds := Decimal.digits s.digits
  let whole : Int := ds.length + s.exponent
  x.withSign <|
    if x.isZero then ['0', '.', '0']
    else if -5 < whole ∧ whole ≤ 16 then positional ds whole
    else scientific ds (whole - 1)

def plainChars (x : Binary64) : List Char :=
  let s := x.shortest
  let ds := Decimal.digits s.digits
  x.withSign (if x.isZero then ['0', '.', '0'] else positional ds (ds.length + s.exponent))

example : (nearest true 3 2).chars = ['-', '1', '.', '5'] := by decide +kernel
example : (nearest false 1 10000000).chars = ['1', 'e', '-', '7'] := by decide +kernel
example : (ofNat 1000000000000000000000).chars = ['1', 'e', '+', '2', '1'] := by decide +kernel
example : (ofNat 100000).chars = ['1', '0', '0', '0', '0', '0', '.', '0'] := by decide +kernel

end RequestEngine.Binary64
