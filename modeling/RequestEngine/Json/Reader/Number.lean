import RequestEngine.Json.Reader.Basic

/-!
Numbers in JSON text. A double is its first digits, as many as fit a word, scaled by a power of ten:
two roundings, so it need not be the nearest to what is written.
-/
namespace RequestEngine.Json

open Reader

/-- Extend a number by digits as long as it stays within a limit; the digits left over. -/
def growWithin (limit : Nat) : Nat → List Char → Nat × List Char
  | n, [] => (n, [])
  | n, c :: cs =>
    let n' := 10 * n + Decimal.digitValue c
    if n' ≤ limit then growWithin limit n' cs else (n, c :: cs)

def maxWord : Nat := UInt64.size - 1

/-- Digits of an exponent are read up to this number. -/
def maxExponent : Nat := 0x7FFFFFFF

def powerOfTen (k : Nat) : Binary64 := Binary64.ofNat (Decimal.tenTo k)

/-- A double scaled by a power of ten: one multiplication or division by a power up to 10^308, with
further divisions by 10^308 before it where the exponent lies below. -/
def scaleByTen : Nat → Binary64 → Int → Option Binary64
  | 0, x, _ => some x
  | steps + 1, x, e =>
    if e.natAbs ≤ 308 then
      if 0 ≤ e then x.mul? (powerOfTen e.natAbs) else x.div? (powerOfTen e.natAbs)
    else if x.isZero then some x
    else if 0 ≤ e then none
    else (x.div? (powerOfTen 308)).bind (scaleByTen steps · (e + 308))

/-- The double with a 64-bit decimal significand and an exponent of ten. -/
def doubleOf (negative : Bool) (significand : Nat) (e : Int) : Reader Binary64 := do
  match scaleByTen 4 (Binary64.ofNat significand) e with
  | some x => return { x with negative := negative }
  | none => failHere .numberOutOfRange

def readExponent (negative : Bool) (significand : Nat) (e : Int) : Reader Binary64 := do
  advance
  let sign ← peek?
  if sign = some '+' ∨ sign = some '-' then advance
  match ← peek? with
  | none => failHere .endInValue
  | some c =>
    if !c.isDigit then failNext .invalidNumber
    else
      let ds := (← get).takeWhile Char.isDigit
      let (n, left) := growWithin maxExponent 0 ds
      if left.isEmpty then
        modify (·.drop ds.length)
        doubleOf negative significand (if sign = some '-' then e - n else e + n)
      else
        modify (·.drop (ds.length - left.length + 1))
        if significand ≠ 0 ∧ sign ≠ some '-' then failHere .numberOutOfRange
        else
          let _ ← takeDigits
          return .zero negative

def readScale (negative : Bool) (significand : Nat) (e : Int) : Reader Binary64 := do
  match ← peek? with
  | some 'e' | some 'E' => readExponent negative significand e
  | _ => doubleOf negative significand e

/-- The fraction of a number, from its point on. Digits beyond 64 bits are dropped. -/
def readFraction (negative : Bool) (significand : Nat) (e : Int) : Reader Binary64 := do
  advance
  let ds ← takeDigits
  if ds.isEmpty then
    if (← peek?).isSome then failNext .invalidNumber else failNext .endInValue
  let (n, left) := growWithin maxWord significand ds
  readScale negative n (e - (ds.length - left.length))

/-- An integer within the range of words becomes an integer, else a double. -/
def integerValue (negative : Bool) (n : Nat) : Json :=
  if !negative then .int n
  else if n = 0 ∨ UInt64.size / 2 < n then .double { Binary64.ofNat n with negative := true }
  else .int (-n)

def readTail (negative : Bool) (significand : Nat) : Reader Json := do
  match ← peek? with
  | some '.' => return .double (← readFraction negative significand 0)
  | some 'e' | some 'E' => return .double (← readExponent negative significand 0)
  | _ => return integerValue negative significand

def readNumber (negative : Bool) : Reader Json := do
  match ← peek? with
  | none => failHere .endInValue
  | some c =>
    if c = '0' then
      advance
      if ((← peek?).map Char.isDigit).getD false then failNext .invalidNumber
      readTail negative 0
    else if c.isDigit then
      let ds ← takeDigits
      let (n, left) := growWithin maxWord 0 ds
      if left.isEmpty then readTail negative n
      else match ← peek? with
        | some '.' => return .double (← readFraction negative n left.length)
        | _ => return .double (← readScale negative n left.length)
    else failNext .invalidNumber

end RequestEngine.Json
