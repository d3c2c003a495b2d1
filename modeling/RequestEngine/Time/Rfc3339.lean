import RequestEngine.Number.Decimal
import RequestEngine.Text.Blank
import RequestEngine.Text.Bytes
import RequestEngine.Time.Instant

/-!
Instants as text: `2020-01-01T00:00:00Z`, with a fraction of three, six or nine digits if it is not
zero. Reading is lenient about blanks, leading zeros, the letter between date and time, and the
form of the offset, which it takes off.
-/
namespace RequestEngine.Instant

/-- Four digits; a year outside of 0 to 9999 has a sign. -/
def yearChars (year : Int) : List Char :=
  if 0 ≤ year ∧ year ≤ 9999 then Decimal.padded 4 year.toNat
  else (if year < 0 then '-' else '+') :: Decimal.padded 4 year.natAbs

def fractionChars (nanos : Nat) : List Char :=
  if nanos = 0 then []
  else if nanos % 1000000 = 0 then '.' :: Decimal.padded 3 (nanos / 1000000)
  else if nanos % 1000 = 0 then '.' :: Decimal.padded 6 (nanos / 1000)
  else '.' :: Decimal.padded 9 nanos

def chars (t : Instant) : List Char :=
  yearChars t.date.year ++ '-' :: Decimal.padded 2 t.date.month ++
    '-' :: Decimal.padded 2 t.date.day ++ 'T' :: Decimal.padded 2 t.hour ++
    ':' :: Decimal.padded 2 t.minute ++ ':' :: Decimal.padded 2 t.second ++
    fractionChars t.nanos ++ ['Z']

def text (t : Instant) : String := String.ofList t.chars

inductive ParseError where
  | outOfRange
  | impossible
  | invalid
  | tooShort
  | tooLong
  deriving DecidableEq, Repr

def ParseError.message : ParseError → String
  | .outOfRange => "input is out of range"
  | .impossible => "no possible date and time matching input"
  | .invalid => "input contains invalid characters"
  | .tooShort => "premature end of input"
  | .tooLong => "trailing input"

/-- A reader of part of an instant; its state is the rest of the text. -/
abbrev Scan (α : Type) := StateT (List Char) (Except ParseError) α

namespace Scan

def blanks : Scan Unit := modify Text.dropBlanks

/-- At least one digit and at most `width` of them; the number fits 63 bits. -/
def number (width : Option Nat) : Scan Nat := do
  match (← get).head? with
  | none => throw .tooShort
  | some c =>
    if !c.isDigit then throw .invalid
    let cs ← get
    let ds := (match width with | some w => cs.take w | none => cs).takeWhile Char.isDigit
    let n := Decimal.ofDigits ds
    if UInt64.size / 2 ≤ n then throw .outOfRange
    set (cs.drop ds.length)
    return n

def field (low high : Nat) : Scan Nat := do
  blanks
  let n ← number (some 2)
  if low ≤ n ∧ n ≤ high then return n else throw .outOfRange

def mark (c : Char) : Scan Unit := do
  blanks
  match (← get).head? with
  | none => throw .tooShort
  | some d => if d = c then modify (·.drop 1) else throw .invalid

/-- Four digits, or any number of them after a sign. -/
def year : Scan Int := do
  blanks
  let n : Int ← match (← get).head? with
    | some '-' => do modify (·.drop 1); pure (-(← number none : Nat))
    | some '+' => do modify (·.drop 1); pure (← number none : Nat)
    | _ => do pure (← number (some 4) : Nat)
  if -0x80000000 ≤ n ∧ n < 0x80000000 then return n else throw .outOfRange

/-- The fraction of a second in nanoseconds; digits beyond the ninth are dropped. -/
def fraction : Scan Nat := do
  if (← get).head? = some '.' then
    modify (·.drop 1)
    let before := (← get).length
    let n ← number (some 9)
    let used := before - (← get).length
    modify (·.dropWhile Char.isDigit)
    return n * Decimal.tenTo (9 - used)
  else return 0

/-- Two digits, if two bytes are left. -/
def twoDigits? (cs : List Char) : Option (Except ParseError (Nat × Nat)) :=
  if Text.byteCount cs < 2 then none
  else match cs with
    | a :: b :: _ =>
      if a.isDigit ∧ b.isDigit then some (.ok (Decimal.digitValue a, Decimal.digitValue b))
      else some (.error .invalid)
    | _ => some (.error .invalid)

/-- Minutes east of universal time. -/
def offset : Scan Int := do
  let letters := ((← get).take 3).map Char.toUpper
  if letters = ['U', 'T', 'C'] then
    modify (·.drop 3)
    return 0
  match (← get).head? with
  | some 'Z' | some 'z' => modify (·.drop 1); return 0
  | none => throw .tooShort
  | some sign =>
    if sign ≠ '+' ∧ sign ≠ '-' ∧ sign ≠ '−' then throw .invalid
    modify (·.drop 1)
    let hours ← match twoDigits? (← get) with
      | none => throw .tooShort
      | some (.error e) => throw e
      | some (.ok (a, b)) => pure (10 * a + b)
    modify (·.drop 2)
    modify (·.dropWhile fun c => c = ':' || Text.isBlank c)
    let minutes ← match twoDigits? (← get) with
      | none => throw .tooShort
      | some (.error e) => throw e
      | some (.ok (a, b)) => if 6 ≤ a then throw .outOfRange else pure (10 * a + b)
    modify (·.drop 2)
    let total : Int := 60 * hours + minutes
    return if sign = '+' then total else -total

end Scan

def minYear : Int := -262143
def maxYear : Int := 262142

def inRange (d : Date) : Bool := minYear ≤ d.year && d.year ≤ maxYear

def lessOffset (t : Instant) (offset : Int) : Instant :=
  let minutes := t.hour * 60 + t.minute - offset
  let date :=
    if minutes < 0 then t.date.previous
    else if 1440 ≤ minutes then t.date.next
    else t.date
  let inDay := (minutes % 1440).toNat
  ⟨date, inDay / 60, inDay % 60, t.second, t.nanos, by have := t.valid; omega⟩

def scan : Scan Instant := do
  let year ← Scan.year
  Scan.mark '-'
  let month ← Scan.field 1 12
  Scan.mark '-'
  let day ← Scan.field 1 31
  match (← get).head? with
  | none => throw .tooShort
  | some c => if c = 't' ∨ c = 'T' ∨ c = ' ' then modify (·.drop 1) else throw .invalid
  let hour ← Scan.field 0 23
  Scan.mark ':'
  let minute ← Scan.field 0 59
  Scan.mark ':'
  let second ← Scan.field 0 60
  let nanos ← Scan.fraction
  Scan.blanks
  let offset ← Scan.offset
  Scan.blanks
  if !(← get).isEmpty then throw .tooLong
  let local? := (Date.of? year month day).bind (of? · hour minute second nanos)
  match local? with
  | none => throw .outOfRange
  | some t =>
    if !inRange t.date ∨ 1440 ≤ offset.natAbs then throw .outOfRange
    let t := t.lessOffset offset
    if inRange t.date then return t else throw .impossible

def parse (s : String) : Except ParseError Instant := (scan s.toList).map (·.1)

end RequestEngine.Instant
