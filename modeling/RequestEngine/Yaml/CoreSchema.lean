import RequestEngine.Number.Notation
import RequestEngine.Text.Quoted
import RequestEngine.Yaml.Token

/-!
What scalars stand for: null, truth values, integers in four bases, floats, and text. A plain
scalar is told by its spelling; a tag can demand one kind.
-/
namespace RequestEngine.Yaml

inductive Float where
  | finite (x : Binary64)
  | infinite (negative : Bool)
  | undefined
  deriving DecidableEq, Repr

namespace Float

/-- Equality of numbers; what is undefined counts as equal to itself. -/
def sameNumber : Float → Float → Bool
  | .finite x, .finite y => x.sameNumber y
  | .infinite a, .infinite b => a == b
  | .undefined, .undefined => true
  | _, _ => false

def text : Float → String
  | .finite x => String.ofList x.plainChars
  | .infinite false => "inf"
  | .infinite true => "-inf"
  | .undefined => "NaN"

end Float

/-- What a scalar stands for. A wide integer fits 128 bits but not 64. -/
inductive Atom where
  | null
  | bool (b : Bool)
  | int (n : Int)
  | wideInt (n : Int)
  | float (x : Float)
  | string (s : String)
  deriving DecidableEq, Repr

namespace Spelling

def isNull (text : String) : Bool := ["null", "Null", "NULL", "~"].contains text

def bool? (text : String) : Option Bool :=
  if ["true", "True", "TRUE"].contains text then some true
  else if ["false", "False", "FALSE"].contains text then some false
  else none

def digits? (base : Nat) (cs : List Char) : Option Nat :=
  if cs.isEmpty then none
  else cs.foldlM (fun n c => do
    let d ← Hexadecimal.digit? c
    if d < base then some (base * n + d) else none) 0

def dropSign (sign : Char) (cs : List Char) : List Char :=
  match cs with
  | c :: rest => if c = sign then rest else cs
  | [] => []

/-- Digits after a leading zero are no number. -/
def hasLeadingZero (cs : List Char) : Bool :=
  let body := match cs with
    | '+' :: rest | '-' :: rest => rest
    | _ => cs
  1 < body.length && body.head? == some '0' && body.all Char.isDigit

/-- A number without its sign: digits of ten, or of another base after its mark. -/
def magnitude? : List Char → Option Nat
  | '0' :: 'x' :: rest => digits? 16 rest
  | '0' :: 'o' :: rest => digits? 8 rest
  | '0' :: 'b' :: rest => digits? 2 rest
  | cs => if hasLeadingZero cs then none else digits? 10 cs

def natural? (cs : List Char) : Option Nat := magnitude? (dropSign '+' cs)

def negative? : List Char → Option Nat
  | '-' :: rest => magnitude? rest
  | _ => none

def wideSize : Nat := UInt64.size * UInt64.size

def integer? (text : String) : Option Atom :=
  let cs := text.toList
  match natural? cs with
  | some n =>
    if n < UInt64.size then some (.int n) else if n < wideSize then some (.wideInt n) else none
  | none => do
    let m ← negative? cs
    if m ≤ UInt64.size / 2 then some (.int (-m))
    else if m ≤ wideSize / 2 then some (.wideInt (-m))
    else none

def exponent? : List Char → Option Int
  | [] => some 0
  | e :: rest =>
    if e = 'e' || e = 'E' then
      match rest with
      | '-' :: ds => (digits? 10 ds).map fun n => -(n : Int)
      | '+' :: ds => (digits? 10 ds).map fun n => (n : Int)
      | ds => (digits? 10 ds).map fun n => (n : Int)
    else none

/-- The double nearest to `n · 10 ^ e`. Exponents far out of range are not worked out. -/
def scaled? (negative : Bool) (n : Nat) (e : Int) : Option Binary64 :=
  let size : Int := (Decimal.digits n).length + e
  if n = 0 ∨ size < -400 then some (.zero negative)
  else if 400 < size then none
  else Binary64.ofRatio? negative (n * Decimal.tenTo e.toNat) (Decimal.tenTo (-e).toNat)

/-- A decimal with digits before or after its point. Beyond the finite range there is none. -/
def decimal? (cs : List Char) : Option Binary64 := do
  let (negative, body) := match cs with
    | '-' :: rest => (true, rest)
    | _ => (false, cs)
  let whole := body.takeWhile Char.isDigit
  let rest := body.dropWhile Char.isDigit
  let (fraction, rest) := match rest with
    | '.' :: rest => (rest.takeWhile Char.isDigit, rest.dropWhile Char.isDigit)
    | _ => ([], rest)
  if whole.isEmpty && fraction.isEmpty then none
  let e ← exponent? rest
  scaled? negative (Decimal.ofDigits (whole ++ fraction)) (e - fraction.length)

def float? (text : String) : Option Float :=
  let cs := text.toList
  let unsigned := dropSign '+' cs
  if unsigned ≠ cs && (unsigned.head? == some '+' || unsigned.head? == some '-') then none
  else
    let body := String.ofList unsigned
    if [".inf", ".Inf", ".INF"].contains body then some (.infinite false)
    else if ["-.inf", "-.Inf", "-.INF"].contains text then some (.infinite true)
    else if [".nan", ".NaN", ".NAN"].contains text then some .undefined
    else (decimal? unsigned).map .finite

end Spelling

namespace Atom

open Spelling

def ofPlain (text : String) : Atom :=
  if text = "" || isNull text then .null
  else
    match bool? text with
    | some b => .bool b
    | none =>
      match integer? text with
      | some n => n
      | none =>
        if hasLeadingZero text.toList then .string text
        else
          match float? text with
          | some x => .float x
          | none => .string text

end Atom

def boolTag : String := "tag:yaml.org,2002:bool"
def intTag : String := "tag:yaml.org,2002:int"
def floatTag : String := "tag:yaml.org,2002:float"
def nullTag : String := "tag:yaml.org,2002:null"

/-- What a scalar stands for, or the kind that its tag demands and its text is not of. -/
def Atom.ofScalar (text : String) (style : Style) (tag : Option String) : Except String Atom :=
  let plain := if style = .plain then Atom.ofPlain text else .string text
  let demand (kind : String) (a : Option Atom) : Except String Atom :=
    match a with
    | some a => .ok a
    | none => .error kind
  match tag with
  | none => .ok plain
  | some tag =>
    if tag = boolTag then demand "a boolean" ((Spelling.bool? text).map .bool)
    else if tag = intTag then demand "an integer" (Spelling.integer? text)
    else if tag = floatTag then demand "a float" ((Spelling.float? text).map .float)
    else if tag = nullTag then demand "null" (if Spelling.isNull text then some .null else none)
    else if tag.startsWith "!" then .ok plain
    else .ok (.string text)

end RequestEngine.Yaml
