import RequestEngine.Number.Decimal
import RequestEngine.Number.Hexadecimal
import RequestEngine.Text.Bytes

/-!
Identifiers of 128 bits and their spellings: 32 hexadecimal digits, plain or in groups of
8, 4, 4, 4 and 12, the grouped form also in braces or after `urn:uuid:`.
-/
namespace RequestEngine

def uuidCount : Nat := 0x100000000000000000000000000000000

structure Uuid where
  value : Nat
  bound : value < uuidCount
  deriving DecidableEq

namespace Uuid

@[ext] theorem ext {a b : Uuid} (h : a.value = b.value) : a = b := by
  cases a; cases b; simp_all

def nil : Uuid := ⟨0, by decide⟩

instance : Inhabited Uuid := ⟨nil⟩

def ofNat (n : Nat) : Uuid := ⟨n % uuidCount, Nat.mod_lt _ (by decide)⟩

/-- The random form: 122 free bits around the marks of version 4 and of the variant. -/
def ofEntropy (n : Nat) : Uuid :=
  let low := n % (1 <<< 62)
  let mid := (n >>> 62) % (1 <<< 12)
  let high := (n >>> 74) % (1 <<< 48)
  ofNat ((high <<< 80) + (4 <<< 76) + (mid <<< 64) + (2 <<< 62) + low)

def digits (u : Uuid) (upper : Bool) : List Char := Hexadecimal.lastDigits upper 32 u.value

/-- Split 32 digits into the five groups, with hyphens between them. -/
def group (ds : List Char) : List Char :=
  ds.take 8 ++ '-' :: (ds.drop 8).take 4 ++ '-' :: (ds.drop 12).take 4 ++
    '-' :: (ds.drop 16).take 4 ++ '-' :: ds.drop 20

inductive Spelling where
  | hyphenated
  | simple
  | upper
  | braced
  | urn
  deriving DecidableEq, Repr

def urnMark : List Char := ['u', 'r', 'n', ':', 'u', 'u', 'i', 'd', ':']

def spell (u : Uuid) : Spelling → List Char
  | .hyphenated => group (u.digits false)
  | .simple => u.digits false
  | .upper => group (u.digits true)
  | .braced => '{' :: (group (u.digits false) ++ ['}'])
  | .urn => urnMark ++ group (u.digits false)

def text (u : Uuid) : String := String.ofList (u.spell .hyphenated)

instance : ToString Uuid := ⟨text⟩

inductive ParseError where
  | character (c : Char) (index : Nat)
  | length (found : Nat)
  | groupCount (found : Nat)
  | groupLength (group found : Nat)
  deriving DecidableEq, Repr

def groupLengths : List Nat := [8, 4, 4, 4, 12]

def ParseError.message : ParseError → String
  | .character c i =>
    "invalid character: found `" ++ String.ofList [c] ++ "` at " ++ Decimal.text i
  | .length n => "invalid length: found " ++ Decimal.text n
  | .groupCount n => "invalid group count: expected 5, found " ++ Decimal.text n
  | .groupLength g n =>
    "invalid group length in group " ++ Decimal.text g ++ ": expected " ++
      Decimal.text (groupLengths.getD g 0) ++ ", found " ++ Decimal.text n

/-- 32 digits without hyphens. -/
def ofSimple? (cs : List Char) : Option Uuid := (Hexadecimal.ofDigits? cs).map ofNat

/-- 36 characters with hyphens in their four places. -/
def ofHyphenated? (cs : List Char) : Option Uuid :=
  if cs[8]? = some '-' ∧ cs[13]? = some '-' ∧ cs[18]? = some '-' ∧ cs[23]? = some '-' then
    ofSimple? (cs.take 8 ++ (cs.drop 9).take 4 ++ (cs.drop 14).take 4 ++ (cs.drop 19).take 4 ++
      cs.drop 24)
  else none

/-- The first character that cannot stand in an identifier, at its byte index. -/
def badCharacter? : (index : Nat) → List Char → Option (Char × Nat)
  | _, [] => none
  | i, c :: cs =>
    if (Hexadecimal.digit? c).isSome || c = '-' then badCharacter? (i + c.utf8Size) cs
    else some (c, i)

def badGroup? (found : List Nat) : Option (Nat × Nat) :=
  ((found.zip groupLengths).zipIdx.find? fun p => p.1.1 != p.1.2).map fun p => (p.2, p.1.1)

/-- The lengths of the runs between hyphens. -/
def runs (cs : List Char) : List Nat :=
  (cs.foldr (fun c acc => if c = '-' then 0 :: acc else
    match acc with
    | [] => [1]
    | n :: rest => (n + 1) :: rest) [0])

/-- Why a text without any good reading is no identifier. -/
def explain (cs : List Char) : ParseError :=
  let bytes := Text.byteCount cs
  let (inner, offset, plain) :=
    if cs.head? = some '{' ∧ cs.getLast? = some '}' ∧ 2 ≤ cs.length then
      (cs.tail.dropLast, 1, false)
    else if urnMark.isPrefixOf cs then (cs.drop 9, 9, false)
    else (cs, 0, true)
  match badCharacter? offset inner with
  | some (c, i) => .character c i
  | none =>
    let groups := runs inner
    if groups.length = 1 ∧ plain then .length bytes
    else if groups.length ≠ 5 then .groupCount groups.length
    else match badGroup? (groups.take 4) with
      | some (g, n) => .groupLength g n
      | none => .groupLength 4 (bytes - 24)

/-- Read any of the spellings, in either case. -/
def parseChars (cs : List Char) : Except ParseError Uuid :=
  let orExplain (found : Option Uuid) (cs : List Char) : Except ParseError Uuid :=
    match found with
    | some u => .ok u
    | none => .error (explain cs)
  let bytes := Text.byteCount cs
  if bytes = 32 then orExplain (ofSimple? cs) cs
  else if bytes = 36 then orExplain (ofHyphenated? cs) cs
  else if bytes = 38 ∧ cs.head? = some '{' ∧ cs.getLast? = some '}' then
    let inner := cs.tail.dropLast
    orExplain (ofHyphenated? inner) inner
  else if bytes = 45 ∧ urnMark.isPrefixOf cs then
    let inner := cs.drop 9
    orExplain (ofHyphenated? inner) inner
  else .error (explain cs)

def parse (s : String) : Except ParseError Uuid := parseChars s.toList

def parse? (s : String) : Option Uuid := (parse s).toOption

end Uuid

end RequestEngine
