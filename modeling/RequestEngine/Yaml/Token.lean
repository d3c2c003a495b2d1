import RequestEngine.Number.Decimal
import RequestEngine.Number.Hexadecimal
import RequestEngine.Yaml.Source

/-! Tokens of a YAML stream, and the scanning of directives, anchors and tags. -/
namespace RequestEngine.Yaml

inductive Style where
  | plain
  | singleQuoted
  | doubleQuoted
  | literal
  | folded
  deriving DecidableEq, Repr

inductive TokenKind where
  | version (major minor : Nat)
  | tagDirective (handle expansion : String)
  | documentStart
  | documentEnd
  | streamEnd
  | blockSequenceStart
  | blockMappingStart
  | blockEnd
  | flowSequenceStart
  | flowSequenceEnd
  | flowMappingStart
  | flowMappingEnd
  | blockEntry
  | flowEntry
  | key
  | value
  | reference (name : String)
  | anchor (name : String)
  | tag (handle suffix : String)
  | scalar (text : String) (style : Style)
  deriving DecidableEq, Repr

structure Token where
  kind : TokenKind
  start : Mark
  stop : Mark
  deriving DecidableEq, Repr

namespace Token

open Scan

def scanNumber : Scan Nat := do
  let ds ← takeWhile Char.isDigit
  if ds.isEmpty || 9 < ds.length then fail
  return Decimal.ofDigits ds

/-- The octets of a run of percent escapes that spell one character in UTF-8. -/
def scanEscapedChar : Scan Char := do
  let octet : Scan Nat := do
    let s ← get
    if !s.isAt 0 '%' then fail
    match s.rest with
    | _ :: a :: b :: _ =>
      let some n := Hexadecimal.ofDigits? [a, b] | fail
      skip 3
      return n
    | _ => fail
  let first ← octet
  let (count, bits) ←
    if first < 0x80 then pure (0, first)
    else if first / 0x20 = 6 then pure (1, first % 0x20)
    else if first / 0x10 = 14 then pure (2, first % 0x10)
    else if first / 8 = 30 then pure (3, first % 8)
    else fail
  let more (n : Nat) : Scan Nat := do
    let o ← octet
    if o / 0x40 = 2 then return 0x40 * n + o % 0x40 else fail
  let code ← match count with
    | 0 => pure bits
    | 1 => more bits
    | 2 => do more (← more bits)
    | _ => do more (← more (← more bits))
  return Char.ofNat code

def isUriChar (verbatim : Bool) (c : Char) : Bool :=
  isWord c || [';', '/', '?', ':', '@', '&', '=', '+', '$', '.', '%', '!', '~', '*', '\'', '(',
    ')'].contains c || (verbatim && [',', '[', ']'].contains c)

def scanUri (verbatim : Bool) : (room : Nat) → Scan (List Char)
  | 0 => return []
  | room + 1 => do
    match (← get).char? 0 with
    | some c =>
      if isUriChar verbatim c then
        let d ← if c = '%' then scanEscapedChar else do skip 1; pure c
        return d :: (← scanUri verbatim room)
      else return []
    | none => return []

/-- A tag text of at least one character, counting a head that was read before. -/
def scanUriAfter (verbatim : Bool) (head : List Char) : Scan String := do
  let cs ← scanUri verbatim (← get).rest.length
  if head.isEmpty && cs.isEmpty then fail
  return String.ofList (head.drop 1 ++ cs)

/-- A handle: `!`, or a name between exclamation marks. -/
def scanHandle (directive : Bool) : Scan (List Char) := do
  if !(← get).isAt 0 '!' then fail
  skip 1
  let name ← takeWhile isWord
  if (← get).isAt 0 '!' then
    skip 1
    return '!' :: (name ++ ['!'])
  if directive && !name.isEmpty then fail
  return '!' :: name

def scanDirective : Scan Token := do
  let start ← mark
  skip 1
  let name ← takeWhile isWord
  if name.isEmpty || !(← get).isBlankOrEnd 0 then fail
  if name = ['Y', 'A', 'M', 'L'] then
    skipBlanks
    let major ← scanNumber
    if !(← get).isAt 0 '.' then fail
    skip 1
    let minor ← scanNumber
    let stop ← mark
    finishLine
    return ⟨.version major minor, start, stop⟩
  else if name = ['T', 'A', 'G'] then
    skipBlanks
    let handle ← scanHandle true
    if !((← get).char? 0).any isBlank then fail
    skipBlanks
    let expansion ← scanUriAfter true []
    if !(← get).isBlankOrEnd 0 then fail
    let stop ← mark
    finishLine
    return ⟨.tagDirective (String.ofList handle) expansion, start, stop⟩
  else fail

/-- An anchor or a reference to one, from its sign on. -/
def scanAnchor (kind : String → TokenKind) : Scan Token := do
  let start ← mark
  skip 1
  let name ← takeWhile isWord
  let s ← get
  let ended := s.isBlankOrEnd 0 ||
    (s.char? 0).any fun c => ['?', ':', ',', ']', '}', '%', '@', '\x60'].contains c
  if name.isEmpty || !ended then fail
  return ⟨kind (String.ofList name), start, ← mark⟩

/-- A tag: verbatim in angle brackets, with a handle, or with the handle `!`. The lone `!` has an
empty handle. -/
def scanTag (inFlow : Bool) : Scan Token := do
  let start ← mark
  let (handle, suffix) ←
    if (← get).isAt 1 '<' then do
      skip 2
      let suffix ← scanUriAfter true []
      if !(← get).isAt 0 '>' then fail
      skip 1
      pure ("", suffix)
    else do
      let head ← scanHandle false
      if 2 ≤ head.length && head.getLast? == some '!' then
        pure (String.ofList head, ← scanUriAfter false [])
      else
        let suffix ← scanUriAfter false head
        pure (if suffix = "" then ("", "!") else ("!", suffix))
  let s ← get
  if !(s.isBlankOrEnd 0 || (inFlow && s.isAt 0 ',')) then fail
  return ⟨.tag handle suffix, start, s.mark⟩

end Token

end RequestEngine.Yaml
